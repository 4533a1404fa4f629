/-
# Integrity probes

`quick_integrity`, `is_valid`, `validate_report` and `evaluate_slash_evidence` of
`blockchain/chain.rs`, and `validate_block` of `api/routes.rs`.  The time of the evidence is a
parameter.
-/
import Mathlib.Tactic
import Hikmalayer.Model.Mining

open Outcome

/-- `SlashEvidence` of the chain. -/
structure SlashEvidence where
  validator : String
  reason : String
  timestamp : String
  deriving DecidableEq, Repr

structure ValidationResponse where
  isValid : Bool
  message : String
  details : Option String
  deriving DecidableEq, Repr

namespace Blockchain

/-- Probe the tip against the live state, without a replay. -/
def quickIntegrity (E : Env) (chain : Blockchain) : Bool :=
  match chain.blocks.getLast? with
  | some tip =>
    tip.stateRoot = chain.state.stateRoot E && tip.hasValidPow E &&
      (chain.blocks.length < 2 || chain.blocks[chain.blocks.length - 2]?.any fun previous =>
        tip.previousHash = previous.hash)
  | none => false

def isValid (E : Node) (chain : Blockchain) : Outcome String Bool :=
  match validateFull E chain with
  | ok _ => ok true
  | err _ => ok false
  | panicked => panicked

/-- Whether the chain is valid, and what is wrong otherwise. -/
def validateReport (E : Node) (chain : Blockchain) : Outcome String (Bool × Option String) :=
  match validateFull E chain with
  | ok _ => ok (true, none)
  | err (index, error) => ok (false, some ("Block " ++ toString index ++ ": " ++ error.reason))
  | panicked => panicked

/-- Evaluate the block at an absolute height for slashable behaviour. -/
def evaluateSlashEvidence (E : Node) (chain : Blockchain) (blockIndex : UInt64) (now : DateTime) :
    Outcome String SlashEvidence := do
  ensure (blockIndex ≠ 0) "Cannot slash genesis block"
  ensure (¬ blockIndex < chain.baseHeight) "Block index out of range"
  let next ← chain.nextIndex
  ensure (¬ next ≤ blockIndex) "Block index out of range"
  let position := (blockIndex - chain.baseHeight).toNat
  ensure (position ≠ 0) "Cannot evaluate the checkpoint anchor"
  match validateFull E chain with
  | ok _ => err "Block does not contain slashable behavior"
  | err (failed, error) =>
    if failed = position ∧ error.slashable then do
      let block ← plain chain.blocks[position]?
      return ⟨block.validator.getD "unknown", error.reason, now.toRfc3339⟩
    else err "Block does not contain slashable behavior"
  | panicked => panicked

/-- The answer of `/validate/block/{index}`. -/
def validateBlock (E : Node) (chain : Blockchain) (index : UInt64) (now : DateTime) :
    Outcome String ValidationResponse :=
  match chain.blocks[index.toNat]? with
  | none => ok ⟨false, "Block not found",
      some ("Block index " ++ toString index ++ " does not exist")⟩
  | some block =>
    if index = 0 then
      ok ⟨block.hasValidPow E,
        if block.hasValidPow E then "Genesis block is valid" else "Genesis block is invalid",
        some "Genesis block PoW validation"⟩
    else
      let invalid (details : String) : Outcome String ValidationResponse :=
        ok ⟨false, "Block " ++ toString index ++ " validation failed", some details⟩
      match evaluateSlashEvidence E chain index now with
      | ok evidence => invalid evidence.reason
      | err message =>
        if containsText message "does not contain slashable" then
          ok ⟨true, "Block " ++ toString index ++ " is valid", some "Block is valid"⟩
        else invalid message
      | panicked => panicked

end Blockchain
