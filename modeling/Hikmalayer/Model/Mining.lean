/-
# Mining with the local key

`mine_block` of `api/routes.rs`: plan under the locks, build without them, then seal, check
and commit under the locks again.  What the libraries compute from the private key are fields
of the key.
-/
import Mathlib.Tactic
import Hikmalayer.Model.Producer

open Outcome

/-- `str::contains`. -/
def containsText (text pattern : String) : Bool := pattern.toList <:+: text.toList

/-- `LocalValidatorKey`, with what the libraries compute from its private key. -/
structure LocalValidatorKey where
  address : String
  publicKey : String
  vrfPublicKey : String
  /-- `vrf::prove`: output and proof for a slot input. -/
  prove : String → Outcome String (String × String)
  /-- `pos::sign_block_hash`. -/
  signBlockHash : String → Outcome String String
  /-- `pq::sign_block_hash`. -/
  pqSignBlockHash : String → Outcome String String

/-- The answer of `/mine`. -/
structure MiningResponse where
  status : String
  message : String
  blockIndex : UInt64
  transactionsCount : ℕ
  deriving DecidableEq, Repr

/-- An answer without a block. -/
def MiningResponse.refused (status message : String) : MiningResponse := ⟨status, message, 0, 0⟩

open MiningResponse

namespace Blockchain

/-- What `mine_block` keeps while the block is built. -/
structure MinePlan where
  plan : BlockPlan
  index : UInt64
  previousHash : String
  difficulty : UInt64

/-- An ineligible producer is no error of the node. -/
def planRefusal (message : String) : MiningResponse :=
  refused (if containsText message "No pending" || containsText message "not an eligible leader"
    then "info" else "error") message

/-- Plan a block for the local key. -/
def planMine (E : Node) (key : LocalValidatorKey) (chain : Blockchain)
    (pending : List Transaction) (now : DateTime) (rewardId : String) (rewardTime : DateTime) :
    Outcome MiningResponse MinePlan := do
  let plan ← (planBlock E chain pending (some key.address) now rewardId rewardTime).mapErr
    planRefusal
  ensure (plan.publicKey = key.publicKey) (refused "error"
    "Local validator key does not match this validator's registered public key")
  let index ← chain.nextIndex
  return ⟨plan, index, chain.latestHash, chain.currentDifficulty⟩

/-- `build_block_off_thread`: build and mine the planned block, dated `now`. -/
def MinePlan.build (E : Env) (m : MinePlan) (now : DateTime) : Outcome MiningResponse Block :=
  Block.newAt E now m.index m.plan.transactions m.previousHash m.difficulty
    (some m.plan.validator) (some m.plan.publicKey) none m.plan.stateRoot

/-- Prove the slot and sign the hash, under both schemes for a hybrid validator. -/
def sealMined (key : LocalValidatorKey) (chain : Blockchain) (plan : BlockPlan) (block : Block) :
    Outcome MiningResponse Block := do
  let (output, proof) ← (key.prove plan.slotInput).mapErr fun message =>
    refused "error" ("Failed to compute VRF proof: " ++ message)
  let signature ← (key.signBlockHash block.hash).mapErr fun message =>
    refused "error" ("Failed to sign block: " ++ message)
  let block := { block with
    vrfOutput := some output
    vrfProof := some proof
    validatorSignature := some signature }
  let registered := (chain.state.stakers[plan.validator]?.map StakeInfo.pqPublicKey).getD ""
  if registered = "" then return block
  else do
    let pqSignature ← (key.pqSignBlockHash block.hash).mapErr fun message =>
      refused "error" ("Failed to sign block with the post-quantum key: " ++ message)
    return { block with validatorPqSignature := some pqSignature }

/-- Seal the built block and commit it, unless the tip has moved meanwhile; the included
transactions leave the pool. -/
def finishMine (E : Node) (key : LocalValidatorKey) (m : MinePlan) (block : Block)
    (finalityDepth : UInt64) (now : DateTime) (chain : Blockchain) (pending : List Transaction) :
    Outcome MiningResponse (Block × Blockchain × List Transaction) := do
  ensure (chain.latestHash = m.previousHash)
    (refused "info" "Chain tip moved while mining; retry")
  let block ← sealMined key chain m.plan block
  let post ← (validateBlockCandidate E chain now block).mapErr fun message =>
    refused "error" ("Mined block failed validation: " ++ message)
  let chain ← commitBlock E chain block post
  let chain ← chain.applyFinality finalityDepth
  return (block, chain, pending.filter fun tx => tx.id ∉ m.plan.includedIds)

end Blockchain
