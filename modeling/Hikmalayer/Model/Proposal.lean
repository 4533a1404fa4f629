/-
# Proposing a block

`propose_block` of `api/routes.rs`: the candidate of a validator that signs away from the node, and
what `hikma-wallet` prints for it.  The key's fields are what the wallet's libraries compute.
-/
import Mathlib.Tactic
import Hikmalayer.Model.Mining

open Outcome

/-- The answer of `/mine/propose`. -/
structure ProposeBlockResponse where
  status : String
  message : String
  selectedValidator : Option String
  block : Option Block
  blockHash : Option String
  vrfInput : Option String

namespace ProposeBlockResponse

/-- An answer without a candidate. -/
def refused (message : String) : ProposeBlockResponse := ⟨"error", message, none, none, none, none⟩

/-- The answer with a candidate of the validator, who proves its slot over `vrfInput`. -/
def candidate (validator : String) (block : Block) (vrfInput : String) : ProposeBlockResponse where
  status := "success"
  message := "Block candidate created for validator " ++ validator ++ ". Sign block_hash with " ++
    "the validator's private key (hikma-wallet sign-block), compute the VRF proof over " ++
    "vrf_input (hikma-wallet vrf-prove), set validator_signature, vrf_output, and vrf_proof on " ++
    "the block, and POST it to /mine/submit."
  selectedValidator := some validator
  block := some block
  blockHash := some block.hash
  vrfInput := some vrfInput

end ProposeBlockResponse

namespace Blockchain

variable {ε : Type}

/-- Build the next block over the tip, dated `now`. -/
def createBlock (E : Env) (now : DateTime) (chain : Blockchain) (transactions : List String)
    (validator validatorPublicKey : Option String) (stateRoot : String) : Outcome ε Block := do
  let index ← chain.nextIndex
  Block.newAt E now index transactions chain.latestHash chain.currentDifficulty validator
    validatorPublicKey none stateRoot

/-- Plan a block for `producer`, or else for the first open leader, and build it; the chain stays as
it is.  `now` is the clock at planning, `built` at building. -/
def proposeBlock (E : Node) (chain : Blockchain) (pending : List Transaction)
    (producer : Option String) (now : DateTime) (rewardId : String) (rewardTime built : DateTime) :
    Outcome ε ProposeBlockResponse :=
  match planBlock E chain pending producer now rewardId rewardTime with
  | panicked => panicked
  | err message => ok (.refused message)
  | ok plan => do
    let block ← chain.createBlock E built plan.transactions (some plan.validator)
      (some plan.publicKey) plan.stateRoot
    return .candidate plan.validator block plan.slotInput

end Blockchain
