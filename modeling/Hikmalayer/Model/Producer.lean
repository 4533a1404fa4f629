/-
# Block production

`plan_block` of `api/routes.rs` and the leader queries of `blockchain/chain.rs` it uses.
The wall clock and the fresh id and timestamp of the reward are parameters.
-/
import Mathlib.Tactic
import Hikmalayer.Model.Chain

open Outcome

/-- Most transactions a block takes from the pool. -/
def maxBlockTxs : ℕ := 100

namespace Transaction

/-- `Transaction::new` without a sender: the block reward for `validator`. -/
def newReward (id : String) (timestamp : DateTime) (validator : String) (height : UInt64) :
    Transaction where
  id := id
  sender := none
  recipient := validator
  amount := blockReward height
  transactionType := .reward
  timestamp := timestamp
  nonce := 0
  publicKey := none
  signature := none
  slashProof := none
  vrfPublicKey := none
  credential := none
  vestingCliffBlocks := none
  vestingDurationBlocks := none
  token := none
  amm := none
  pqPublicKey := none
  pqSignature := none
  chainId := ""

end Transaction

namespace Blockchain

/-! ## Leaders -/

/-- The smallest of these rounds that selects `validator`, with its slot input. -/
def eligibleRound (E : Env) (randomness : String) (index : UInt64) (validatorSet : List Staker)
    (validator : String) : List UInt64 → Outcome String (Option (UInt64 × String))
  | [] => ok none
  | round :: rest => do
    let input := Vrf.slotInputAtRound randomness index round
    let leader ← Pos.selectStakerWithSeed E input validatorSet
    if leader = some validator then return some (round, input)
    eligibleRound E randomness index validatorSet validator rest

/-- The smallest open round that selects `validator` at the next height, with its slot input. -/
def eligibleSlotFor (E : Env) (chain : Blockchain) (now : DateTime) (validator : String) :
    Outcome String (Option (UInt64 × String)) :=
  match chain.blocks.getLast? with
  | none => ok none
  | some tip => do
    let index ← chain.nextIndex
    eligibleRound E chain.randomness index chain.state.validatorSet validator
      (roundList (openRounds tip.timestamp now))

/-- The distinct leaders of the rounds, each with its first round and that round's slot input. -/
def leadersOf (E : Env) (randomness : String) (index : UInt64) (validatorSet : List Staker)
    (leaders : List (UInt64 × String × String)) :
    List UInt64 → Outcome String (List (UInt64 × String × String))
  | [] => ok leaders
  | round :: rest => do
    let input := Vrf.slotInputAtRound randomness index round
    let leader ← Pos.selectStakerWithSeed E input validatorSet
    match leader with
    | some validator =>
      leadersOf E randomness index validatorSet
        (if leaders.any fun l => l.2.1 = validator then leaders
          else leaders ++ [(round, validator, input)]) rest
    | none => leadersOf E randomness index validatorSet leaders rest

/-- The leaders allowed to produce the next block, in priority order. -/
def openLeaders (E : Env) (chain : Blockchain) (now : DateTime) :
    Outcome String (List (UInt64 × String × String)) :=
  match chain.blocks.getLast? with
  | none => ok []
  | some tip => do
    let index ← chain.nextIndex
    leadersOf E chain.randomness index chain.state.validatorSet []
      (roundList (openRounds tip.timestamp now))

/-! ## Planning a block -/

structure BlockPlan where
  validator : String
  publicKey : String
  slotInput : String
  transactions : List String
  stateRoot : String
  includedIds : List String

/-- Who the plan is for, and its slot input. -/
def planLeader (E : Env) (chain : Blockchain) (now : DateTime) (producer : Option String) :
    Outcome String (String × String) := do
  let noValidators := "No validators available. Stake tokens to become a validator."
  match producer with
  | some addr =>
    let slot ← eligibleSlotFor E chain now addr
    match slot with
    | some (_, input) => return (addr, input)
    | none =>
      let leaders ← openLeaders E chain now
      let (_, primary, _) ← okOr leaders.head? noValidators
      err ("PoS: validator " ++ addr ++ " is not an eligible leader for this slot. Current " ++
        "leader is " ++ primary ++ "; a fallback leader rotates in every " ++
        toString slotTimeoutSeconds ++ "s without a block.")
  | none =>
    let leaders ← openLeaders E chain now
    let (_, validator, slotInput) ← okOr leaders.head? noValidators
    return (validator, slotInput)

/-- Try a pending transaction on the running state: the state it leaves, and whether it is
kept.  A failed application keeps the state it leaves. -/
def consider (E : Node) (validator : String) (index : UInt64) (state : ChainState)
    (tx : Transaction) : Outcome String (ChainState × Bool) :=
  match tx.verifyForBlock E validator with
  | panicked => panicked
  | err _ => ok (state, false)
  | ok _ =>
    match ChainState.applyVerified E tx index state with
    | panicked => panicked
    | err e => ok (e.2, false)
    | ok r => ok (r.2, true)

/-- Go through the pending transactions until the block is full. -/
def collect (E : Node) (validator : String) (index : UInt64) :
    ChainState → List Transaction → List Transaction →
      Outcome String (ChainState × List Transaction)
  | state, kept, [] => ok (state, kept)
  | state, kept, tx :: rest =>
    if maxBlockTxs ≤ kept.length then ok (state, kept)
    else do
      let (state, keep) ← consider E validator index state tx
      collect E validator index state (if keep then kept ++ [tx] else kept) rest

/-- Plan the next block from the pending transactions. -/
def planBlock (E : Node) (chain : Blockchain) (pending : List Transaction)
    (producer : Option String) (now : DateTime) (rewardId : String) (rewardTime : DateTime) :
    Outcome String BlockPlan := do
  let index ← chain.nextIndex
  let (validator, slotInput) ← planLeader E chain now producer
  let publicKey ← okOr (chain.state.stakers[validator]?.map StakeInfo.publicKey)
    "Selected validator not registered"
  let (state, kept) ← collect E validator index chain.state [] pending
  let reward := Transaction.newReward rewardId rewardTime validator index
  let state ← (Exec.finalState (ChainState.applyVerified E reward index) state).mapErr
    fun err => "Failed to apply reward: " ++ err
  let state ← Exec.finalState (ChainState.endBlock E index validator) state
  return ⟨validator, publicKey, slotInput, (kept ++ [reward]).map E.txJson, state.stateRoot E,
    kept.map Transaction.id⟩

end Blockchain
