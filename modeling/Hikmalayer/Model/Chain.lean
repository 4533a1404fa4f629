/-
# The chain: validation, commit, replay, fork choice

`blockchain/chain.rs`.  The wall clock is a parameter.  `validate_block_at` is split at
its phases: position, producer, execution.
-/
import Mathlib.Tactic
import Hikmalayer.Model.Apply

open Outcome Exec

/-! ## Constants -/

def maxTimestampSkewSeconds : ℕ := 120
def targetBlockSeconds : ℤ := 15
def retargetInterval : UInt64 := 10
def slotTimeoutSeconds : ℤ := 30
def maxSlotRounds : ℕ := 16

/-! ## Difficulty schedule -/

/-- Step the difficulty by at most one, from the average interval of the window. -/
def adjustedDifficulty {ε : Type} (current : UInt64) (window : List Block) :
    Outcome ε UInt64 := do
  if window.length < 2 then return current
  let first ← plain window.head?
  let last ← plain window.getLast?
  let span := last.timestamp.numSecondsSince first.timestamp
  let average := span.tdiv ((window.length : ℤ) - 1)
  if average < targetBlockSeconds / 2 then do
    let next ← plain (Word.checkedAdd current 1)
    return min next Pow.maxDifficulty
  else if targetBlockSeconds * 2 < average then
    return max (Word.saturatingSub current 1) Pow.minDifficulty
  else return current

/-- `blocks[start..]`. -/
def sliceFrom {ε : Type} (blocks : List Block) (start : ℕ) : Outcome ε (List Block) :=
  if start ≤ blocks.length then ok (blocks.drop start) else panicked

/-- The retarget decision at a block of height `producedAbs`, the last of `blocks`. -/
def retarget {ε : Type} (blocks : List Block) (producedAbs baseHeight current : UInt64) :
    Outcome ε UInt64 := do
  let next ← plain (Word.checkedAdd producedAbs 1)
  if next % retargetInterval ≠ 0 then return current
  let start := blocks.length - retargetInterval.toNat
  let window ← sliceFrom blocks (if baseHeight = 0 then max start 1 else start)
  adjustedDifficulty current window

/-! ## Validation of one block -/

/-- A validation failure; `slashable` marks provable misbehaviour. -/
structure BlockError where
  reason : String
  slashable : Bool
  deriving DecidableEq, Repr

namespace BlockError

def structural (reason : String) : BlockError := ⟨reason, false⟩
def misbehaviour (reason : String) : BlockError := ⟨reason, true⟩

end BlockError

open BlockError

/-- Where a block must sit: height, parent, parent time, scheduled difficulty. -/
structure Position where
  index : UInt64
  previousHash : String
  randomness : String
  parentTimestamp : DateTime
  difficulty : UInt64

/-- Leader rounds open for a block, from its own and its parent's timestamp. -/
def openRounds (parentTs blockTs : DateTime) : ℕ :=
  let elapsed := blockTs.numSecondsSince parentTs
  if elapsed ≤ 0 then 0 else min (elapsed.tdiv slotTimeoutSeconds).toNat maxSlotRounds

/-- The rounds `0..=rounds`. -/
def roundList (rounds : ℕ) : List UInt64 := (List.range (rounds + 1)).map UInt64.ofNat

/-- The slot input of the smallest of these rounds that selects `validator`. -/
def findSlot {ε : Type} (E : Env) (randomness : String) (index : UInt64)
    (validatorSet : List Staker) (validator : String) :
    List UInt64 → Outcome ε (Option String)
  | [] => ok none
  | round :: rest => do
    let candidate := Vrf.slotInputAtRound randomness index round
    let leader ← Pos.selectStakerWithSeed E candidate validatorSet
    if leader = some validator then return some candidate
    findSlot E randomness index validatorSet validator rest

/-- The checks on the header's place in the chain. -/
def checkPosition (block : Block) (place : Position) : Outcome BlockError Unit := do
  ensure (block.index = place.index) (structural "Block index does not match chain tip")
  ensure (¬ block.timestamp.before place.parentTimestamp)
    (misbehaviour "Block timestamp precedes its parent")
  ensure (block.difficulty = place.difficulty)
    (misbehaviour "Block difficulty does not match retarget schedule")
  ensure (block.previousHash = place.previousHash)
    (structural "Block previous hash does not match chain tip")
  ensure (Pow.isDifficultyInBounds block.difficulty)
    (misbehaviour "Block difficulty out of bounds")
  ensure (¬ (block.validator = none ∨ block.validatorPublicKey = none ∨
      block.validatorSignature = none))
    (structural "Block missing required validator data")

/-- A hybrid validator signs blocks under both schemes, by its registered key. -/
def checkPqSignature (E : Env) (block : Block) (registered : String) :
    Outcome BlockError Unit :=
  if registered = "" then
    ensure (block.validatorPqSignature = none)
      (misbehaviour "Classical validator must not carry a post-quantum block signature")
  else do
    let pqSignature ← okOr block.validatorPqSignature
      (misbehaviour "Hybrid validator must sign the block with its post-quantum key")
    ensure (Pq.verifyBlockSignature E block.hash registered pqSignature)
      (misbehaviour "Block post-quantum signature verification failed")

/-- The producer must be a selected leader, hold the registered keys, and prove its VRF
output; returns its address. -/
def checkProducer (E : Env) (block : Block) (place : Position) (parentState : ChainState) :
    Outcome BlockError String := do
  let validatorSet := parentState.validatorSet
  let primary ← Pos.selectStakerWithSeed E (Vrf.slotInput place.randomness block.index) validatorSet
  ensure (primary ≠ none) (structural "No validators registered at parent state")
  let validator ← plain block.validator
  let rounds := openRounds place.parentTimestamp block.timestamp
  let found ← findSlot E place.randomness block.index validatorSet validator (roundList rounds)
  let slotInput ← okOr found
    (misbehaviour "Block validator does not match PoS selection for any open round")
  let publicKey ← plain block.validatorPublicKey
  let registered := parentState.stakers[validator]?
  ensure (registered.map StakeInfo.publicKey = some publicKey)
    (misbehaviour "Block signer key does not match validator's registered key")
  let signature ← plain block.validatorSignature
  ensure (Pos.verifyBlockSignature E block.hash publicKey signature)
    (misbehaviour "Block signature verification failed")
  checkPqSignature E block ((registered.map StakeInfo.pqPublicKey).getD "")
  let registeredVrfKey := (registered.map StakeInfo.vrfPublicKey).getD ""
  ensure (registeredVrfKey ≠ "") (structural "Validator has no registered VRF key")
  let vrfOutput ← okOr block.vrfOutput (structural "Block missing VRF output or proof")
  let vrfProof ← okOr block.vrfProof (structural "Block missing VRF output or proof")
  ensure (Vrf.verify E slotInput registeredVrfKey vrfOutput vrfProof)
    (misbehaviour "Block VRF verification failed")
  return validator

/-! ## Executing a block -/

/-- One transaction of a block: parse, verify, apply, and check a reward's amount. -/
def executeTransaction (E : Node) (validator : String) (index : UInt64) (state : ChainState)
    (txStr : String) : Outcome BlockError (ChainState × Transaction) := do
  let tx ← okOr (E.parseTx txStr) (misbehaviour "Block contains malformed transaction")
  (tx.verifyForBlock E validator).mapErr misbehaviour
  let state ← (finalState (ChainState.applyVerified E tx index) state).mapErr misbehaviour
  ensure (tx.transactionType = .reward → tx.amount = blockReward index)
    (misbehaviour "Block reward does not match the emission schedule")
  return (state, tx)

/-- The transactions of a block in order, counting its rewards. -/
def executeTransactions (E : Node) (validator : String) (index : UInt64) :
    ChainState → ℕ → List String → Outcome BlockError (ChainState × ℕ)
  | state, rewardCount, [] => ok (state, rewardCount)
  | state, rewardCount, txStr :: rest => do
    let (state, tx) ← executeTransaction E validator index state txStr
    executeTransactions E validator index state
      (if tx.transactionType = .reward then rewardCount + 1 else rewardCount) rest

/-- Execute a block's transactions and close it; the committed root must match. -/
def executeBlock (E : Node) (validator : String) (block : Block) (parentState : ChainState) :
    Outcome BlockError ChainState := do
  let (state, rewardCount) ←
    executeTransactions E validator block.index parentState 0 block.transactions
  ensure (rewardCount = 1)
    (misbehaviour "Block must contain exactly one reward transaction")
  let state ← (finalState (ChainState.endBlock E block.index validator) state).mapErr misbehaviour
  ensure (state.stateRoot E = block.stateRoot)
    (misbehaviour "Block state root does not match executed state")
  return state

/-- Full consensus validation of a block at its position; returns the state after it. -/
def validateBlockAt (E : Node) (block : Block) (place : Position) (parentState : ChainState) :
    Outcome BlockError ChainState := do
  checkPosition block place
  let validator ← checkProducer E block place parentState
  ensure (block.hasValidMerkleRoot E) (misbehaviour "Block merkle root mismatch")
  ensure (block.hasValidPow E) (misbehaviour "Block PoW validation failed")
  executeBlock E validator block parentState

/-! ## The chain a node holds -/

/-- Trusted root of a checkpoint-synced chain. -/
structure CheckpointRoot where
  state : ChainState
  randomness : String
  difficulty : UInt64

structure Blockchain where
  blocks : List Block
  difficulty : UInt64
  finalizedHeight : UInt64
  genesisTreasury : String
  genesisValidatorPublicKey : Option String
  genesisValidatorVrfPublicKey : Option String
  genesisSupply : UInt64
  genesisValidatorAllowlist : List String
  genesisChainId : String
  genesisRequireHybridSignatures : Bool
  genesisValidatorPqPublicKey : Option String
  state : ChainState
  randomness : String
  currentDifficulty : UInt64
  baseHeight : UInt64
  checkpoint : Option CheckpointRoot

namespace Blockchain

/-- The genesis state of the network parameters. -/
def genesisState (E : Env) (chain : Blockchain) : ChainState :=
  let state := ChainState.genesisForChain chain.genesisChainId chain.genesisTreasury
    chain.genesisValidatorPublicKey chain.genesisValidatorVrfPublicKey chain.genesisSupply
    chain.genesisValidatorAllowlist
  ChainState.seatGenesisValidatorPqKey E
    { state with requireHybridSignatures := chain.genesisRequireHybridSignatures }
    chain.genesisTreasury chain.genesisValidatorPqPublicKey

/-- Genesis for a named network. -/
def newWithGenesisOnChain {ε : Type} (E : Env) (genesisChainId : String) (difficulty : UInt64)
    (genesisTreasury : String)
    (genesisValidatorPublicKey genesisValidatorVrfPublicKey : Option String)
    (genesisSupply : UInt64) (genesisValidatorAllowlist : List String)
    (genesisRequireHybridSignatures : Bool) (genesisValidatorPqPublicKey : Option String) :
    Outcome ε Blockchain := do
  let difficulty := Pow.clampDifficulty difficulty
  let state := ChainState.genesisForChain genesisChainId genesisTreasury
    genesisValidatorPublicKey genesisValidatorVrfPublicKey genesisSupply
    genesisValidatorAllowlist
  let state := ChainState.seatGenesisValidatorPqKey E
    { state with requireHybridSignatures := genesisRequireHybridSignatures }
    genesisTreasury genesisValidatorPqPublicKey
  let genesisBlock ← Block.genesis E difficulty (state.stateRoot E)
  return {
    blocks := [genesisBlock]
    difficulty := difficulty
    finalizedHeight := 0
    genesisTreasury := genesisTreasury
    genesisValidatorPublicKey := genesisValidatorPublicKey
    genesisValidatorVrfPublicKey := genesisValidatorVrfPublicKey
    genesisSupply := genesisSupply
    genesisValidatorAllowlist := genesisValidatorAllowlist
    genesisChainId := genesisChainId
    genesisRequireHybridSignatures := genesisRequireHybridSignatures
    genesisValidatorPqPublicKey := genesisValidatorPqPublicKey
    state := state
    randomness := genesisBlock.hash
    currentDifficulty := difficulty
    baseHeight := 0
    checkpoint := none }

/-- Absolute index the next appended block will carry. -/
def nextIndex {ε : Type} (chain : Blockchain) : Outcome ε UInt64 :=
  plain (Word.checkedAdd chain.baseHeight (UInt64.ofNat chain.blocks.length))

/-- Absolute height of the current tip. -/
def tipIndex {ε : Type} (chain : Blockchain) : Outcome ε UInt64 := do
  let next ← chain.nextIndex
  return Word.saturatingSub next 1

def latestHash (chain : Blockchain) : String := (chain.blocks.getLast?.map Block.hash).getD "0"

/-- Append a validated block, adopt its state, fold its VRF output, retarget. -/
def commitBlock {ε : Type} (E : Env) (chain : Blockchain) (block : Block)
    (postState : ChainState) : Outcome ε Blockchain := do
  let chain := { chain with
    randomness := Vrf.nextRandomness E chain.randomness (block.vrfOutput.getD "")
    blocks := chain.blocks ++ [block]
    state := postState }
  let tip ← chain.tipIndex
  let difficulty ← retarget chain.blocks tip chain.baseHeight chain.currentDifficulty
  return { chain with currentDifficulty := difficulty }

/-- Mark everything `finalityDepth` below the tip as final. -/
def applyFinality {ε : Type} (chain : Blockchain) (finalityDepth : UInt64) :
    Outcome ε Blockchain := do
  if chain.blocks = [] then return { chain with finalizedHeight := chain.baseHeight }
  let tip ← chain.tipIndex
  if finalityDepth = 0 then return { chain with finalizedHeight := tip }
  return { chain with
    finalizedHeight := max (Word.saturatingSub tip finalityDepth) chain.baseHeight }

/-- The sum of 128-bit values, adding from the left onto `acc`. -/
def wideSum (acc : ℕ) : List ℕ → Option ℕ
  | [] => some acc
  | a :: rest => (Word.wideAdd acc a).bind fun acc => wideSum acc rest

/-- Total expected work across the chain. -/
def cumulativeWork {ε : Type} (chain : Blockchain) : Outcome ε ℕ :=
  plain (wideSum 0 (chain.blocks.map fun b => Pow.workForDifficulty b.difficulty))

/-- The position after the current tip. -/
def nextPosition {ε : Type} (chain : Blockchain) (parentTimestamp : DateTime) :
    Outcome ε Position := do
  let index ← chain.nextIndex
  return ⟨index, chain.latestHash, chain.randomness, parentTimestamp, chain.currentDifficulty⟩

/-- Validate a candidate for the current tip at wall-clock time `now`. -/
def validateBlockCandidate (E : Node) (chain : Blockchain) (now : DateTime) (block : Block) :
    Outcome String ChainState := do
  ensure (¬ (now.addSeconds maxTimestampSkewSeconds).before block.timestamp)
    "Block timestamp is too far in the future"
  let parentTimestamp ← okOr (chain.blocks.getLast?.map Block.timestamp) "Chain is empty"
  let place ← chain.nextPosition parentTimestamp
  (validateBlockAt E block place chain.state).mapErr BlockError.reason

/-! ## Replay -/

/-- What a replay carries from block to block. -/
structure Replay where
  state : ChainState
  randomness : String
  difficulty : UInt64

/-- Validate block after block; `seen` is the non-empty list of blocks before, ending in
`previous`. -/
def replayFrom (E : Node) (baseHeight : UInt64) (seen : List Block) (previous : Block)
    (r : Replay) : List Block → Outcome (ℕ × BlockError) Replay
  | [] => ok r
  | current :: rest => do
    let index ← plain (Word.checkedAdd baseHeight (UInt64.ofNat seen.length))
    let state ← (validateBlockAt E current
      ⟨index, previous.hash, r.randomness, previous.timestamp, r.difficulty⟩ r.state).mapErr
        fun error => (seen.length, error)
    let randomness := Vrf.nextRandomness E r.randomness (current.vrfOutput.getD "")
    let difficulty ← retarget (seen ++ [current]) index baseHeight r.difficulty
    replayFrom E baseHeight (seen ++ [current]) current ⟨state, randomness, difficulty⟩ rest

/-- Where a replay starts: the trusted checkpoint, or genesis. -/
def replaySeed (E : Env) (chain : Blockchain) (anchor : Block) :
    Outcome (ℕ × BlockError) Replay :=
  match chain.checkpoint with
  | some cp => do
    ensure (anchor.stateRoot = cp.state.stateRoot E)
      (0, structural "Anchor state root does not match checkpoint")
    return ⟨cp.state, cp.randomness, cp.difficulty⟩
  | none => do
    let g := chain.genesisState E
    ensure (g.stateRoot E = anchor.stateRoot)
      (0, structural "Genesis state root does not match network parameters")
    return ⟨g, anchor.hash, chain.difficulty⟩

/-- Validate the whole chain by replaying it. -/
def validateFull (E : Node) (chain : Blockchain) : Outcome (ℕ × BlockError) Replay := do
  let anchor ← okOr chain.blocks.head? (0, structural "Chain is empty")
  ensure (anchor.hasValidPow E ∧ anchor.hasValidMerkleRoot E)
    (0, structural "Root block failed validation")
  ensure (anchor.index = chain.baseHeight)
    (0, structural "Root block index does not match base height")
  let seed ← replaySeed E chain anchor
  replayFrom E chain.baseHeight [anchor] anchor seed chain.blocks.tail

/-- Recompute the derived state from the blocks. -/
def rebuildState (E : Node) (chain : Blockchain) : Outcome String Blockchain := do
  let r ← (validateFull E chain).mapErr fun e => "Block " ++ toString e.1 ++ ": " ++ e.2.reason
  return { chain with
    state := r.state
    randomness := r.randomness
    currentDifficulty := r.difficulty }

/-- Bootstrap a pruned chain from a trusted checkpoint and the blocks that follow. -/
def fromCheckpoint (E : Node) (difficulty : UInt64) (genesisTreasury : String)
    (genesisValidatorPublicKey genesisValidatorVrfPublicKey : Option String)
    (genesisSupply : UInt64) (genesisValidatorAllowlist : List String) (anchor : Block)
    (checkpoint : CheckpointRoot) (forwardBlocks : List Block) : Outcome String Blockchain := do
  ensure (anchor.index % retargetInterval = 0)
    "Checkpoint anchor must sit on a retarget boundary"
  ensure (anchor.stateRoot = checkpoint.state.stateRoot E)
    "Anchor state root does not match the checkpoint state"
  rebuildState E {
    blocks := anchor :: forwardBlocks
    difficulty := Pow.clampDifficulty difficulty
    finalizedHeight := anchor.index
    genesisTreasury := genesisTreasury
    genesisValidatorPublicKey := genesisValidatorPublicKey
    genesisValidatorVrfPublicKey := genesisValidatorVrfPublicKey
    genesisSupply := genesisSupply
    genesisValidatorAllowlist := genesisValidatorAllowlist
    genesisChainId := checkpoint.state.chainId
    genesisRequireHybridSignatures := checkpoint.state.requireHybridSignatures
    genesisValidatorPqPublicKey :=
      (checkpoint.state.stakers[genesisTreasury]?.map StakeInfo.pqPublicKey).filter (· ≠ "")
    state := .empty
    randomness := ""
    currentDifficulty := checkpoint.difficulty
    baseHeight := anchor.index
    checkpoint := some checkpoint }

/-! ## Serving and checkpointing -/

/-- At most `limit` blocks from height `start` on. -/
def blocksFrom (chain : Blockchain) (start : UInt64) (limit : ℕ) : List Block :=
  if start < chain.baseHeight then []
  else (chain.blocks.drop (start - chain.baseHeight).toNat).take limit

/-- The tip and the derived fields, when the tip is at a retarget boundary. -/
def exportCheckpoint (chain : Blockchain) : Outcome String (Block × CheckpointRoot) := do
  let tip ← chain.tipIndex
  ensure (¬ (tip = 0 ∨ tip % retargetInterval ≠ 0))
    ("Checkpoints can only be exported when the tip height is a positive multiple of " ++
      toString retargetInterval)
  let anchor ← okOr chain.blocks.getLast? "Chain is empty"
  return (anchor, ⟨chain.state, chain.randomness, chain.currentDifficulty⟩)

/-- A checkpoint, the blocks that follow it, and the network parameters. -/
structure CheckpointBundle where
  difficulty : UInt64
  genesisTreasury : String
  genesisValidatorPublicKey : Option String
  genesisValidatorVrfPublicKey : Option String
  genesisSupply : UInt64
  genesisValidatorAllowlist : List String
  genesisChainId : String
  anchor : Block
  checkpoint : CheckpointRoot
  forwardBlocks : List Block

/-- The checkpoint at the latest retarget boundary, and every block after it. -/
def exportBundle (E : Node) (chain : Blockchain) : Outcome String CheckpointBundle := do
  let tip ← chain.tipIndex
  let boundary := tip / retargetInterval * retargetInterval
  ensure (boundary ≠ 0) "Chain is too short to checkpoint"
  let boundaryLocal ← plain (Word.checkedSub boundary chain.baseHeight)
  let trunc ← rebuildState E { chain with
    blocks := chain.blocks.take (boundaryLocal.toNat + 1)
    finalizedHeight := chain.baseHeight }
  let (anchor, checkpoint) ← trunc.exportCheckpoint
  let forwardBlocks ← sliceFrom chain.blocks (boundaryLocal.toNat + 1)
  return {
    difficulty := chain.difficulty
    genesisTreasury := chain.genesisTreasury
    genesisValidatorPublicKey := chain.genesisValidatorPublicKey
    genesisValidatorVrfPublicKey := chain.genesisValidatorVrfPublicKey
    genesisSupply := chain.genesisSupply
    genesisValidatorAllowlist := chain.genesisValidatorAllowlist
    genesisChainId := chain.genesisChainId
    anchor := anchor
    checkpoint := checkpoint
    forwardBlocks := forwardBlocks }

/-- Reconstruct a chain from a bundle. -/
def fromBundle (E : Node) (bundle : CheckpointBundle) : Outcome String Blockchain :=
  fromCheckpoint E bundle.difficulty bundle.genesisTreasury bundle.genesisValidatorPublicKey
    bundle.genesisValidatorVrfPublicKey bundle.genesisSupply bundle.genesisValidatorAllowlist
    bundle.anchor bundle.checkpoint bundle.forwardBlocks

/-! ## Fork choice -/

/-- The candidate must repeat our blocks up to local height `finalizedLocal`. -/
def checkFinalizedPrefix (ours theirs : List Block) : List ℕ → Outcome String Unit
  | [] => ok ()
  | i :: rest => do
    let block ← plain ours[i]?
    let remote ← okOr theirs[i]? "Candidate chain rewrites finalized history"
    ensure (block.hash = remote.hash) "Candidate chain rewrites finalized history"
    checkFinalizedPrefix ours theirs rest

/-- The candidate's blocks under our network parameters and root. -/
def replayOf (chain candidate : Blockchain) : Blockchain :=
  { chain with
    blocks := candidate.blocks
    finalizedHeight := chain.baseHeight
    state := .empty
    randomness := "" }

/-- Whether our chain is kept: the candidate is lower, or ties without more work. -/
def keepsOurs (chain candidate : Blockchain) : Outcome String Bool := do
  let ourTip ← chain.tipIndex
  let theirTip ← candidate.tipIndex
  if theirTip < ourTip then return true
  if theirTip = ourTip then do
    let theirWork ← candidate.cumulativeWork
    let ourWork ← chain.cumulativeWork
    return theirWork ≤ ourWork
  else return false

/-- Adopt `candidate` if it shares our root, keeps our final blocks, wins the fork choice
and replays under our parameters.  Returns whether it was adopted, and the chain. -/
def tryAdoptChain (E : Node) (chain candidate : Blockchain) (now : DateTime) :
    Outcome String (Bool × Blockchain) := do
  let ourGenesis ← okOr chain.blocks.head? "Local chain is empty"
  let theirGenesis ← okOr candidate.blocks.head? "Candidate chain is empty"
  ensure (¬ (ourGenesis.hash ≠ theirGenesis.hash ∨ chain.baseHeight ≠ candidate.baseHeight))
    "Candidate chain has a different root"
  let finalizedLocal ← plain (Word.checkedSub chain.finalizedHeight chain.baseHeight)
  checkFinalizedPrefix chain.blocks candidate.blocks (List.range (finalizedLocal.toNat + 1))
  ensure (¬ (candidate.blocks.getLast?.any fun tip =>
      (now.addSeconds maxTimestampSkewSeconds).before tip.timestamp))
    "Candidate chain tip timestamp is too far in the future"
  let keep ← keepsOurs chain candidate
  if keep then return (false, chain)
  let replay ← (rebuildState E (replayOf chain candidate)).mapErr
    fun err => "Candidate chain failed replay: " ++ err
  return (true, { chain with
    blocks := replay.blocks
    state := replay.state
    randomness := replay.randomness
    currentDifficulty := replay.currentDifficulty })

end Blockchain
