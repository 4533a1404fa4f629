/-
# Applying a transaction, closing a block, genesis

The `Certificate` and `Slash` branches, the dispatch of `apply_verified` and
`apply_transaction`, the housekeeping of `end_block`, and the genesis state with the
rule that seats a hybrid genesis validator (`blockchain/chain.rs`).
-/
import Mathlib.Tactic
import Hikmalayer.Model.Amm

open Outcome Exec

namespace ChainState

/-! ## Credentials -/

def certificateChecks (tx : Transaction) (_ : ChainState) : Outcome String String :=
  okOr tx.sender "Credential action missing issuer"

def certificateEffects (tx : Transaction) (action : CredentialAction) (issuer : String) : StateAction :=
  update fun s =>
    if action.revoke then do
      let record ← okOr s.credentials[action.id]? ("Credential " ++ action.id ++ " not found")
      ensure (record.issuer = issuer) "Only the issuer can revoke a credential"
      return s.setCredential action.id { record with revoked := true }
    else do
      ensure (¬ action.id ∈ s.credentials) ("Credential " ++ action.id ++ " already exists")
      return s.setCredential action.id
        ⟨issuer, action.subject, action.dataHash, tx.timestamp.toRfc3339, false⟩

/-- Anchor transactions without a credential change nothing. -/
def applyCertificate (tx : Transaction) : StateAction :=
  match tx.credential with
  | none => pure ()
  | some action => guarded (certificateChecks tx) id tx.nonce (certificateEffects tx action)

/-! ## Slashing -/

/-- What the checks of a slash hand to its mutations. -/
structure SlashRequest where
  offenseKey : String
  stake : UInt64
  slashed : UInt64

def slashChecks (tx : Transaction) (height : UInt64) (s : ChainState) :
    Outcome String SlashRequest := do
  let proof ← okOr tx.slashProof "Slash missing proof"
  let validator := tx.recipient
  let deadline ← plain (Word.checkedAdd proof.blockA.index slashingWindowBlocks)
  ensure (¬ deadline < height) "Equivocation proof outside the slashing window"
  let info ← okOr s.stakers[validator]? ("No stake registered for " ++ validator)
  ensure (proof.blockA.validatorPublicKey.getD "" = info.publicKey)
    "Slash proof key does not match registered key"
  let offenseKey := validator ++ ":" ++ toString proof.blockA.index
  ensure (¬ offenseKey ∈ s.slashedOffenses) "Offense already slashed"
  let unbonding ← s.unbondingTotal validator
  let base ← plain (Word.checkedAdd info.stake unbonding)
  let slashed := Word.saturatingMul base slashPercent / 100
  ensure (slashed ≠ 0) "Nothing to slash"
  return ⟨offenseKey, info.stake, slashed⟩

/-- Take `remaining` from the entries, oldest first, until nothing remains. -/
def takeFromEntries (remaining : UInt64) :
    List UnbondingEntry → Outcome String (List UnbondingEntry)
  | [] => ok []
  | entry :: rest => do
    let take := min remaining entry.amount
    let amount ← plain (Word.checkedSub entry.amount take)
    let remaining ← plain (Word.checkedSub remaining take)
    if remaining = 0 then return { entry with amount } :: rest
    let rest ← takeFromEntries remaining rest
    return { entry with amount } :: rest

/-- The unbonding map with one account's entries replaced; no entries, no key. -/
def writeEntries {β : Type} (m : BTreeMap (List β)) (account : String) (entries : List β) :
    BTreeMap (List β) :=
  if entries.isEmpty then m.erase account else m.insert account entries

/-- Take `remaining` from the unbonding entries of a validator. -/
def slashUnbonding (validator : String) (remaining : UInt64) : StateAction := update fun s =>
  if remaining = 0 then ok s
  else match s.unbonding[validator]? with
    | none => ok s
    | some entries => do
      let entries ← takeFromEntries remaining entries
      return s.setUnbonding
        (writeEntries s.unbonding validator (entries.filter fun e => 0 < e.amount))

def slashEffects (E : Node) (validator : String) (r : SlashRequest) : StateAction := do
  debit stakingPoolAccount r.slashed
  update fun s => do
    let burned ← plain (E.saturation.add s.burned r.slashed)
    let totalSupply ← plain (E.saturation.sub s.totalSupply r.slashed)
    return s.setSupply totalSupply burned
  let takeBonded := min r.slashed r.stake
  let stake ← Exec.read fun _ => plain (Word.checkedSub r.stake takeBonded)
  setStake validator stake
  let remaining ← Exec.read fun _ => plain (Word.checkedSub r.slashed takeBonded)
  slashUnbonding validator remaining
  modify fun s => s.setOffense r.offenseKey r.slashed

def applySlash (E : Node) (tx : Transaction) (height : UInt64) : StateAction := do
  let r ← Exec.read (slashChecks tx height)
  slashEffects E tx.recipient r

/-! ## Dispatch -/

/-- The branch of a transaction type. -/
def applyBranch (E : Node) (tx : Transaction) (height : UInt64) : StateAction :=
  match tx.transactionType with
  | .transfer => applyTransfer E tx
  | .stake => applyStake E tx
  | .withdraw => applyWithdraw E tx height
  | .vest => applyVest E tx height
  | .reward => applyReward E tx
  | .tokenCreate => applyTokenCreate E tx height
  | .tokenTransfer => applyTokenTransfer E tx
  | .tokenBurn => applyTokenBurn E tx
  | .addLiquidity => applyAddLiquidity E tx
  | .removeLiquidity => applyRemoveLiquidity E tx
  | .swap => applySwap E tx
  | .certificate => applyCertificate tx
  | .slash => applySlash E tx height

/-- Apply a transaction whose authorization has been verified. -/
def applyVerified (E : Node) (tx : Transaction) (height : UInt64) : StateAction := do
  Exec.read fun s => s.verifyChainScope tx
  Exec.read fun s => s.verifySignaturePolicy tx
  applyBranch E tx height

/-- Apply one transaction, verifying its authorization first. -/
def applyTransaction (E : Node) (tx : Transaction) (height : UInt64) : StateAction := do
  Exec.read fun _ => tx.verifyAuthorization E
  applyVerified E tx height

end ChainState

/-! ## Closing a block -/

namespace VestingEntry

/-- Amount vested at `height`: linear between start and end, gated by the cliff. -/
def vestedAt (e : VestingEntry) (height : UInt64) : Outcome String UInt64 :=
  if height < e.cliffHeight then ok 0
  else if e.endHeight ≤ height then ok e.total
  else do
    let elapsed ← plain (Word.checkedSub height e.startHeight)
    let span ← plain (Word.checkedSub e.endHeight e.startHeight)
    let vested ← plain (Word.mulDiv e.total elapsed span)
    return UInt64.ofNat vested

/-- What the entry newly releases at `height`, and the entry after it. -/
def accrue (e : VestingEntry) (height : UInt64) : Outcome String (UInt64 × VestingEntry) := do
  let vested ← e.vestedAt height
  if e.released < vested then do
    let fresh ← plain (Word.checkedSub vested e.released)
    return (fresh, { e with released := vested })
  else return (0, e)

/-- Accrue every entry, adding up what is newly released. -/
def accrueAll (height : UInt64) (acc : UInt64) :
    List VestingEntry → Outcome String (UInt64 × List VestingEntry)
  | [] => ok (acc, [])
  | e :: rest => do
    let (fresh, e) ← e.accrue height
    let acc ← plain (Word.checkedAdd acc fresh)
    let (total, rest) ← accrueAll height acc rest
    return (total, e :: rest)

end VestingEntry

/-- The base fee of the next block, from the number of fee-paying transactions. -/
def nextBaseFee (E : Node) (current feePayingTxs : UInt64) : Outcome String UInt64 := do
  let clamp (fee : UInt64) : UInt64 := max txFee (min fee baseFeeMax)
  let target := baseFeeTargetTxs
  let maxStep := max (current / 8) 1
  if feePayingTxs = target then
    return clamp current
  else if target < feePayingTxs then do
    let distance ← plain (Word.checkedSub feePayingTxs target)
    let step := max (Word.saturatingMul maxStep distance / target) 1
    let next ← plain (E.saturation.add current step)
    return clamp next
  else do
    let distance ← plain (Word.checkedSub target feePayingTxs)
    let step := max (Word.saturatingMul maxStep distance / target) 1
    let next ← plain (E.saturation.sub current step)
    return clamp next

namespace ChainState

/-- Pay out of a reserve account; a failing debit is ignored. -/
def payOut (E : Node) (reserve account : String) (amount : UInt64) : StateAction :=
  if 0 < amount then do
    attempt (debit reserve amount)
    credit E account amount
  else pure ()

/-- Take the matured unbonding entries of an account out of its list. -/
def takeMatured (height : UInt64) (account : String) (s : ChainState) :
    Outcome String (UInt64 × ChainState) :=
  match s.unbonding[account]? with
  | none => ok (0, s)
  | some entries => do
    let released ← plain
      (Word.checkedSum ((entries.filter fun e => e.releaseHeight ≤ height).map (·.amount)))
    return (released, s.setUnbonding
      (writeEntries s.unbonding account (entries.filter fun e => ¬ e.releaseHeight ≤ height)))

/-- Release matured unbonding stake of one account; a fully exited validator leaves. -/
def releaseUnbonding (E : Node) (height : UInt64) (account : String) : StateAction := do
  let released ← Exec.readWrite (takeMatured height account)
  payOut E stakingPoolAccount account released
  modify fun s =>
    if (s.stakers[account]?.any fun i => i.stake = 0) ∧ ¬ account ∈ s.unbonding then
      s.eraseStaker account
    else s

/-- Accrue the vesting entries of a recipient; completed ones drop out. -/
def takeVested (height : UInt64) (recipient : String) (s : ChainState) :
    Outcome String (UInt64 × ChainState) :=
  match s.vesting[recipient]? with
  | none => ok (0, s)
  | some entries => do
    let (released, entries) ← VestingEntry.accrueAll height 0 entries
    return (released, s.setVesting
      (writeEntries s.vesting recipient (entries.filter fun e => e.released < e.total)))

/-- Release newly vested tokens of one recipient. -/
def releaseVesting (E : Node) (height : UInt64) (recipient : String) : StateAction := do
  let released ← Exec.readWrite (takeVested height recipient)
  payOut E vestingPoolAccount recipient released

/-- Set the next base fee and pay the block's fees to its validator. -/
def settleFees (E : Node) (validator : String) : StateAction := do
  update fun s => do
    let feePayingTxs := if 0 < s.baseFee then s.feePot / s.baseFee else 0
    let baseFee ← nextBaseFee E s.baseFee feePayingTxs
    return s.setBaseFee baseFee
  let fees ← Exec.read fun s => ok s.feePot
  if 0 < fees then do
    modify fun s => s.setFeePot 0
    credit E validator fees
  else pure ()

/-- Block-boundary housekeeping. -/
def endBlock (E : Node) (height : UInt64) (validator : String) : StateAction := do
  let accounts ← Exec.read fun s => ok s.unbonding.keys
  forEach (releaseUnbonding E height) accounts
  let recipients ← Exec.read fun s => ok s.vesting.keys
  forEach (releaseVesting E height) recipients
  settleFees E validator

/-! ## Genesis -/

/-- Register the treasury as the genesis validator.  The stake is at most the treasury's
balance, so neither side of the move can wrap. -/
def bondTreasury (s : ChainState) (treasury publicKey : String) (vrfPublicKey : Option String)
    (initialSupply : UInt64) : ChainState :=
  let stake := min genesisValidatorStake initialSupply
  let balances := s.balances.insert treasury (s.balanceOf treasury - stake)
  { s with
    balances := balances.insert stakingPoolAccount
      (balances[stakingPoolAccount]?.getD 0 + stake)
    stakers := s.stakers.insert treasury ⟨stake, publicKey, vrfPublicKey.getD "", ""⟩ }

/-- Genesis for a named network: the whole supply goes to the treasury, which becomes the
genesis validator when its key is known. -/
def genesisForChain (chainId treasury : String) (treasuryPublicKey treasuryVrfPublicKey :
    Option String) (initialSupply : UInt64) (validatorAllowlist : List String) : ChainState :=
  let s := { ChainState.empty with
    totalSupply := initialSupply
    baseFee := txFee
    validatorAllowlist := Std.ExtTreeMap.ofList (validatorAllowlist.map fun a => (a, ()))
    chainId := chainId
    balances := (∅ : BTreeMap UInt64).insert treasury initialSupply }
  match treasuryPublicKey with
  | some publicKey => s.bondTreasury treasury publicKey treasuryVrfPublicKey initialSupply
  | none => s

/-- Take the treasury out of the validator set and return its stake.  The stake comes out
of the pool it went into, so the credit cannot wrap. -/
def unseat (s : ChainState) (treasury : String) (info : StakeInfo) : ChainState :=
  let s := s.eraseStaker treasury
  if 0 < info.stake then
    let balances := match s.balances[stakingPoolAccount]? with
      | some pool => s.balances.insert stakingPoolAccount (Word.saturatingSub pool info.stake)
      | none => s.balances
    { s with balances := balances.insert treasury (balances[treasury]?.getD 0 + info.stake) }
  else s

/-- Whether the supplied key completes the hybrid identity of the treasury. -/
def completesTreasury (E : Env) (treasury classicalKey : String) : Option String → Bool
  | some pq => Hybrid.deriveHybridAddress E classicalKey pq = ok treasury
  | none => false

/-- Complete, or refuse, a hybrid genesis validator. -/
def seatGenesisValidatorPqKey (E : Env) (s : ChainState) (treasury : String)
    (pqPublicKey : Option String) : ChainState :=
  if ¬ Hybrid.isHybridAddress treasury then s
  else match s.stakers[treasury]? with
    | none => s
    | some info =>
      if completesTreasury E treasury info.publicKey pqPublicKey then
        s.setStaker treasury { info with pqPublicKey := pqPublicKey.getD "" }
      else s.unseat treasury info

end ChainState
