/-
# The state machine

`blockchain/state.rs`: the balance primitives, the rules on the shared path, and the
branches of `apply_verified` for transfers, stake, vesting, rewards and native tokens.
Every branch mutates in the order of the source; an error leaves behind whatever was
written before it.

The branches that consume a nonce all have the shape of `guarded`: checks that only
read, the nonce, then the mutations.
-/
import Mathlib.Tactic
import Hikmalayer.Foundations.OrderedMap
import Hikmalayer.Model.Transaction

open Outcome Exec

/-- A computation that mutates the chain state. -/
abbrev StateAction := Exec String ChainState Unit

namespace ChainState

/-! ## Reading the state -/

/-- The value at a key, zero when there is none. -/
def valueAt (m : BTreeMap UInt64) (key : String) : UInt64 := m[key]?.getD 0

/-- The inner map at a key, empty when there is none. -/
def mapAt (m : BTreeMap (BTreeMap UInt64)) (key : String) : BTreeMap UInt64 := m[key]?.getD ∅

def balanceOf (s : ChainState) (account : String) : UInt64 := valueAt s.balances account

def nonceOf (s : ChainState) (account : String) : UInt64 := valueAt s.nonces account

def tokenBalanceOf (s : ChainState) (tokenId account : String) : UInt64 :=
  valueAt (mapAt s.tokenBalances tokenId) account

/-- LP shares held by an account in the pool of a token. -/
def lpSharesOf (s : ChainState) (tokenId account : String) : UInt64 :=
  valueAt (mapAt s.lpShares tokenId) account

/-- Total stake currently unbonding for an account. -/
def unbondingTotal (s : ChainState) (account : String) : Outcome String UInt64 :=
  plain (Word.checkedSum ((s.unbonding[account]?.getD []).map UnbondingEntry.amount))

/-- The current validator set, ordered by address. -/
def validatorSet (s : ChainState) : List Staker :=
  (s.stakers.toList.filter fun e => 0 < e.2.stake).map
    fun e => ⟨e.1, e.2.stake, some e.2.publicKey⟩

/-! ## Writing one field of the state -/

@[simps] def setBalance (s : ChainState) (account : String) (balance : UInt64) : ChainState :=
  { s with balances := s.balances.insert account balance }

@[simps] def setNonce (s : ChainState) (account : String) (nonce : UInt64) : ChainState :=
  { s with nonces := s.nonces.insert account nonce }

/-- Replace the holders of a token. -/
@[simps] def setHolders (s : ChainState) (tokenId : String) (holders : BTreeMap UInt64) :
    ChainState :=
  { s with tokenBalances := s.tokenBalances.insert tokenId holders }

/-- Replace the liquidity providers of a pool. -/
@[simps] def setProviders (s : ChainState) (tokenId : String) (providers : BTreeMap UInt64) :
    ChainState :=
  { s with lpShares := s.lpShares.insert tokenId providers }

@[simps] def setStaker (s : ChainState) (account : String) (info : StakeInfo) : ChainState :=
  { s with stakers := s.stakers.insert account info }

@[simps] def eraseStaker (s : ChainState) (account : String) : ChainState :=
  { s with stakers := s.stakers.erase account }

@[simps] def setOffense (s : ChainState) (offenseKey : String) (slashed : UInt64) : ChainState :=
  { s with slashedOffenses := s.slashedOffenses.insert offenseKey slashed }

@[simps] def setUnbonding (s : ChainState) (unbonding : BTreeMap (List UnbondingEntry)) :
    ChainState :=
  { s with unbonding }

@[simps] def setVesting (s : ChainState) (vesting : BTreeMap (List VestingEntry)) : ChainState :=
  { s with vesting }

@[simps] def setToken (s : ChainState) (tokenId : String) (info : TokenInfo) : ChainState :=
  { s with tokens := s.tokens.insert tokenId info }

@[simps] def setPool (s : ChainState) (tokenId : String) (pool : Pool) : ChainState :=
  { s with pools := s.pools.insert tokenId pool }

@[simps] def setCredential (s : ChainState) (id : String) (record : CredentialRecord) :
    ChainState :=
  { s with credentials := s.credentials.insert id record }

@[simps] def setFeePot (s : ChainState) (feePot : UInt64) : ChainState := { s with feePot }

@[simps] def setBaseFee (s : ChainState) (baseFee : UInt64) : ChainState := { s with baseFee }

/-- Write the supply counters. -/
@[simps] def setSupply (s : ChainState) (totalSupply burned : UInt64) : ChainState :=
  { s with totalSupply, burned }

/-! ## Primitives -/

def consumeNonce (account : String) (nonce : UInt64) : StateAction := update fun s => do
  let expected ← plain (Word.checkedAdd (s.nonceOf account) 1)
  ensure (nonce = expected)
    ("Invalid nonce for " ++ account ++ ": expected " ++ toString expected ++ ", got " ++
      toString nonce)
  return s.setNonce account nonce

def debit (account : String) (amount : UInt64) : StateAction := update fun s => do
  let balance := s.balanceOf account
  ensure (¬ balance < amount)
    ("Insufficient balance for " ++ account ++ ": has " ++ toString balance ++ ", needs " ++
      toString amount)
  let rest ← plain (Word.checkedSub balance amount)
  return s.setBalance account rest

/-- Credit an account, refusing to wrap. -/
def tryCredit (account : String) (amount : UInt64) : StateAction := update fun s => do
  let balance ← okOr (Word.checkedAdd (s.balanceOf account) amount)
    ("Credit to " ++ account ++ " would overflow the balance")
  return s.setBalance account balance

/-- Infallible credit: saturates. -/
def credit (E : Node) (account : String) (amount : UInt64) : StateAction := update fun s => do
  let balance ← plain (E.saturation.add (s.balanceOf account) amount)
  return s.setBalance account balance

/-- Credit token units, refusing to wrap. -/
def tryCreditToken (tokenId account : String) (amount : UInt64) : StateAction := update fun s => do
  let balance ← okOr (Word.checkedAdd (s.tokenBalanceOf tokenId account) amount)
    ("Credit of " ++ tokenId ++ " to " ++ account ++ " would overflow the balance")
  return s.setHolders tokenId ((mapAt s.tokenBalances tokenId).insert account balance)

/-- Infallible token credit: saturates. -/
def creditToken (E : Node) (tokenId account : String) (amount : UInt64) : StateAction :=
  update fun s => do
    let balance ← plain (E.saturation.add (s.tokenBalanceOf tokenId account) amount)
    return s.setHolders tokenId ((mapAt s.tokenBalances tokenId).insert account balance)

/-- Write an entry, or remove it when it is zero. -/
def writeOrRemove (m : BTreeMap UInt64) (account : String) (value : UInt64) : BTreeMap UInt64 :=
  if value = 0 then m.erase account else m.insert account value

def debitToken (tokenId account : String) (amount : UInt64) : StateAction := update fun s => do
  let balance := s.tokenBalanceOf tokenId account
  ensure (¬ balance < amount)
    ("Insufficient token balance for " ++ account ++ " in " ++ tokenId ++ ": has " ++
      toString balance ++ ", needs " ++ toString amount)
  let holders ← okOr s.tokenBalances[tokenId]? ("Unknown token " ++ tokenId)
  let entry ← plain holders[account]?
  let rest ← plain (Word.checkedSub entry amount)
  return s.setHolders tokenId (writeOrRemove holders account rest)

/-- `amount + fee`, refused rather than wrapped. -/
def totalDebit (amount fee : UInt64) : Outcome String UInt64 :=
  okOr (Word.checkedAdd amount fee) "Amount plus fee exceeds the maximum representable value"

/-- Add to the fee pot without wrapping. -/
def collectFee (E : Node) (fee : UInt64) : StateAction := update fun s => do
  let feePot ← plain (E.saturation.add s.feePot fee)
  return s.setFeePot feePot

/-- Checks that only read, then the nonce of the sender they name, then the mutations. -/
def guarded {α : Type} (checks : ChainState → Outcome String α) (sender : α → String)
    (nonce : UInt64) (effects : α → StateAction) : StateAction := do
  let a ← Exec.read checks
  consumeNonce (sender a) nonce
  effects a

/-! ## Rules on the shared path -/

/-- Refuse a transaction that names a different network. -/
def verifyChainScope (s : ChainState) (tx : Transaction) : Outcome String Unit :=
  if tx.transactionType = .reward ∨ tx.transactionType = .slash then ok ()
  else ensure (tx.chainId = s.chainId)
    ("Transaction is for network '" ++ tx.chainId ++ "', this chain is '" ++ s.chainId ++ "'")

/-- Refuse a classical sender once the network requires hybrid accounts. -/
def verifySignaturePolicy (s : ChainState) (tx : Transaction) : Outcome String Unit :=
  if ¬ s.requireHybridSignatures then ok ()
  else if tx.transactionType = .reward ∨ tx.transactionType = .slash then ok ()
  else match tx.sender with
    | none => ok ()
    | some sender =>
      ensure (Hybrid.isHybridAddress sender)
        ("This network requires quantum-ready (hkq) accounts; '" ++ sender ++ "' is classical")

/-! ## Transfer -/

def transferChecks (tx : Transaction) (_ : ChainState) : Outcome String String := do
  let sender ← okOr tx.sender "Transfer missing sender"
  ensure (isValidAddress tx.recipient)
    ("Transfer recipient '" ++ tx.recipient ++ "' is not a valid hkm address")
  return sender

def transferEffects (E : Node) (tx : Transaction) (sender : String) : StateAction := do
  let fee ← Exec.read fun s => ok s.baseFee
  let total ← Exec.read fun _ => totalDebit tx.amount fee
  debit sender total
  tryCredit tx.recipient tx.amount
  collectFee E fee

def applyTransfer (E : Node) (tx : Transaction) : StateAction :=
  guarded (transferChecks tx) id tx.nonce (transferEffects E tx)

/-! ## Stake -/

/-- What the checks of a stake hand to its mutations. -/
structure StakeRequest where
  sender : String
  publicKey : String
  vrfPublicKey : String

def stakeChecks (E : Node) (tx : Transaction) (s : ChainState) : Outcome String StakeRequest := do
  let sender ← okOr tx.sender "Stake missing sender"
  let publicKey ← okOr tx.publicKey "Stake missing public key"
  let vrfPublicKey ← okOr tx.vrfPublicKey "Stake missing VRF public key"
  ensure (¬ (¬ s.validatorAllowlist.isEmpty ∧ ¬ sender ∈ s.stakers ∧
      ¬ sender ∈ s.validatorAllowlist))
    ("Validator registration is allowlist-gated at this network's genesis; " ++ sender ++
      " is not on the allowlist")
  let current := (s.stakers[sender]?.map StakeInfo.stake).getD 0
  let resulting ← plain (E.saturation.add current tx.amount)
  ensure (¬ resulting < minValidatorStake)
    ("Stake below the validator minimum: " ++ sender ++ " would hold " ++ toString resulting ++
      ", need " ++ toString minValidatorStake)
  return ⟨sender, publicKey, vrfPublicKey⟩

/-- Change the record of a staker, starting from an empty one. -/
def updateStaker (account : String) (f : StakeInfo → StakeInfo) : StateAction := modify fun s =>
  s.setStaker account (f (s.stakers[account]?.getD .empty))

def stakeEffects (E : Node) (tx : Transaction) (r : StakeRequest) : StateAction := do
  let fee ← Exec.read fun s => ok s.baseFee
  let total ← Exec.read fun _ => totalDebit tx.amount fee
  debit r.sender total
  tryCredit stakingPoolAccount tx.amount
  collectFee E fee
  updateStaker r.sender id
  let stake ← Exec.read fun s =>
    okOr (Word.checkedAdd (s.stakers[r.sender]?.getD .empty).stake tx.amount)
      "Stake would overflow"
  updateStaker r.sender fun info =>
    { info with stake, publicKey := r.publicKey, vrfPublicKey := r.vrfPublicKey }
  let pqPublicKey ← Exec.read fun _ =>
    match Hybrid.schemeOf r.sender with
    | some .hybrid => okOr tx.pqPublicKey "Hybrid validator must register a post-quantum key"
    | _ => ok ""
  updateStaker r.sender fun info => { info with pqPublicKey }

def applyStake (E : Node) (tx : Transaction) : StateAction :=
  guarded (stakeChecks E tx) StakeRequest.sender tx.nonce (stakeEffects E tx)

/-! ## Withdraw -/

/-- What the checks of a withdrawal hand to its mutations. -/
structure WithdrawRequest where
  sender : String
  remaining : UInt64

/-- A hybrid validator unbonds under both schemes, by its registered key. -/
def checkRegisteredPqKey (E : Env) (tx : Transaction) (message registered : String) :
    Outcome String Unit :=
  if registered = "" then
    ensure (tx.pqSignature = none ∧ tx.pqPublicKey = none)
      "Classical validator must not carry post-quantum fields"
  else do
    let pqSignature ← okOr tx.pqSignature "Hybrid validator requires a post-quantum signature"
    ensure (Pq.verifyMessage E message registered pqSignature)
      "Withdraw post-quantum signature does not match registered key"

def withdrawChecks (E : Env) (tx : Transaction) (s : ChainState) :
    Outcome String WithdrawRequest := do
  let sender ← okOr tx.sender "Withdraw missing sender"
  let signature ← okOr tx.signature "Withdraw missing signature"
  let info ← okOr s.stakers[sender]? ("No stake registered for " ++ sender)
  let message := Transaction.scopedSigningMessage tx.chainId
    (Transaction.withdrawSigningMessage sender tx.amount tx.nonce)
  ensure (Pos.verifyMessage E message info.publicKey signature)
    "Withdraw signature does not match registered key"
  checkRegisteredPqKey E tx message info.pqPublicKey
  ensure (¬ info.stake < tx.amount)
    ("Insufficient stake for " ++ sender ++ ": has " ++ toString info.stake ++ ", needs " ++
      toString tx.amount)
  let remaining ← plain (Word.checkedSub info.stake tx.amount)
  ensure (¬ (remaining ≠ 0 ∧ remaining < minValidatorStake))
    ("Withdrawal would leave " ++ toString remaining ++ " below the validator minimum (" ++
      toString minValidatorStake ++ "); withdraw the full stake to exit")
  return ⟨sender, remaining⟩

/-- Overwrite the stake of a registered staker. -/
def setStake (account : String) (stake : UInt64) : StateAction := update fun s => do
  let info ← plain s.stakers[account]?
  return s.setStaker account { info with stake }

def withdrawEffects (E : Node) (tx : Transaction) (height : UInt64) (r : WithdrawRequest) :
    StateAction := do
  let fee ← Exec.read fun s => ok s.baseFee
  debit r.sender fee
  collectFee E fee
  setStake r.sender r.remaining
  let releaseHeight ← Exec.read fun _ => plain (Word.checkedAdd height unbondingBlocks)
  modify fun s => s.setUnbonding
    (s.unbonding.insert r.sender
      (s.unbonding[r.sender]?.getD [] ++ [⟨tx.amount, releaseHeight⟩]))

def applyWithdraw (E : Node) (tx : Transaction) (height : UInt64) : StateAction :=
  guarded (withdrawChecks E tx) WithdrawRequest.sender tx.nonce (withdrawEffects E tx height)

/-! ## Vest -/

/-- What the checks of a vesting hand to its mutations. -/
structure VestRequest where
  sender : String
  cliff : UInt64
  duration : UInt64

def vestChecks (tx : Transaction) (_ : ChainState) : Outcome String VestRequest := do
  let sender ← okOr tx.sender "Vest missing sender"
  let cliff ← okOr tx.vestingCliffBlocks "Vest missing cliff"
  let duration ← okOr tx.vestingDurationBlocks "Vest missing duration"
  ensure (¬ (duration = 0 ∨ duration < cliff)) "Invalid vesting schedule"
  ensure (isValidAddress tx.recipient)
    ("Vest beneficiary '" ++ tx.recipient ++ "' is not a valid hkm address")
  return ⟨sender, cliff, duration⟩

def vestEffects (E : Node) (tx : Transaction) (height : UInt64) (r : VestRequest) : StateAction := do
  let fee ← Exec.read fun s => ok s.baseFee
  let total ← Exec.read fun _ => totalDebit tx.amount fee
  debit r.sender total
  tryCredit vestingPoolAccount tx.amount
  collectFee E fee
  let cliffHeight ← Exec.read fun _ => plain (Word.checkedAdd height r.cliff)
  let endHeight ← Exec.read fun _ => plain (Word.checkedAdd height r.duration)
  modify fun s => s.setVesting
    (s.vesting.insert tx.recipient
      (s.vesting[tx.recipient]?.getD [] ++ [⟨tx.amount, 0, height, cliffHeight, endHeight⟩]))

def applyVest (E : Node) (tx : Transaction) (height : UInt64) : StateAction :=
  guarded (vestChecks tx) VestRequest.sender tx.nonce (vestEffects E tx height)

/-! ## Reward -/

def applyReward (E : Node) (tx : Transaction) : StateAction := do
  credit E tx.recipient tx.amount
  update fun s => do
    let totalSupply ← plain (E.saturation.add s.totalSupply tx.amount)
    return s.setSupply totalSupply s.burned

/-! ## Native tokens -/

/-- What the checks of a token transaction hand to its mutations. -/
structure TokenRequest where
  sender : String
  action : TokenAction
  tokenId : String

def tokenCreateChecks (E : Env) (tx : Transaction) (s : ChainState) :
    Outcome String TokenRequest := do
  let sender ← okOr tx.sender "TokenCreate missing creator"
  let action ← okOr tx.token "TokenCreate missing token action"
  let tokenId := deriveTokenId E sender action.symbol tx.nonce
  ensure (¬ tokenId ∈ s.tokens) ("Token " ++ tokenId ++ " already exists")
  return ⟨sender, action, tokenId⟩

def tokenCreateEffects (E : Node) (tx : Transaction) (height : UInt64) (r : TokenRequest) :
    StateAction := do
  let fee ← Exec.read fun s => ok s.baseFee
  debit r.sender fee
  collectFee E fee
  modify fun s => s.setToken r.tokenId
    ⟨r.tokenId, r.action.symbol, r.action.name, r.action.decimals, tx.amount, r.sender, height⟩
  tryCreditToken r.tokenId r.sender tx.amount

def applyTokenCreate (E : Node) (tx : Transaction) (height : UInt64) : StateAction :=
  guarded (tokenCreateChecks E tx) TokenRequest.sender tx.nonce (tokenCreateEffects E tx height)

def tokenTransferChecks (tx : Transaction) (s : ChainState) : Outcome String TokenRequest := do
  let sender ← okOr tx.sender "TokenTransfer missing sender"
  let action ← okOr tx.token "TokenTransfer missing token action"
  ensure (action.tokenId ∈ s.tokens) ("Unknown token " ++ action.tokenId)
  ensure (isValidAddress tx.recipient)
    ("TokenTransfer recipient '" ++ tx.recipient ++ "' is not a valid hkm address")
  return ⟨sender, action, action.tokenId⟩

def tokenTransferEffects (E : Node) (tx : Transaction) (r : TokenRequest) : StateAction := do
  let fee ← Exec.read fun s => ok s.baseFee
  debit r.sender fee
  collectFee E fee
  debitToken r.tokenId r.sender tx.amount
  tryCreditToken r.tokenId tx.recipient tx.amount

def applyTokenTransfer (E : Node) (tx : Transaction) : StateAction :=
  guarded (tokenTransferChecks tx) TokenRequest.sender tx.nonce (tokenTransferEffects E tx)

def tokenBurnChecks (tx : Transaction) (s : ChainState) : Outcome String TokenRequest := do
  let sender ← okOr tx.sender "TokenBurn missing sender"
  let action ← okOr tx.token "TokenBurn missing token action"
  ensure (action.tokenId ∈ s.tokens) ("Unknown token " ++ action.tokenId)
  return ⟨sender, action, action.tokenId⟩

def tokenBurnEffects (E : Node) (tx : Transaction) (r : TokenRequest) : StateAction := do
  let fee ← Exec.read fun s => ok s.baseFee
  debit r.sender fee
  collectFee E fee
  debitToken r.tokenId r.sender tx.amount
  update fun s => do
    match s.tokens[r.tokenId]? with
    | some info =>
      let totalSupply ← plain (E.saturation.sub info.totalSupply tx.amount)
      return s.setToken r.tokenId { info with totalSupply }
    | none => return s

def applyTokenBurn (E : Node) (tx : Transaction) : StateAction :=
  guarded (tokenBurnChecks tx) TokenRequest.sender tx.nonce (tokenBurnEffects E tx)

end ChainState
