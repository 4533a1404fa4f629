/-
# The automated market maker

The `AddLiquidity`, `RemoveLiquidity` and `Swap` branches of `apply_verified`.
Products and quotients are 128-bit values; a cast back to 64 bits truncates.
-/
import Mathlib.Tactic
import Hikmalayer.Model.State

open Outcome Exec

/-! ## Integer square root -/

/-- Newton's iteration of `isqrt_u128`, from an upper estimate `x` and the next one `y`. -/
def isqrtLoop (n x y : ℕ) : Outcome String ℕ :=
  if h : y < x then do
    let quotient ← plain (Word.wideDiv n y)
    let sum ← plain (Word.wideAdd y quotient)
    isqrtLoop n y (sum / 2)
  else ok x
termination_by x

/-- Integer square root of a 128-bit value. -/
def isqrtU128 (n : ℕ) : Outcome String ℕ :=
  if n < 2 then ok n else isqrtLoop n n ((n + 1) / 2)

namespace ChainState

/-! ## Adding liquidity -/

/-- What an addition uses of the two sides, and the shares it mints. -/
structure AddQuote where
  useHkm : UInt64
  useToken : UInt64
  minted : UInt64
  first : Bool

/-- The first provider sets the price and mints the root of the product. -/
def firstQuote (action : AmmAction) : Outcome String AddQuote := do
  let shares ← isqrtU128 (Word.wideSaturatingMul action.amountHkm.toNat action.amountToken.toNat)
  ensure (¬ shares ≤ minimumLiquidity.toNat) "Initial liquidity is below the minimum"
  return ⟨action.amountHkm, action.amountToken, UInt64.ofNat (shares - minimumLiquidity.toNat),
    true⟩

/-- The amounts that preserve the pool ratio: whichever side binds. -/
def ratioAmounts (pool : Pool) (action : AmmAction) : Outcome String (UInt64 × UInt64) := do
  let tokenOptimal ← plain (Word.mulDiv action.amountHkm pool.reserveToken pool.reserveHkm)
  if UInt64.ofNat tokenOptimal ≤ action.amountToken then
    return (action.amountHkm, UInt64.ofNat tokenOptimal)
  else do
    let hkmOptimal ← plain (Word.mulDiv action.amountToken pool.reserveHkm pool.reserveToken)
    return (UInt64.ofNat hkmOptimal, action.amountToken)

/-- Later providers keep the ratio and mint in proportion. -/
def laterQuote (pool : Pool) (action : AmmAction) : Outcome String AddQuote := do
  let (useHkm, useToken) ← ratioAmounts pool action
  ensure (¬ (useHkm = 0 ∨ useToken = 0)) "AddLiquidity amounts round to zero"
  let sharesHkm ← plain (Word.mulDiv useHkm pool.totalShares pool.reserveHkm)
  let sharesToken ← plain (Word.mulDiv useToken pool.totalShares pool.reserveToken)
  return ⟨useHkm, useToken, UInt64.ofNat (min sharesHkm sharesToken), false⟩

def addQuote (existing : Pool) (action : AmmAction) : Outcome String AddQuote :=
  if existing.totalShares = 0 then firstQuote action else laterQuote existing action

/-- What the checks of an addition hand to its mutations. -/
structure AddRequest where
  sender : String
  tokenId : String
  quote : AddQuote

def addLiquidityChecks (tx : Transaction) (s : ChainState) : Outcome String AddRequest := do
  let sender ← okOr tx.sender "AddLiquidity missing sender"
  let action ← okOr tx.amm "AddLiquidity missing amm action"
  ensure (action.tokenId ∈ s.tokens) ("Unknown token " ++ action.tokenId)
  let quote ← addQuote (s.pools[action.tokenId]?.getD .empty) action
  ensure (¬ (quote.minted = 0 ∨ quote.minted < action.minShares))
    ("AddLiquidity slippage: " ++ toString quote.minted ++ " shares minted, " ++
      toString action.minShares ++ " required")
  return ⟨sender, action.tokenId, quote⟩

/-- The shares an addition adds to the pool: the first one also locks the minimum. -/
def mintedTotal (quote : AddQuote) : Outcome String UInt64 :=
  if quote.first then
    okOr (Word.checkedAdd quote.minted minimumLiquidity) "LP shares would overflow"
  else ok quote.minted

/-- The pool of a token, or an empty one under its id. -/
def poolOrNew (s : ChainState) (tokenId : String) : Pool :=
  s.pools[tokenId]?.getD { Pool.empty with tokenId }

def addLiquidityEffects (E : Node) (r : AddRequest) : StateAction := do
  let fee ← Exec.read fun s => ok s.baseFee
  let total ← Exec.read fun _ => totalDebit r.quote.useHkm fee
  debit r.sender total
  collectFee E fee
  tryCredit ammPoolAccount r.quote.useHkm
  debitToken r.tokenId r.sender r.quote.useToken
  tryCreditToken r.tokenId ammPoolAccount r.quote.useToken
  modify fun s => s.setPool r.tokenId (s.poolOrNew r.tokenId)
  update fun s => do
    let pool := s.poolOrNew r.tokenId
    let mintedTotal ← mintedTotal r.quote
    let reserveHkm ← okOr (Word.checkedAdd pool.reserveHkm r.quote.useHkm)
      "Pool HKM reserve would overflow"
    let reserveToken ← okOr (Word.checkedAdd pool.reserveToken r.quote.useToken)
      "Pool token reserve would overflow"
    let totalShares ← okOr (Word.checkedAdd pool.totalShares mintedTotal)
      "Pool LP shares would overflow"
    return s.setPool r.tokenId { pool with reserveHkm, reserveToken, totalShares }
  update fun s => do
    let holding ← okOr (Word.checkedAdd (s.lpSharesOf r.tokenId r.sender) r.quote.minted)
      "LP position would overflow"
    return s.setProviders r.tokenId ((mapAt s.lpShares r.tokenId).insert r.sender holding)

def applyAddLiquidity (E : Node) (tx : Transaction) : StateAction :=
  guarded (addLiquidityChecks tx) AddRequest.sender tx.nonce (addLiquidityEffects E)

/-! ## Removing liquidity -/

/-- What the checks of a removal hand to its mutations. -/
structure RemoveRequest where
  sender : String
  tokenId : String
  shares : UInt64
  amountHkm : UInt64
  amountToken : UInt64

def removeLiquidityChecks (tx : Transaction) (s : ChainState) : Outcome String RemoveRequest := do
  let sender ← okOr tx.sender "RemoveLiquidity missing sender"
  let action ← okOr tx.amm "RemoveLiquidity missing amm action"
  let pool ← okOr s.pools[action.tokenId]? ("No pool for " ++ action.tokenId)
  let held := s.lpSharesOf action.tokenId sender
  ensure (¬ held < action.shares)
    ("Insufficient LP shares: has " ++ toString held ++ ", needs " ++ toString action.shares)
  let hkm ← plain (Word.mulDiv action.shares pool.reserveHkm pool.totalShares)
  let token ← plain (Word.mulDiv action.shares pool.reserveToken pool.totalShares)
  let amountHkm := UInt64.ofNat hkm
  let amountToken := UInt64.ofNat token
  ensure (¬ (amountHkm = 0 ∨ amountToken = 0)) "RemoveLiquidity amounts round to zero"
  ensure (¬ (amountHkm < action.minHkm ∨ amountToken < action.minToken))
    "RemoveLiquidity slippage bound not met"
  return ⟨sender, action.tokenId, action.shares, amountHkm, amountToken⟩

/-- Take shares from a provider that holds them. -/
def burnShares (tokenId account : String) (shares : UInt64) : StateAction := update fun s => do
  let providers ← plain s.lpShares[tokenId]?
  let entry ← plain providers[account]?
  let rest ← plain (Word.checkedSub entry shares)
  return s.setProviders tokenId (writeOrRemove providers account rest)

def removeLiquidityEffects (E : Node) (r : RemoveRequest) : StateAction := do
  let fee ← Exec.read fun s => ok s.baseFee
  debit r.sender fee
  collectFee E fee
  burnShares r.tokenId r.sender r.shares
  debit ammPoolAccount r.amountHkm
  credit E r.sender r.amountHkm
  debitToken r.tokenId ammPoolAccount r.amountToken
  creditToken E r.tokenId r.sender r.amountToken
  update fun s => do
    let pool ← plain s.pools[r.tokenId]?
    let reserveHkm ← plain (Word.checkedSub pool.reserveHkm r.amountHkm)
    let reserveToken ← plain (Word.checkedSub pool.reserveToken r.amountToken)
    let totalShares ← plain (Word.checkedSub pool.totalShares r.shares)
    return s.setPool r.tokenId { pool with reserveHkm, reserveToken, totalShares }

def applyRemoveLiquidity (E : Node) (tx : Transaction) : StateAction :=
  guarded (removeLiquidityChecks tx) RemoveRequest.sender tx.nonce (removeLiquidityEffects E)

/-! ## Swapping -/

/-- What the checks of a swap hand to its mutations. -/
structure SwapRequest where
  sender : String
  tokenId : String
  hkmToToken : Bool
  amountIn : UInt64
  amountOut : UInt64

/-- Constant-product output with the fee kept in the pool. -/
def swapOutput (reserveIn reserveOut amountIn : UInt64) : Outcome String UInt64 := do
  let feeNum ← plain (Word.checkedSub ammFeeDenom swapFeeBps)
  let amountInWithFee ← okOr (Word.wideMul amountIn.toNat feeNum.toNat) "Swap amount too large"
  let numerator ← okOr (Word.wideMul amountInWithFee reserveOut.toNat) "Swap amount too large"
  let scaled ← okOr (Word.wideMul reserveIn.toNat ammFeeDenom.toNat) "Pool reserve too large"
  let denominator ← plain (Word.wideAdd scaled amountInWithFee)
  let quotient ← plain (Word.wideDiv numerator denominator)
  return UInt64.ofNat quotient

def swapChecks (tx : Transaction) (s : ChainState) : Outcome String SwapRequest := do
  let sender ← okOr tx.sender "Swap missing sender"
  let action ← okOr tx.amm "Swap missing amm action"
  let pool ← okOr s.pools[action.tokenId]? ("No pool for " ++ action.tokenId)
  ensure (¬ (pool.reserveHkm = 0 ∨ pool.reserveToken = 0)) "Pool has no liquidity"
  let reserveIn := if action.hkmToToken then pool.reserveHkm else pool.reserveToken
  let reserveOut := if action.hkmToToken then pool.reserveToken else pool.reserveHkm
  let amountOut ← swapOutput reserveIn reserveOut action.amountIn
  ensure (¬ (amountOut = 0 ∨ reserveOut ≤ amountOut))
    "Swap produces no output or drains the pool"
  ensure (¬ amountOut < action.minOut)
    ("Swap slippage: " ++ toString amountOut ++ " out, " ++ toString action.minOut ++ " required")
  return ⟨sender, action.tokenId, action.hkmToToken, action.amountIn, amountOut⟩

def swapHkmToToken (E : Node) (r : SwapRequest) : StateAction := do
  let fee ← Exec.read fun s => ok s.baseFee
  let total ← Exec.read fun _ => totalDebit r.amountIn fee
  debit r.sender total
  collectFee E fee
  tryCredit ammPoolAccount r.amountIn
  debitToken r.tokenId ammPoolAccount r.amountOut
  creditToken E r.tokenId r.sender r.amountOut
  update fun s => do
    let pool ← plain s.pools[r.tokenId]?
    let reserveHkm ← okOr (Word.checkedAdd pool.reserveHkm r.amountIn)
      "Pool HKM reserve would overflow"
    let reserveToken ← plain (Word.checkedSub pool.reserveToken r.amountOut)
    return s.setPool r.tokenId { pool with reserveHkm, reserveToken }

def swapTokenToHkm (E : Node) (r : SwapRequest) : StateAction := do
  let fee ← Exec.read fun s => ok s.baseFee
  debit r.sender fee
  collectFee E fee
  debitToken r.tokenId r.sender r.amountIn
  tryCreditToken r.tokenId ammPoolAccount r.amountIn
  debit ammPoolAccount r.amountOut
  credit E r.sender r.amountOut
  update fun s => do
    let pool ← plain s.pools[r.tokenId]?
    let reserveToken ← okOr (Word.checkedAdd pool.reserveToken r.amountIn)
      "Pool token reserve would overflow"
    let reserveHkm ← plain (Word.checkedSub pool.reserveHkm r.amountOut)
    return s.setPool r.tokenId { pool with reserveHkm, reserveToken }

def swapEffects (E : Node) (r : SwapRequest) : StateAction :=
  if r.hkmToToken then swapHkmToToken E r else swapTokenToHkm E r

def applySwap (E : Node) (tx : Transaction) : StateAction :=
  guarded (swapChecks tx) SwapRequest.sender tx.nonce (swapEffects E)

end ChainState
