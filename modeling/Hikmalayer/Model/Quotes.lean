/-
# Quotes

The swap quote of the node and the liquidity quotes of the clients.  The node's quote repeats the
product rule of the swap without its checks.  The JavaScript SDK and the dashboard repeat the
rules of `AddLiquidity` and `RemoveLiquidity` on integers without a bound; the Python SDK has a
rule of its own.  Amounts and pools are taken as the integers that the clients convert them to.
-/
import Mathlib.Tactic
import Hikmalayer.Model.Amm

open Outcome

/-! ## The node -/

namespace ChainState

structure SwapQuoteResponse where
  tokenId : String
  hkmToToken : Bool
  amountIn : UInt64
  amountOut : UInt64
  reserveHkm : UInt64
  reserveToken : UInt64

/-- The output of the quote: `swapOutput` with bare operators, which abort on overflow. -/
def quoteOutput (reserveIn reserveOut amountIn : UInt64) : Outcome String UInt64 := do
  let feeNum ← plain (Word.checkedSub ammFeeDenom swapFeeBps)
  let amountInWithFee ← plain (Word.wideMul amountIn.toNat feeNum.toNat)
  let numerator ← plain (Word.wideMul amountInWithFee reserveOut.toNat)
  let scaled ← plain (Word.wideMul reserveIn.toNat ammFeeDenom.toNat)
  let denominator ← plain (Word.wideAdd scaled amountInWithFee)
  let quotient ← plain (Word.wideDiv numerator denominator)
  return UInt64.ofNat quotient

/-- `swap_quote`, with the direction as it stands in the path. -/
def swapQuote (s : ChainState) (tokenId direction : String) (amountIn : UInt64) :
    Outcome String (Option SwapQuoteResponse) :=
  match s.pools[tokenId]? with
  | none => ok none
  | some pool =>
    if pool.reserveHkm = 0 ∨ pool.reserveToken = 0 ∨ amountIn = 0 then ok none
    else do
      let hkmToToken := decide (direction = "hkm_to_token" ∨ direction = "buy")
      let reserveIn := if hkmToToken then pool.reserveHkm else pool.reserveToken
      let reserveOut := if hkmToToken then pool.reserveToken else pool.reserveHkm
      let amountOut ← quoteOutput reserveIn reserveOut amountIn
      return some ⟨tokenId, hkmToToken, amountIn, amountOut, pool.reserveHkm, pool.reserveToken⟩

end ChainState

/-! ## The clients -/

/-- Newton's loop on integers without a bound. -/
def newtonRoot (n x y : ℕ) : ℕ :=
  if h : y < x then newtonRoot n y ((y + n / y) / 2) else x
termination_by x

/-- The square root of the clients: `isqrt`, the same in all three. -/
def clientIsqrt (n : ℕ) : ℕ := if n < 2 then n else newtonRoot n n ((n + 1) / 2)

/-- `isqrt` of the JavaScript SDK. -/
def Sdk.isqrt (value : ℤ) : Outcome String ℕ :=
  if value < 0 then err "isqrt of a negative number" else ok (clientIsqrt value.toNat)

/-- `isqrt` of the Python SDK. -/
def PythonSdk.isqrt (n : ℤ) : Outcome String ℕ :=
  if n < 0 then err "isqrt of a negative number" else ok (clientIsqrt n.toNat)

/-- What the JavaScript clients show for an addition. -/
structure LiquidityQuote where
  first : Bool
  useHkm : ℕ
  useToken : ℕ
  minted : ℕ
  deriving DecidableEq, Repr

/-- What a client shows for a removal. -/
structure RemovalQuote where
  amountHkm : ℕ
  amountToken : ℕ
  deriving DecidableEq, Repr

/-- The rule that `client.js` and `hts.js` share; a missing pool reads as zeros. -/
def javascriptAddQuote (pool : Option Pool) (amountHkm amountToken : ℕ) : Option LiquidityQuote :=
  if amountHkm = 0 ∨ amountToken = 0 then none
  else
    let rh := (pool.map Pool.reserveHkm).elim 0 UInt64.toNat
    let rt := (pool.map Pool.reserveToken).elim 0 UInt64.toNat
    let total := (pool.map Pool.totalShares).elim 0 UInt64.toNat
    if rh = 0 ∨ rt = 0 ∨ total = 0 then
      let shares := clientIsqrt (amountHkm * amountToken)
      if shares ≤ minimumLiquidity.toNat then none
      else some ⟨true, amountHkm, amountToken, shares - minimumLiquidity.toNat⟩
    else
      let tokenOptimal := amountHkm * rt / rh
      let useHkm := if tokenOptimal ≤ amountToken then amountHkm else amountToken * rh / rt
      let useToken := if tokenOptimal ≤ amountToken then tokenOptimal else amountToken
      if useHkm = 0 ∨ useToken = 0 then none
      else
        let fromHkm := useHkm * total / rh
        let fromToken := useToken * total / rt
        let minted := if fromHkm < fromToken then fromHkm else fromToken
        if minted = 0 then none else some ⟨false, useHkm, useToken, minted⟩

def javascriptRemoveQuote (pool : Option Pool) (shares : ℕ) : Option RemovalQuote :=
  let rh := (pool.map Pool.reserveHkm).elim 0 UInt64.toNat
  let rt := (pool.map Pool.reserveToken).elim 0 UInt64.toNat
  let total := (pool.map Pool.totalShares).elim 0 UInt64.toNat
  if shares = 0 ∨ total = 0 ∨ rh = 0 ∨ rt = 0 then none
  else
    let amountHkm := shares * rh / total
    let amountToken := shares * rt / total
    if amountHkm = 0 ∨ amountToken = 0 then none else some ⟨amountHkm, amountToken⟩

namespace Sdk

def quoteAddLiquidity := javascriptAddQuote

def quoteRemoveLiquidity := javascriptRemoveQuote

end Sdk

namespace Dashboard

def quoteAddLiquidity := javascriptAddQuote

def quoteRemoveLiquidity := javascriptRemoveQuote

end Dashboard

namespace PythonSdk

/-- What `quote_add_liquidity` returns. -/
structure AddPrediction where
  minted : ℕ
  usedHkm : ℕ
  usedToken : ℕ
  deriving DecidableEq, Repr

/-- The scarcer side decides the shares, and the shares decide what is used. -/
def quoteAddLiquidity (pool : Option Pool) (hkm token : ℕ) : AddPrediction :=
  match pool with
  | none => ⟨clientIsqrt (hkm * token) - minimumLiquidity.toNat, hkm, token⟩
  | some pool =>
    if pool.totalShares.toNat = 0 then
      ⟨clientIsqrt (hkm * token) - minimumLiquidity.toNat, hkm, token⟩
    else
      let byHkm := hkm * pool.totalShares.toNat / pool.reserveHkm.toNat
      let byToken := token * pool.totalShares.toNat / pool.reserveToken.toNat
      let minted := min byHkm byToken
      ⟨minted, minted * pool.reserveHkm.toNat / pool.totalShares.toNat,
        minted * pool.reserveToken.toNat / pool.totalShares.toNat⟩

def quoteRemoveLiquidity (pool : Pool) (shares : ℕ) : RemovalQuote :=
  if pool.totalShares.toNat = 0 then ⟨0, 0⟩
  else ⟨shares * pool.reserveHkm.toNat / pool.totalShares.toNat,
    shares * pool.reserveToken.toNat / pool.totalShares.toNat⟩

end PythonSdk
