/-
# Trading against a pool

Swaps of any accounts, in any order and with anything in between that leaves the pool alone.  They
move the reserves by just what was brought and paid, never take from both sides, and in one direction
are never paid more than one swap of everything they brought.
-/
import Mathlib.Tactic
import Hikmalayer.Ledger.SwapQuotes

open Outcome

namespace ChainState

variable {E : Node} {s s' mid : ChainState} {tx : Transaction} {height : UInt64} {pool : Pool}
  {a t : String} {buy : Bool} {amountIn out minOut : UInt64}

/-! ## One swap -/

/-- An applied swap follows the product rule at the pool that it finds. -/
theorem swap_rule (hs : Sound s) (hE : E.saturation = .clamp) {v : String}
    (hswap : SwapBy tx a t buy amountIn minOut) (hver : tx.verifyForBlock E v = ok ())
    (h : applyVerified E tx height s = ok ((), s')) (hpaid : Swapped s s' a t buy amountIn out)
    (hp : s.pools[t]? = some pool) :
    out.toNat * ((reserveIn pool buy).toNat * 10000 + amountIn.toNat * 9970) ≤
      amountIn.toNat * 9970 * (reserveOut pool buy).toNat := by
  obtain ⟨out', hchecks, hpaid'⟩ := swap_paid hs hE hswap hver h
  obtain ⟨old, new, hold, hnew, -, hout⟩ := hpaid.pool
  obtain ⟨old', new', hold', hnew', -, hout'⟩ := hpaid'.pool
  obtain ⟨found, hfound, hx, hy, hquote⟩ := swapChecks_output hchecks
  rw [hp, Option.some.injEq] at hold hold' hfound
  subst hold hold' hfound
  rw [hnew, Option.some.injEq] at hnew'
  subst hnew'
  have hsame : out' = out := Word.toNat_ext (by omega)
  subst hsame
  unfold reserveIn reserveOut
  split at hquote
  · next hbuy =>
    rw [if_pos hbuy, if_pos hbuy]
    exact (swapOutput_mul_le hx hy hquote).1
  · next hbuy =>
    rw [if_neg hbuy, if_neg hbuy]
    exact (swapOutput_mul_le hy hx hquote).1

/-! ## Many swaps -/

/-- What one swap of a run brought and was paid. -/
structure Trade where
  buy : Bool
  amountIn : UInt64
  out : UInt64

/-- The amounts of the trades of one direction. -/
def totalOf (amount : Trade → UInt64) (buy : Bool) (trades : List Trade) : ℕ :=
  ((trades.filter fun trade => trade.buy = buy).map fun trade => (amount trade).toNat).sum

/-- All that the trades of one direction brought. -/
def brought : Bool → List Trade → ℕ := totalOf Trade.amountIn

/-- All that the trades of one direction were paid. -/
def received : Bool → List Trade → ℕ := totalOf Trade.out

theorem totalOf_concat {amount : Trade → UInt64} {trades : List Trade} {trade : Trade}
    (side : Bool) : totalOf amount side (trades ++ [trade]) =
      totalOf amount side trades + if trade.buy = side then (amount trade).toNat else 0 := by
  rw [totalOf, totalOf, List.filter_append, List.map_append, List.sum_append]
  by_cases hside : trade.buy = side
  · simp [hside]
  · simp [hside]

theorem brought_concat {trades : List Trade} {trade : Trade} (side : Bool) :
    brought side (trades ++ [trade]) =
      brought side trades + if trade.buy = side then trade.amountIn.toNat else 0 := totalOf_concat side

theorem received_concat {trades : List Trade} {trade : Trade} (side : Bool) :
    received side (trades ++ [trade]) =
      received side trades + if trade.buy = side then trade.out.toNat else 0 := totalOf_concat side

/-- Trades in the other direction add nothing. -/
theorem totalOf_other {amount : Trade → UInt64} {trades : List Trade} {side other : Bool}
    (hne : side ≠ other) (h : ∀ trade ∈ trades, trade.buy = side) :
    totalOf amount other trades = 0 := by
  have hnone : (trades.filter fun trade => trade.buy = other) = [] := by
    refine List.filter_eq_nil_iff.mpr fun trade htrade => ?_
    rw [decide_eq_true_eq, h trade htrade]
    exact hne
  rw [totalOf, hnone]
  rfl

/-- A run whose steps on the pool of a token are these swaps. -/
inductive Trades (E : Node) (t : String) (s : ChainState) : List Trade → ChainState → Prop
  | start : Trades E t s [] s
  | elsewhere {trades : List Trade} {mid s' : ChainState} (h : Trades E t s trades mid)
    (hstep : Step E mid s') (hpool : s'.pools[t]? = mid.pools[t]?) : Trades E t s trades s'
  | swap {trades : List Trade} {mid s' : ChainState} {tx : Transaction} {height : UInt64}
    {v a : String} {buy : Bool} {amountIn minOut out : UInt64} (h : Trades E t s trades mid)
    (hv : isValidAddress v = true) (hver : tx.verifyForBlock E v = ok ())
    (happly : applyVerified E tx height mid = ok ((), s'))
    (hswap : SwapBy tx a t buy amountIn minOut) (hpaid : Swapped mid s' a t buy amountIn out) :
    Trades E t s (trades ++ [⟨buy, amountIn, out⟩]) s'

theorem Trades.run {trades : List Trade} (h : Trades E t s trades s') :
    Relation.ReflTransGen (Step E) s s' := by
  induction h with
  | start => exact .refl
  | elsewhere h hstep hpool ih => exact ih.tail hstep
  | swap h hv hver happly hswap hpaid ih => exact ih.tail (.apply hv hver happly)

/-- How the trades have moved a pool. -/
structure Traded (old : Pool) (trades : List Trade) (new : Pool) : Prop where
  hkm : new.reserveHkm.toNat + received false trades = old.reserveHkm.toNat + brought true trades
  token : new.reserveToken.toNat + received true trades =
    old.reserveToken.toNat + brought false trades
  product : old.reserveHkm.toNat * old.reserveToken.toNat ≤
    new.reserveHkm.toNat * new.reserveToken.toNat
  curve : ∀ side, (∀ trade ∈ trades, trade.buy = side) →
    (reserveIn old side).toNat * 10000 * (reserveOut old side).toNat ≤
      (reserveOut new side).toNat *
        ((reserveIn old side).toNat * 10000 + brought side trades * 9970)

/-- Trades of one direction move each reserve one way. -/
theorem Traded.reserves {old new : Pool} {trades : List Trade} (h : Traded old trades new)
    {side : Bool} (hside : ∀ trade ∈ trades, trade.buy = side) :
    (reserveIn new side).toNat = (reserveIn old side).toNat + brought side trades ∧
      (reserveOut new side).toNat + received side trades = (reserveOut old side).toNat := by
  have hhkm := h.hkm
  have htoken := h.token
  cases side with
  | true =>
    rw [received, totalOf_other Bool.false_ne_true.symm hside] at hhkm
    rw [brought, totalOf_other Bool.false_ne_true.symm hside] at htoken
    exact ⟨hhkm, htoken⟩
  | false =>
    rw [brought, totalOf_other Bool.false_ne_true hside] at hhkm
    rw [received, totalOf_other Bool.false_ne_true hside] at htoken
    exact ⟨htoken, hhkm⟩

theorem Traded.refl {pool : Pool} : Traded pool [] pool where
  hkm := rfl
  token := rfl
  product := le_rfl
  curve side _ := by
    rw [show brought side [] = 0 from rfl, Nat.zero_mul, Nat.add_zero, Nat.mul_comm]

/-- One more swap that follows the product rule. -/
theorem Traded.swap {old new new' : Pool} {trades : List Trade} (h : Traded old trades new)
    (hin : (reserveIn new' buy).toNat = (reserveIn new buy).toNat + amountIn.toNat)
    (hout : (reserveOut new' buy).toNat + out.toNat = (reserveOut new buy).toNat)
    (hrule : out.toNat * ((reserveIn new buy).toNat * 10000 + amountIn.toNat * 9970) ≤
      amountIn.toNat * 9970 * (reserveOut new buy).toNat) :
    Traded old (trades ++ [⟨buy, amountIn, out⟩]) new' := by
  have hle : out.toNat ≤ (reserveOut new buy).toNat := by omega
  have hleft : (reserveOut new' buy).toNat = (reserveOut new buy).toNat - out.toNat := by omega
  have hproduct : (reserveIn new buy).toNat * (reserveOut new buy).toNat ≤
      (reserveIn new' buy).toNat * (reserveOut new' buy).toNat := by
    rw [hin, hleft]
    exact ConstantProduct.product_swap (by norm_num) (by norm_num) hle hrule
  refine ⟨?_, ?_, ?_, fun side hside => ?_⟩
  · have hhkm := h.hkm
    rw [brought_concat, received_concat]
    cases buy with
    | true =>
      have hin : new'.reserveHkm.toNat = new.reserveHkm.toNat + amountIn.toNat := hin
      simp
      omega
    | false =>
      have hout : new'.reserveHkm.toNat + out.toNat = new.reserveHkm.toNat := hout
      simp
      omega
  · have htoken := h.token
    rw [brought_concat, received_concat]
    cases buy with
    | true =>
      have hout : new'.reserveToken.toNat + out.toNat = new.reserveToken.toNat := hout
      simp
      omega
    | false =>
      have hin : new'.reserveToken.toNat = new.reserveToken.toNat + amountIn.toNat := hin
      simp
      omega
  · refine h.product.trans ?_
    cases buy with
    | true => exact hproduct
    | false =>
      rw [Nat.mul_comm new.reserveHkm.toNat, Nat.mul_comm new'.reserveHkm.toNat]
      exact hproduct
  · have hbuy : buy = side := hside _ (List.mem_append_right _ (List.mem_singleton_self _))
    subst hbuy
    have hbefore : ∀ trade ∈ trades, trade.buy = buy := fun trade htrade =>
      hside trade (List.mem_append_left _ htrade)
    rw [(h.reserves hbefore).1] at hrule
    rw [brought_concat, if_pos rfl, hleft]
    exact ConstantProduct.above_curve (by norm_num) (h.curve buy hbefore) hle hrule

theorem Trades.traded (hE : E.saturation = .clamp) (hr : Reachable E s) {trades : List Trade}
    (h : Trades E t s trades s') (hp : s.pools[t]? = some pool) :
    ∃ pool', s'.pools[t]? = some pool' ∧ Traded pool trades pool' := by
  induction h with
  | start => exact ⟨pool, hp, .refl⟩
  | elsewhere h hstep hpool ih =>
    obtain ⟨new, hnew, htraded⟩ := ih
    exact ⟨new, hpool.trans hnew, htraded⟩
  | swap h hv hver happly hswap hpaid ih =>
    obtain ⟨new, hnew, htraded⟩ := ih
    have hs := (hr.run h.run).sound hE
    have hrule := swap_rule hs hE hswap hver happly hpaid hnew
    obtain ⟨old, new', hold, hnew', hin, hout⟩ := hpaid.pool
    rw [hnew, Option.some.injEq] at hold
    subst hold
    exact ⟨new', hnew', htraded.swap hin hout hrule⟩

/-! ## Main result -/

/-- Traders who together take at least as much of one asset as they give bring at least as much of the
other one as they are paid; and trades in one direction, however they are split and whatever happens
elsewhere in between, are together paid at most what one swap of all that they bring would have been
paid at the start. -/
theorem trading_never_profits (hE : E.saturation = .clamp) (hr : Reachable E s)
    (hp : s.pools[t]? = some pool) {trades : List Trade} (h : Trades E t s trades s') :
    (brought false trades ≤ received true trades → received false trades ≤ brought true trades) ∧
    (brought true trades ≤ received false trades → received true trades ≤ brought false trades) ∧
    ∀ (side : Bool) (total paid : UInt64), (∀ trade ∈ trades, trade.buy = side) →
      total.toNat = brought side trades →
      swapOutput (reserveIn pool side) (reserveOut pool side) total = ok paid →
      received side trades ≤ paid.toNat := by
  obtain ⟨pool', hp', htraded⟩ := h.traded hE hr hp
  have hinv := hr.poolInvariant hE hp
  have hx := hinv.reserveHkm
  have hy := hinv.reserveToken
  have hproduct := htraded.product
  have hhkm := htraded.hkm
  have htoken := htraded.token
  refine ⟨fun hback => ?_, fun hback => ?_, fun side total paid hside htotal hpaid => ?_⟩
  · have hle : pool'.reserveToken.toNat ≤ pool.reserveToken.toNat := by omega
    have hkept : pool.reserveHkm.toNat ≤ pool'.reserveHkm.toNat :=
      Nat.le_of_mul_le_mul_right (hproduct.trans (Nat.mul_le_mul_left _ hle)) hy
    omega
  · have hle : pool'.reserveHkm.toNat ≤ pool.reserveHkm.toNat := by omega
    have hkept : pool.reserveToken.toNat ≤ pool'.reserveToken.toNat :=
      Nat.le_of_mul_le_mul_left (hproduct.trans (Nat.mul_le_mul_right _ hle)) hx
    omega
  · have hin : 0 < (reserveIn pool side).toNat := by
      unfold reserveIn
      split
      · exact hx
      · exact hy
    have hout : 0 < (reserveOut pool side).toNat := by
      unfold reserveOut
      split
      · exact hy
      · exact hx
    obtain ⟨hval, hlt⟩ := swapOutput_eq total hin hout
    have hvalue : paid.toNat = ConstantProduct.output 9970 10000 (reserveIn pool side).toNat
        (reserveOut pool side).toNat total.toNat := by
      rcases hval with hval | ⟨e, herr⟩
      · rw [hpaid, ok.injEq] at hval
        rw [hval, Word.toNat_ofNat_of_lt (hlt.trans (Word.toNat_lt _))]
      · rw [hpaid] at herr
        cases herr
    rw [hvalue, htotal]
    exact ConstantProduct.taken_le_output (Nat.mul_pos hin (by norm_num))
      (htraded.reserves hside).2 (htraded.curve side hside)

end ChainState

namespace Sample

open ChainState

/-- Holder 7 buys its token. -/
def purchase (amountIn nonce : UInt64) : Transaction :=
  order 7 .swap "" 0 nonce none (some ⟨tokenId, 0, 0, 0, amountIn, true, 0, 0, 0, 0⟩)
    (Transaction.ammSwapSigningMessage tokenId true amountIn 0 nonce)

theorem purchase_verified {amountIn nonce : UInt64} (hin : amountIn ≠ 0) (validator : String) :
    (purchase amountIn nonce).verifyForBlock (env []) validator = ok () := by
  simp only [Transaction.verifyForBlock, purchase, order, Outcome.bind_eq_ok, okOr_eq_ok,
    ensure_eq_ok, Option.some.injEq]
  refine ⟨_, rfl, _, rfl, (), ?_, (), hin, verifySenderSignature_order schemeOf_seven⟩
  rw [tokenId_not_blank]
  exact Bool.false_ne_true

/-- Holder 7 opens a pool, where one purchase has a price, and then makes that purchase in two. -/
theorem exists_trades : ∃ s pool s' trades paid, Reachable (node []) s ∧
    s.pools[tokenId]? = some pool ∧ Trades (node []) tokenId s trades s' ∧
    (∀ trade ∈ trades, trade.buy = true) ∧ brought true trades = 200000 ∧
    swapOutput (reserveIn pool true) (reserveOut pool true) 200000 = ok paid := by
  have hrun : (applyVerified (node []) tokenCreation 1 (genesis 1000000000000000)).returns
      (fun r => (applyVerified (node []) deposit 1 r.2).returns fun r =>
        (r.2.pools[tokenId]?.any fun pool => (swapOutput (reserveIn pool true)
          (reserveOut pool true) 200000).returns fun _ => true) &&
        (applyVerified (node []) (purchase 100000 3) 1 r.2).returns fun r =>
          (applyVerified (node []) (purchase 100000 4) 1 r.2).returns fun _ => true) = true := by
    decide +kernel
  obtain ⟨⟨⟨⟩, s₁⟩, h₁, hrun⟩ := exists_of_returns hrun
  obtain ⟨⟨⟨⟩, s₂⟩, h₂, hrun⟩ := exists_of_returns hrun
  simp only [Bool.and_eq_true, Option.any_eq_true] at hrun
  obtain ⟨⟨pool, hp, hprice⟩, hrun⟩ := hrun
  obtain ⟨paid, hpaid, -⟩ := exists_of_returns hprice
  obtain ⟨⟨⟨⟩, s₃⟩, h₃, hrun⟩ := exists_of_returns hrun
  obtain ⟨⟨⟨⟩, s₄⟩, h₄, -⟩ := exists_of_returns hrun
  have hreach : Reachable (node []) s₂ :=
    ((Reachable.genesis (.built defaultChainId (address 7) _ _ [] address_valid)).step
      (.apply address_valid (by decide +kernel) h₁)).step
        (.apply address_valid (by decide +kernel) h₂)
  have hver : ∀ nonce, (purchase 100000 nonce).verifyForBlock (node []) (address 7) = ok () :=
    fun nonce => purchase_verified (by decide) (address 7)
  have hreach' := hreach.step (.apply address_valid (hver 3) h₃)
  have hbuys : ∀ nonce, SwapBy (purchase 100000 nonce) (address 7) tokenId true 100000 0 :=
    fun nonce => ⟨rfl, rfl, _, rfl, rfl, rfl, rfl, rfl⟩
  obtain ⟨out, -, hout⟩ := swap_paid (hreach.sound rfl) rfl (hbuys 3) (hver 3) h₃
  obtain ⟨out', -, hout'⟩ := swap_paid (hreach'.sound rfl) rfl (hbuys 4) (hver 4) h₄
  refine ⟨s₂, pool, s₄, _, paid, hreach, hp, .swap (.swap .start address_valid (hver 3) h₃ (hbuys 3)
    hout) address_valid (hver 4) h₄ (hbuys 4) hout', ?_, ?_, hpaid⟩
  · simp
  · simp [brought, totalOf]

end Sample

namespace ChainState

/-- Two purchases of holder 7 are paid at most what one of the sum would have been. -/
theorem trading_never_profits_sample : ∃ s pool s' trades paid,
    Reachable (Sample.node []) s ∧ s.pools[Sample.tokenId]? = some pool ∧
    Trades (Sample.node []) Sample.tokenId s trades s' ∧
    swapOutput (reserveIn pool true) (reserveOut pool true) 200000 = ok paid ∧
    received true trades ≤ paid.toNat := by
  obtain ⟨s, pool, s', trades, paid, hr, hp, htrades, hside, htotal, hpaid⟩ := Sample.exists_trades
  exact ⟨s, pool, s', trades, paid, hr, hp, htrades, hpaid,
    (trading_never_profits rfl hr hp htrades).2.2 true 200000 paid hside htotal.symm hpaid⟩

end ChainState
