/-
# Adding liquidity at the pool's ratio

A later provider is meant to give the whole of one side and the matching amount of the other.
The matching amount of tokens is narrowed to a word before it is compared with what is offered,
so a quotient past the word can pass for a small one.
-/
import Mathlib.Tactic
import Hikmalayer.Ledger.Liquidity
import Hikmalayer.Ledger.SampleRun

open Outcome Exec OrderedMap

namespace ChainState

variable {E : Node} {s s' : ChainState} {tx : Transaction} {height : UInt64}
  {pool : Pool} {action : AmmAction} {a t : String} {dx dy m : ℕ}

/-! ## The amounts -/

/-- The tokens that match the offered HKM. -/
def tokenOptimal (pool : Pool) (action : AmmAction) : ℕ :=
  action.amountHkm.toNat * pool.reserveToken.toNat / pool.reserveHkm.toNat

/-- The HKM that matches the offered tokens. -/
def hkmOptimal (pool : Pool) (action : AmmAction) : ℕ :=
  action.amountToken.toNat * pool.reserveHkm.toNat / pool.reserveToken.toNat

/-- What an addition should take: the whole HKM when the tokens suffice, else the whole tokens. -/
def ratioTaken (pool : Pool) (action : AmmAction) : ℕ × ℕ :=
  if tokenOptimal pool action ≤ action.amountToken.toNat then
    (action.amountHkm.toNat, tokenOptimal pool action)
  else (hkmOptimal pool action, action.amountToken.toNat)

/-- The smaller of the two floored claims of some amounts. -/
def claimOf (pool : Pool) (taken : ℕ × ℕ) : ℕ :=
  min (taken.1 * pool.totalShares.toNat / pool.reserveHkm.toNat)
    (taken.2 * pool.totalShares.toNat / pool.reserveToken.toNat)

/-- The matching tokens fit a word, or what is left of them after narrowing is still more than
what is offered. -/
def Narrows (pool : Pool) (action : AmmAction) : Prop :=
  tokenOptimal pool action < 2 ^ 64 ∨
    action.amountToken.toNat < tokenOptimal pool action % 2 ^ 64

/-- When the tokens do not suffice, less than the offered HKM matches them. -/
theorem hkmOptimal_lt (hx : 0 < pool.reserveHkm.toNat)
    (h : action.amountToken.toNat < tokenOptimal pool action) :
    hkmOptimal pool action < action.amountHkm.toNat := by
  have hmul : (action.amountToken.toNat + 1) * pool.reserveHkm.toNat ≤
      action.amountHkm.toNat * pool.reserveToken.toNat := (Nat.le_div_iff_mul_le hx).mp h
  refine Nat.div_lt_of_lt_mul ?_
  calc action.amountToken.toNat * pool.reserveHkm.toNat
      < (action.amountToken.toNat + 1) * pool.reserveHkm.toNat :=
        Nat.mul_lt_mul_of_pos_right (Nat.lt_succ_self _) hx
    _ ≤ action.amountHkm.toNat * pool.reserveToken.toNat := hmul
    _ = pool.reserveToken.toNat * action.amountHkm.toNat := Nat.mul_comm _ _

/-- No more is to be taken than is offered. -/
theorem ratioTaken_le (hx : 0 < pool.reserveHkm.toNat) (action : AmmAction) :
    (ratioTaken pool action).1 ≤ action.amountHkm.toNat ∧
      (ratioTaken pool action).2 ≤ action.amountToken.toNat := by
  unfold ratioTaken
  split
  · rename_i h
    exact ⟨le_rfl, h⟩
  · rename_i h
    exact ⟨(hkmOptimal_lt hx (not_le.mp h)).le, le_rfl⟩

/-- What the code takes. -/
theorem ratioAmounts_eq (hx : 0 < pool.reserveHkm.toNat) (hy : 0 < pool.reserveToken.toNat) :
    ratioAmounts pool action = ok (
      if UInt64.ofNat (tokenOptimal pool action) ≤ action.amountToken then
        (action.amountHkm, UInt64.ofNat (tokenOptimal pool action))
      else (UInt64.ofNat (hkmOptimal pool action), action.amountToken)) := by
  unfold ratioAmounts
  rw [Word.mulDiv_of_pos hx, plain_some, ok_bind]
  change (if UInt64.ofNat (tokenOptimal pool action) ≤ action.amountToken then _ else _) = _
  split
  · rfl
  · rw [Word.mulDiv_of_pos hy, plain_some, ok_bind]
    rfl

/-- The code takes what it should exactly when the matching tokens narrow well. -/
theorem ratioAmounts_exact_iff (hx : 0 < pool.reserveHkm.toNat) (hy : 0 < pool.reserveToken.toNat)
    {useHkm useToken : UInt64} (h : ratioAmounts pool action = ok (useHkm, useToken)) :
    (useHkm.toNat, useToken.toNat) = ratioTaken pool action ↔ Narrows pool action := by
  rw [ratioAmounts_eq hx hy, ok.injEq] at h
  have hcast : (UInt64.ofNat (tokenOptimal pool action)).toNat = tokenOptimal pool action % 2 ^ 64 :=
    UInt64.toNat_ofNat'
  have hword := Word.toNat_lt action.amountToken
  unfold Narrows ratioTaken
  simp only [UInt64.le_iff_toNat_le, hcast] at h
  by_cases hfit : tokenOptimal pool action < 2 ^ 64
  · -- nothing is lost, so the branches agree
    simp only [Nat.mod_eq_of_lt hfit] at h hcast
    refine ⟨fun _ => .inl hfit, fun _ => ?_⟩
    split at h
    · rename_i hle
      rw [Prod.mk.injEq] at h
      rw [if_pos hle, ← h.1, ← h.2, hcast]
    · rename_i hle
      have hlt := hkmOptimal_lt hx (not_le.mp hle)
      have hhkm := Word.toNat_lt action.amountHkm
      rw [Prod.mk.injEq] at h
      rw [if_neg hle, ← h.1, ← h.2, Word.toNat_ofNat_of_lt (by omega)]
  · have hmore : ¬ tokenOptimal pool action ≤ action.amountToken.toNat := by omega
    have hlt := hkmOptimal_lt hx (not_le.mp hmore)
    have hhkm := Word.toNat_lt action.amountHkm
    rw [if_neg hmore]
    split at h
    · -- the narrowed amount passes, and the whole HKM is taken
      rename_i hle
      rw [Prod.mk.injEq] at h
      refine iff_of_false (fun heq => ?_) (by omega)
      rw [Prod.mk.injEq, ← h.1] at heq
      omega
    · rename_i hle
      rw [Prod.mk.injEq] at h
      refine iff_of_true ?_ (.inr (not_le.mp hle))
      rw [← h.1, ← h.2, Word.toNat_ofNat_of_lt (by omega)]

/-! ## The ledger -/

/-- Account `a` and the AMM account after `dx` HKM and `dy` units of `t` went into the pool for
`m` shares, and the fee was paid. -/
structure Supplied (s s' : ChainState) (pool : Pool) (a t : String) (dx dy m : ℕ) : Prop where
  hkm : (s'.balanceOf a).toNat + dx + s.baseFee.toNat = (s.balanceOf a).toNat
  token : (s'.tokenBalanceOf t a).toNat + dy = (s.tokenBalanceOf t a).toNat
  shares : (s'.lpSharesOf t a).toNat = (s.lpSharesOf t a).toNat + m
  ammHkm : (s'.balanceOf ammPoolAccount).toNat = (s.balanceOf ammPoolAccount).toNat + dx
  ammToken : (s'.tokenBalanceOf t ammPoolAccount).toNat =
    (s.tokenBalanceOf t ammPoolAccount).toNat + dy
  pool : ∃ new, s'.pools[t]? = some new ∧ new.reserveHkm.toNat = pool.reserveHkm.toNat + dx ∧
    new.reserveToken.toNat = pool.reserveToken.toNat + dy ∧
    new.totalShares.toNat = pool.totalShares.toNat + m

/-- The amounts can be read off the pool. -/
theorem Supplied.unique {dx' dy' m' : ℕ} (h : Supplied s s' pool a t dx dy m)
    (h' : Supplied s s' pool a t dx' dy' m') : dx = dx' ∧ dy = dy' := by
  obtain ⟨new, hnew, hx, hy, -⟩ := h.pool
  obtain ⟨new', hnew', hx', hy', -⟩ := h'.pool
  rw [hnew, Option.some.injEq] at hnew'
  subst hnew'
  omega

/-- An applied addition to a pool supplies what its quote says. -/
theorem applyAddLiquidity_supplied (hs : Sound s) (hsender : tx.sender = some a)
    (ha : isValidAddress a = true) (hamm : tx.amm = some action)
    (hp : s.pools[action.tokenId]? = some pool) (h : applyAddLiquidity E tx s = ok ((), s')) :
    ∃ q, laterQuote pool action = ok q ∧ Supplied s s' pool a action.tokenId q.useHkm.toNat
      q.useToken.toNat q.minted.toNat := by
  obtain ⟨r, hc, -, he⟩ := guarded_eq_ok.mp h
  obtain ⟨action', hr, hamm', htoken, -, -, hq⟩ := addLiquidityChecks_ok hc
  rw [hsender, Option.some.injEq] at hr
  rw [hamm, Option.some.injEq] at hamm'
  subst hamm'
  obtain ⟨rest, pot, custody, left, inPool, reserveHkm, reserveToken, totalShares, holding, holders,
    hrest, -, hcustody, hleft, rfl, hin, hrh, hrt, hts, hhold, rfl⟩ := addLiquidityEffects_ok he
  have hne : ammPoolAccount ≠ a := (ne_ammPool ha).symm
  have hshares : pool.totalShares ≠ 0 := fun h0 => by
    have hnone := hs.no_pool_of_no_shares (t := action.tokenId) (by rw [hp]; exact h0)
    rw [hp] at hnone
    cases hnone
  rw [htoken, hp, Option.getD_some, addQuote, if_neg hshares] at hq
  have hold : ∀ u : ChainState, u.pools = s.pools → u.poolOrNew r.tokenId = pool := by
    intro u hu
    rw [poolOrNew, hu, htoken, hp, Option.getD_some]
  rw [hold (s.setNonce r.sender tx.nonce) rfl] at hrh hrt hts
  rw [(laterQuote_ok hq).2.2, if_neg Bool.false_ne_true, Nat.add_zero] at hts
  rw [← hr] at hrest hcustody hleft hin hhold
  refine ⟨r.quote, hq, ?_⟩
  rw [← htoken, ← hr]
  constructor
  case hkm =>
    show (valueAt ((s.balances.insert a rest).insert ammPoolAccount custody) a).toNat +
      r.quote.useHkm.toNat + s.baseFee.toNat = (valueAt s.balances a).toNat
    rw [valueAt_insert_of_ne _ hne, valueAt_insert_self, Nat.add_assoc]
    exact hrest
  case token =>
    show (valueAt (mapAt (s.tokenBalances.insert r.tokenId _) r.tokenId) a).toNat + _ =
      (valueAt (mapAt s.tokenBalances r.tokenId) a).toNat
    rw [mapAt_insert, if_pos rfl, valueAt_insert_of_ne _ hne, valueAt_writeOrRemove, if_pos rfl]
    exact hleft
  case shares =>
    show (valueAt (mapAt (s.lpShares.insert r.tokenId _) r.tokenId) a).toNat = _
    rw [mapAt_insert, if_pos rfl, valueAt_insert_self]
    exact hhold
  case ammHkm =>
    show (valueAt ((s.balances.insert a rest).insert ammPoolAccount custody) ammPoolAccount).toNat =
      (valueAt s.balances ammPoolAccount).toNat + _
    rw [valueAt_insert_self, hcustody, setNonce_balances, valueAt_insert_of_ne _ hne.symm]
  case ammToken =>
    show (valueAt (mapAt (s.tokenBalances.insert r.tokenId _) r.tokenId) ammPoolAccount).toNat =
      (valueAt (mapAt s.tokenBalances r.tokenId) ammPoolAccount).toNat + _
    rw [mapAt_insert, if_pos rfl, valueAt_insert_self, hin, valueAt_writeOrRemove, if_neg hne.symm]
    rfl
  case pool =>
    refine ⟨grownPool pool reserveHkm reserveToken totalShares, ?_, hrh, hrt, hts⟩
    show (s.pools.insert r.tokenId _)[r.tokenId]? = _
    rw [lookup_insert_self, hold (s.setNonce a tx.nonce) rfl]

end ChainState

/-! ## A lopsided pool -/

namespace Sample

open ChainState

/-- Holder 7 creates a token with a large supply. -/
def largeCreation : Transaction :=
  order 7 .tokenCreate "" 10000000000000000000 1 (some ⟨"", "GOLD", "Gold", 2⟩) none
    (Transaction.tokenCreateSigningMessage "GOLD" "Gold" 2 10000000000000000000 1)

/-- Holder 7 offers liquidity to the pool of its token. -/
def offer (amountHkm amountToken nonce : UInt64) : Transaction :=
  order 7 .addLiquidity "" 0 nonce none
    (some ⟨tokenId, amountHkm, amountToken, 0, 0, false, 0, 0, 0, 0⟩)
    (Transaction.ammAddSigningMessage tokenId amountHkm amountToken 0 nonce)

theorem tokenId_not_blank : blank tokenId = false := by decide +kernel

theorem largeCreation_verified :
    largeCreation.verifyForBlock (node []) (address 7) = ok () := by decide +kernel

theorem offer_verified {amountHkm amountToken nonce : UInt64} (hhkm : amountHkm ≠ 0)
    (htoken : amountToken ≠ 0) (validator : String) :
    (offer amountHkm amountToken nonce).verifyForBlock (env []) validator = ok () := by
  simp only [Transaction.verifyForBlock, offer, order, Outcome.bind_eq_ok, okOr_eq_ok,
    ensure_eq_ok, Option.some.injEq]
  refine ⟨_, rfl, _, rfl, (), ?_, (), not_or.mpr ⟨hhkm, htoken⟩,
    verifySenderSignature_order schemeOf_seven⟩
  rw [tokenId_not_blank]
  exact Bool.false_ne_true

/-- One unit of HKM and 10^18 of the token are in the pool, and holder 7 can offer more. -/
theorem exists_lopsided : ∃ s pool, Reachable (node []) s ∧ s.pools[tokenId]? = some pool ∧
    pool.reserveHkm = 1 ∧ pool.reserveToken = 1000000000000000000 ∧
    (applyVerified (node []) (offer 2 8000000000000000000 3) 1 s).returns (fun _ => true) = true ∧
    (applyVerified (node []) (offer 100 8000000000000000000 3) 1 s).returns (fun r =>
      decide ((r.2.balanceOf (address 7)).toNat + 100 + s.baseFee.toNat =
        (s.balanceOf (address 7)).toNat)) = true := by
  have hrun : (applyVerified (node []) largeCreation 1 (genesis 1000000000000000)).returns
      (fun r => (applyVerified (node []) (offer 1 1000000000000000000 2) 1 r.2).returns fun r =>
        (r.2.pools[tokenId]?.any fun pool =>
          decide (pool.reserveHkm = 1 ∧ pool.reserveToken = 1000000000000000000)) &&
        ((applyVerified (node []) (offer 2 8000000000000000000 3) 1 r.2).returns fun _ => true) &&
        (applyVerified (node []) (offer 100 8000000000000000000 3) 1 r.2).returns fun r' =>
          decide ((r'.2.balanceOf (address 7)).toNat + 100 + r.2.baseFee.toNat =
            (r.2.balanceOf (address 7)).toNat)) = true := by decide +kernel
  obtain ⟨⟨⟨⟩, s₁⟩, h₁, hrun⟩ := exists_of_returns hrun
  obtain ⟨⟨⟨⟩, s₂⟩, h₂, hrun⟩ := exists_of_returns hrun
  simp only [Bool.and_eq_true, Option.any_eq_true, decide_eq_true_eq] at hrun
  obtain ⟨⟨⟨pool, hp, hx, hy⟩, hsmall⟩, hlarge⟩ := hrun
  have hopen : (offer 1 1000000000000000000 2).verifyForBlock (node []) (address 7) = ok () :=
    offer_verified (by decide +kernel) (by decide +kernel) (address 7)
  have hreach := ((Reachable.genesis (.built defaultChainId (address 7) _ _ [] address_valid)).step
    (.apply address_valid largeCreation_verified h₁)).step (.apply address_valid hopen h₂)
  exact ⟨s₂, pool, hreach, hp, hx, hy, hsmall, hlarge⟩

end Sample

namespace ChainState

/-- Adding liquidity to a reachable pool takes the amounts of its ratio, none beyond the offer,
for the smaller of their two claims, exactly when the matching tokens narrow well. -/
theorem add_liquidity_ratio_iff (hE : E.saturation = .clamp) (hr : Reachable E s)
    {validator : String} (hver : tx.verifyForBlock E validator = ok ())
    (ht : tx.transactionType = .addLiquidity) (hsender : tx.sender = some a)
    (hamm : tx.amm = some action) (hp : s.pools[action.tokenId]? = some pool)
    (h : applyVerified E tx height s = ok ((), s')) :
    ((ratioTaken pool action).1 ≤ action.amountHkm.toNat ∧
      (ratioTaken pool action).2 ≤ action.amountToken.toNat ∧
      Supplied s s' pool a action.tokenId (ratioTaken pool action).1 (ratioTaken pool action).2
        (claimOf pool (ratioTaken pool action))) ↔ Narrows pool action := by
  have hs := hr.sound hE
  have hvalid : isValidAddress a = true :=
    Transaction.sender_valid hver (by simp [ht]) (by simp [ht]) a hsender
  have hinv := hr.poolInvariant hE hp
  obtain ⟨q, hq, hsupplied⟩ := applyAddLiquidity_supplied hs hsender hvalid hamm hp
    (applyVerified_addLiquidity ht h)
  have hminted := laterQuote_exact hinv.reserveHkm hinv.reserveToken hinv.totalShares_pos hinv.mean hq
  have hamounts : ratioAmounts pool action = ok (q.useHkm, q.useToken) := by
    simp only [laterQuote, Outcome.bind_eq_ok, ensure_eq_ok, plain_eq_ok, pure_eq, ok.injEq,
      Prod.exists] at hq
    obtain ⟨useHkm, useToken, hratio, _, -, _, -, _, -, rfl⟩ := hq
    exact hratio
  rw [← ratioAmounts_exact_iff hinv.reserveHkm hinv.reserveToken hamounts]
  constructor
  · rintro ⟨-, -, hratio⟩
    obtain ⟨hx, hy⟩ := hsupplied.unique hratio
    rw [hx, hy]
  · intro heq
    obtain ⟨hx, hy⟩ := ratioTaken_le hinv.reserveHkm action
    refine ⟨hx, hy, ?_⟩
    rw [claimOf, ← heq]
    exact hminted ▸ hsupplied

/-- Two units of HKM for the lopsided pool take the tokens that match them. -/
theorem add_liquidity_ratio_sample :
    ∃ s s' pool, Reachable (Sample.node []) s ∧ s.pools[Sample.tokenId]? = some pool ∧
      applyVerified (Sample.node []) (Sample.offer 2 8000000000000000000 3) 1 s = ok ((), s') ∧
      Supplied s s' pool (Sample.address 7) Sample.tokenId 2 2000000000000000000
        (claimOf pool (2, 2000000000000000000)) := by
  obtain ⟨s, pool, hr, hp, hx, hy, hsmall, -⟩ := Sample.exists_lopsided
  obtain ⟨⟨⟨⟩, s'⟩, h, -⟩ := exists_of_returns hsmall
  have hoptimal : tokenOptimal pool ⟨Sample.tokenId, 2, 8000000000000000000, 0, 0, false, 0, 0, 0, 0⟩ =
      2000000000000000000 := by
    rw [tokenOptimal, hx, hy]
    decide +kernel
  have htaken : ratioTaken pool ⟨Sample.tokenId, 2, 8000000000000000000, 0, 0, false, 0, 0, 0, 0⟩ =
      (2, 2000000000000000000) := by
    rw [ratioTaken, hoptimal, if_pos (by decide +kernel)]
    rfl
  have hratio := ((add_liquidity_ratio_iff rfl hr (Sample.offer_verified (by decide +kernel)
    (by decide +kernel) (Sample.address 7)) rfl rfl rfl hp h).mpr
      (.inl (by rw [hoptimal]; decide +kernel))).2.2
  rw [htaken] at hratio
  exact ⟨s, s', pool, hr, hp, h, hratio⟩

/-- A hundred units of HKM match more tokens than a word holds, and eight of them match the
offered tokens; all hundred are taken. -/
theorem liquidity_overtaken :
    ∃ s s' pool, Reachable (Sample.node []) s ∧ s.pools[Sample.tokenId]? = some pool ∧
      applyVerified (Sample.node []) (Sample.offer 100 8000000000000000000 3) 1 s = ok ((), s') ∧
      ratioTaken pool ⟨Sample.tokenId, 100, 8000000000000000000, 0, 0, false, 0, 0, 0, 0⟩ =
        (8, 8000000000000000000) ∧
      ∀ m, ¬ Supplied s s' pool (Sample.address 7) Sample.tokenId 8 8000000000000000000 m := by
  obtain ⟨s, pool, hr, hp, hx, hy, -, hlarge⟩ := Sample.exists_lopsided
  obtain ⟨⟨⟨⟩, s'⟩, h, hpaid⟩ := exists_of_returns hlarge
  rw [decide_eq_true_eq] at hpaid
  refine ⟨s, s', pool, hr, hp, h, ?_, fun m hratio => ?_⟩
  · rw [ratioTaken, tokenOptimal, hkmOptimal, hx, hy]
    decide +kernel
  · have hhkm := hratio.hkm
    have hlost : (s'.balanceOf (Sample.address 7)).toNat + 100 + s.baseFee.toNat =
      (s.balanceOf (Sample.address 7)).toNat := hpaid
    omega

end ChainState
