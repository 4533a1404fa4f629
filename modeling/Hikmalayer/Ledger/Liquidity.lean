/-
# The representation of pools and the value of a share

What every reachable pool satisfies, that the arithmetic of deposits, withdrawals and swaps
is exact on it, and that no operation takes value from the providers.
-/
import Mathlib.Tactic
import Hikmalayer.Ledger.Pools
import Hikmalayer.Model.Sample

open Outcome Exec OrderedMap

namespace ChainState

variable {E : Node} {s s' : ChainState} {tx : Transaction} {height : UInt64} {u : Unit}

/-! ## The representation invariant -/

/-- The pool of token `t` in a state: the shares are those of the providers and the locked
minimum, both sides are positive, and the shares are bounded by the mean of the reserves. -/
structure PoolInvariant (s : ChainState) (t : String) (pool : Pool) : Prop where
  totalShares : pool.totalShares.toNat = sumOf (mapAt s.lpShares t) + minimumLiquidity.toNat
  reserveHkm : 0 < pool.reserveHkm.toNat
  reserveToken : 0 < pool.reserveToken.toNat
  mean : pool.totalShares.toNat ^ 2 ≤ pool.reserveHkm.toNat * pool.reserveToken.toNat

theorem Reachable.poolInvariant (hE : E.saturation = .clamp) (h : Reachable E s) {t : String}
    {pool : Pool} (hp : s.pools[t]? = some pool) : PoolInvariant s t pool := by
  have hlive := (h.sound hE).pools.live t pool hp
  exact ⟨hlive.totalShares.symm, hlive.reserveHkm, hlive.reserveToken,
    h.meanBounded hE t pool hp⟩

theorem PoolInvariant.totalShares_pos {t : String} {pool : Pool} (h : PoolInvariant s t pool) :
    0 < pool.totalShares.toNat := by
  rw [h.totalShares]
  exact Nat.add_pos_right _ (by decide)

theorem PoolInvariant.held_le {t : String} {pool : Pool} (h : PoolInvariant s t pool)
    (account : String) : (s.lpSharesOf t account).toNat ≤ pool.totalShares.toNat := by
  rw [h.totalShares]
  exact (valueAt_le_sumOf _ account).trans (Nat.le_add_right _ _)

/-! ## Exact arithmetic -/

/-- A proportional part of a word fits a word. -/
theorem mulDiv_exact {shares total : UInt64} (reserve : UInt64) (hpos : 0 < total.toNat)
    (hle : shares.toNat ≤ total.toNat) :
    Word.mulDiv shares reserve total = some (shares.toNat * reserve.toNat / total.toNat) ∧
      (UInt64.ofNat (shares.toNat * reserve.toNat / total.toNat)).toNat =
        shares.toNat * reserve.toNat / total.toNat ∧
      shares.toNat * reserve.toNat / total.toNat ≤ reserve.toNat := by
  have hpart : shares.toNat * reserve.toNat / total.toNat ≤ reserve.toNat :=
    Nat.div_le_of_le_mul (Nat.mul_le_mul_right _ hle)
  exact ⟨Word.mulDiv_of_pos hpos,
    Word.toNat_ofNat_of_lt (hpart.trans_lt (Word.toNat_lt reserve)), hpart⟩

/-- The ratio of a pool with two sides is computed. -/
theorem ratioAmounts_ne_panicked {pool : Pool} (hx : 0 < pool.reserveHkm.toNat)
    (hy : 0 < pool.reserveToken.toNat) (action : AmmAction) :
    ratioAmounts pool action ≠ panicked := by
  unfold ratioAmounts
  rw [Word.mulDiv_of_pos hx, plain_some, ok_bind]
  split
  · intro h
    cases h
  · rw [Word.mulDiv_of_pos hy, plain_some, ok_bind]
    intro h
    cases h

/-- A quote for a pool with two sides is computed. -/
theorem laterQuote_ne_panicked {pool : Pool} (hx : 0 < pool.reserveHkm.toNat)
    (hy : 0 < pool.reserveToken.toNat) (action : AmmAction) :
    laterQuote pool action ≠ panicked := by
  unfold laterQuote
  intro h
  rcases Outcome.bind_eq_panicked.mp h with h | ⟨⟨useHkm, useToken⟩, -, h⟩
  · exact ratioAmounts_ne_panicked hx hy action h
  · rcases Outcome.bind_eq_panicked.mp h with h | ⟨_, -, h⟩
    · exact ensure_ne_panicked h
    · rw [Word.mulDiv_of_pos hx, plain_some, ok_bind, Word.mulDiv_of_pos hy, plain_some,
        ok_bind] at h
      cases h

/-- The first quote is computed: the product of two words leaves room for Newton's sum. -/
theorem firstQuote_ne_panicked (action : AmmAction) : firstQuote action ≠ panicked := by
  unfold firstQuote
  have hx := Word.toNat_lt action.amountHkm
  have hy := Word.toNat_lt action.amountToken
  have hprod : action.amountHkm.toNat * action.amountToken.toNat ≤
      (2 ^ 64 - 1) * (2 ^ 64 - 1) := Nat.mul_le_mul (by omega) (by omega)
  obtain ⟨root, hroot⟩ := isqrtU128_total (Nat.lt_of_le_of_lt hprod
    (by norm_num : (2 ^ 64 - 1) * (2 ^ 64 - 1) < 2 ^ 128))
  rw [wideSaturatingMul_words, hroot, ok_bind]
  intro h
  rcases Outcome.bind_eq_panicked.mp h with h | ⟨_, -, h⟩
  · exact ensure_ne_panicked h
  · cases h

/-- The shares a later provider mints fit a word: they are bounded by the mean of what is
deposited. -/
theorem laterQuote_exact {pool : Pool} {action : AmmAction} {q : AddQuote}
    (hx : 0 < pool.reserveHkm.toNat) (hy : 0 < pool.reserveToken.toNat)
    (ht : 0 < pool.totalShares.toNat) (hmean : MeanBounded pool)
    (h : laterQuote pool action = ok q) :
    q.minted.toNat =
      min (q.useHkm.toNat * pool.totalShares.toNat / pool.reserveHkm.toNat)
        (q.useToken.toNat * pool.totalShares.toNat / pool.reserveToken.toNat) := by
  rw [(laterQuote_minted h).1]
  set m := min (q.useHkm.toNat * pool.totalShares.toNat / pool.reserveHkm.toNat)
    (q.useToken.toNat * pool.totalShares.toNat / pool.reserveToken.toNat)
  have hmx : m * pool.reserveHkm.toNat ≤ q.useHkm.toNat * pool.totalShares.toNat :=
    (Nat.mul_le_mul_right _ (min_le_left _ _)).trans (ConstantProduct.floor_mul_le _ _ _)
  have hmy : m * pool.reserveToken.toNat ≤ q.useToken.toNat * pool.totalShares.toNat :=
    (Nat.mul_le_mul_right _ (min_le_right _ _)).trans (ConstantProduct.floor_mul_le _ _ _)
  have hsq : m ^ 2 ≤ q.useHkm.toNat * q.useToken.toNat :=
    ConstantProduct.minted_sq_le ht hmean hmx hmy
  have hfit : q.useHkm.toNat * q.useToken.toNat < 2 ^ 64 * 2 ^ 64 :=
    Nat.mul_lt_mul'' (Word.toNat_lt _) (Word.toNat_lt _)
  exact Word.toNat_ofNat_of_lt (by nlinarith)

/-- What the operations compute on a pool: nothing divides by zero or leaves 128 bits, minted
shares and payouts keep their value when cast to 64 bits, and a swap leaves both sides. -/
structure ExactOn (s : ChainState) (t : String) (pool : Pool) : Prop where
  deposit : ∀ action, addQuote pool action ≠ panicked
  minted : ∀ action q, addQuote pool action = ok q →
    q.minted.toNat =
      min (q.useHkm.toNat * pool.totalShares.toNat / pool.reserveHkm.toNat)
        (q.useToken.toNat * pool.totalShares.toNat / pool.reserveToken.toNat)
  withdrawal : ∀ (account : String) (shares : UInt64), shares ≤ s.lpSharesOf t account →
    ∀ reserve ∈ [pool.reserveHkm, pool.reserveToken],
      Word.mulDiv shares reserve pool.totalShares =
          some (shares.toNat * reserve.toNat / pool.totalShares.toNat) ∧
        (UInt64.ofNat (shares.toNat * reserve.toNat / pool.totalShares.toNat)).toNat =
          shares.toNat * reserve.toNat / pool.totalShares.toNat
  swap : ∀ sides ∈ [(pool.reserveHkm, pool.reserveToken), (pool.reserveToken, pool.reserveHkm)],
    ∀ amountIn, swapOutput sides.1 sides.2 amountIn ≠ panicked ∧
      ∀ out, swapOutput sides.1 sides.2 amountIn = ok out →
        out.toNat = ConstantProduct.output 9970 10000 sides.1.toNat sides.2.toNat
          amountIn.toNat ∧ out.toNat < sides.2.toNat

/-- The output of a swap between two positive sides is exact. -/
theorem swapOutput_exact {reserveIn reserveOut : UInt64} (hin : 0 < reserveIn.toNat)
    (hout : 0 < reserveOut.toNat) (amountIn : UInt64) :
    swapOutput reserveIn reserveOut amountIn ≠ panicked ∧
      ∀ out, swapOutput reserveIn reserveOut amountIn = ok out →
        out.toNat = ConstantProduct.output 9970 10000 reserveIn.toNat reserveOut.toNat
          amountIn.toNat ∧ out.toNat < reserveOut.toNat := by
  obtain ⟨hval, hlt⟩ := swapOutput_eq amountIn hin hout
  rcases hval with hval | ⟨e, herr⟩
  · rw [hval]
    refine ⟨fun h => (by cases h), fun out h => ?_⟩
    rw [ok.injEq] at h
    rw [← h, Word.toNat_ofNat_of_lt (hlt.trans (Word.toNat_lt reserveOut))]
    exact ⟨rfl, hlt⟩
  · rw [herr]
    exact ⟨fun h => (by cases h), fun out h => (by cases h)⟩

/-- The invariant of a pool makes the arithmetic on it exact. -/
theorem PoolInvariant.exactOn {t : String} {pool : Pool} (h : PoolInvariant s t pool) :
    ExactOn s t pool := by
  have hshares : pool.totalShares ≠ 0 := fun h0 => by
    have hpos := h.totalShares_pos
    rw [h0] at hpos
    exact absurd hpos (by decide)
  have hquote : ∀ action, addQuote pool action = laterQuote pool action := fun action => by
    unfold addQuote
    exact if_neg hshares
  constructor
  case deposit =>
    intro action
    rw [hquote]
    exact laterQuote_ne_panicked h.reserveHkm h.reserveToken action
  case minted =>
    intro action q hq
    rw [hquote] at hq
    exact laterQuote_exact h.reserveHkm h.reserveToken h.totalShares_pos h.mean hq
  case withdrawal =>
    intro account shares hle reserve _
    have hheld : shares.toNat ≤ pool.totalShares.toNat :=
      (UInt64.le_iff_toNat_le.mp hle).trans (h.held_le account)
    obtain ⟨hdiv, hcast, -⟩ := mulDiv_exact reserve h.totalShares_pos hheld
    exact ⟨hdiv, hcast⟩
  case swap =>
    intro sides hsides amountIn
    rcases List.mem_pair.mp hsides with rfl | rfl
    · exact swapOutput_exact h.reserveHkm h.reserveToken amountIn
    · exact swapOutput_exact h.reserveToken h.reserveHkm amountIn

/-! ## The checks of the three operations -/

theorem addQuote_empty (action : AmmAction) : addQuote .empty action = firstQuote action := rfl

theorem addLiquidityChecks_ne_panicked
    (hpools : ∀ (t : String) (pool : Pool), s.pools[t]? = some pool → PoolInvariant s t pool)
    (tx : Transaction) : addLiquidityChecks tx s ≠ panicked := by
  intro h
  simp only [addLiquidityChecks, Outcome.bind_eq_panicked, okOr_ne_panicked, ensure_ne_panicked,
    false_or, pure_eq] at h
  obtain ⟨sender, -, action, -, _, -, h⟩ := h
  rcases h with h | ⟨quote, -, _, -, h⟩
  · cases hp : s.pools[action.tokenId]? with
    | none =>
      rw [hp, Option.getD_none, addQuote_empty] at h
      exact firstQuote_ne_panicked action h
    | some pool =>
      rw [hp] at h
      exact (hpools _ pool hp).exactOn.deposit action h
  · cases h

theorem removeLiquidityChecks_ne_panicked
    (hpools : ∀ (t : String) (pool : Pool), s.pools[t]? = some pool → PoolInvariant s t pool)
    (tx : Transaction) : removeLiquidityChecks tx s ≠ panicked := by
  intro h
  simp only [removeLiquidityChecks, Outcome.bind_eq_panicked, okOr_ne_panicked, ensure_ne_panicked,
    false_or, pure_eq, okOr_eq_ok, ensure_eq_ok] at h
  obtain ⟨sender, -, action, -, pool, hp, _, hheld, h⟩ := h
  have hexact := (hpools _ pool hp).exactOn.withdrawal sender action.shares (UInt64.not_lt.mp hheld)
  rw [(hexact pool.reserveHkm (by simp)).1, (hexact pool.reserveToken (by simp)).1] at h
  simp at h

theorem swapChecks_ne_panicked
    (hpools : ∀ (t : String) (pool : Pool), s.pools[t]? = some pool → PoolInvariant s t pool)
    (tx : Transaction) : swapChecks tx s ≠ panicked := by
  intro h
  simp only [swapChecks, Outcome.bind_eq_panicked, okOr_ne_panicked, ensure_ne_panicked,
    false_or, pure_eq, okOr_eq_ok] at h
  obtain ⟨sender, -, action, -, pool, hp, _, -, h⟩ := h
  have hexact := (hpools _ pool hp).exactOn.swap
  rcases h with h | ⟨amountOut, -, _, -, _, -, h⟩
  · by_cases hd : action.hkmToToken = true
    · simp only [if_pos hd] at h
      exact (hexact _ (List.mem_pair.mpr (Or.inl rfl)) action.amountIn).1 h
    · simp only [if_neg hd] at h
      exact (hexact _ (List.mem_pair.mpr (Or.inr rfl)) action.amountIn).1 h
  · cases h

/-! ## The value of a share over runs -/

/-- A step keeps every pool and the value of its shares. -/
theorem Step.valueKept (hs : Sound s) (h : Step E s s') {t : String} {old : Pool}
    (hp : s.pools[t]? = some old) :
    ∃ new, s'.pools[t]? = some new ∧ ValueKept old new := by
  rcases h.pools hs t with hsame | ⟨new, hnew, hstep⟩
  · exact ⟨old, hsame.trans hp, Nat.le_refl _⟩
  · rw [hp] at hstep
    exact ⟨new, hnew, hstep.valueKept⟩

theorem ValueKept.trans {a b c : Pool} (hb : 0 < b.totalShares.toNat) (h₁ : ValueKept a b)
    (h₂ : ValueKept b c) : ValueKept a c := by
  have hpos : 0 < b.totalShares.toNat ^ 2 := Nat.pow_pos hb
  refine Nat.le_of_mul_le_mul_right ?_ hpos
  calc a.reserveHkm.toNat * a.reserveToken.toNat * c.totalShares.toNat ^ 2 *
        b.totalShares.toNat ^ 2
      = a.reserveHkm.toNat * a.reserveToken.toNat * b.totalShares.toNat ^ 2 *
          c.totalShares.toNat ^ 2 := by ring
    _ ≤ b.reserveHkm.toNat * b.reserveToken.toNat * a.totalShares.toNat ^ 2 *
          c.totalShares.toNat ^ 2 := Nat.mul_le_mul_right _ h₁
    _ = b.reserveHkm.toNat * b.reserveToken.toNat * c.totalShares.toNat ^ 2 *
          a.totalShares.toNat ^ 2 := by ring
    _ ≤ c.reserveHkm.toNat * c.reserveToken.toNat * b.totalShares.toNat ^ 2 *
          a.totalShares.toNat ^ 2 := Nat.mul_le_mul_right _ h₂
    _ = c.reserveHkm.toNat * c.reserveToken.toNat * a.totalShares.toNat ^ 2 *
          b.totalShares.toNat ^ 2 := by ring

theorem Reachable.run (h : Reachable E s) (hrun : Relation.ReflTransGen (Step E) s s') :
    Reachable E s' := by
  induction hrun with
  | refl => exact h
  | tail _ hstep ih => exact ih.step hstep

/-- A run keeps every pool and the value of its shares. -/
theorem Reachable.valueKept (hE : E.saturation = .clamp) (h : Reachable E s)
    (hrun : Relation.ReflTransGen (Step E) s s') {t : String} {old : Pool}
    (hp : s.pools[t]? = some old) :
    ∃ new, s'.pools[t]? = some new ∧ ValueKept old new := by
  induction hrun with
  | refl => exact ⟨old, hp, Nat.le_refl _⟩
  | tail hprefix hstep ih =>
    obtain ⟨mid, hmid, hkept⟩ := ih
    have hr := h.run hprefix
    obtain ⟨new, hnew, hkept'⟩ := hstep.valueKept (hr.sound hE) hmid
    exact ⟨new, hnew, hkept.trans (hr.poolInvariant hE hmid).totalShares_pos hkept'⟩

/-! ## A deposit taken back -/

/-- Account `a` put `dx` HKM and `dy` tokens into the pool of `t`, paid the fee, and was
minted `m` shares, worth at most what it put in. -/
structure Deposited (s s' : ChainState) (a t : String) (dx dy m : ℕ) : Prop where
  hkm : (valueAt s.balances a).toNat = (valueAt s'.balances a).toNat + dx + s.baseFee.toNat
  token : (valueAt (mapAt s.tokenBalances t) a).toNat =
    (valueAt (mapAt s'.tokenBalances t) a).toNat + dy
  shares : (s'.lpSharesOf t a).toNat = (s.lpSharesOf t a).toNat + m
  pool : ∃ new, s'.pools[t]? = some new ∧ m * new.reserveHkm.toNat ≤ dx * new.totalShares.toNat ∧
    m * new.reserveToken.toNat ≤ dy * new.totalShares.toNat

/-- Account `a` burned `m` shares of the pool of `t` for at most their part of each side, and
paid the fee. -/
structure Withdrawn (s s' : ChainState) (a t : String) (m px py : ℕ) : Prop where
  shares : (s'.lpSharesOf t a).toNat + m = (s.lpSharesOf t a).toNat
  hkm : (valueAt s'.balances a).toNat + s.baseFee.toNat ≤ (valueAt s.balances a).toNat + px
  token : (valueAt (mapAt s'.tokenBalances t) a).toNat ≤
    (valueAt (mapAt s.tokenBalances t) a).toNat + py
  pool : ∃ old new, s.pools[t]? = some old ∧ s'.pools[t]? = some new ∧
    new.reserveHkm.toNat + px = old.reserveHkm.toNat ∧
    new.reserveToken.toNat + py = old.reserveToken.toNat ∧
    px * old.totalShares.toNat ≤ m * old.reserveHkm.toNat ∧
    py * old.totalShares.toNat ≤ m * old.reserveToken.toNat ∧ 0 < old.totalShares.toNat

/-- What was paid for the shares just minted is at most what was deposited. -/
theorem Deposited.withdrawn_le {s₁ s₂ : ChainState} {a t : String} {dx dy m px py : ℕ}
    (hin : Deposited s s₁ a t dx dy m) (hout : Withdrawn s₁ s₂ a t m px py) :
    px ≤ dx ∧ py ≤ dy := by
  obtain ⟨new, hnew, hx, hy⟩ := hin.pool
  obtain ⟨old, _, hold, -, -, -, hpx, hpy, hpos⟩ := hout.pool
  rw [hnew, Option.some.injEq] at hold
  subst hold
  exact ⟨Nat.le_of_mul_le_mul_right (hpx.trans hx) hpos,
    Nat.le_of_mul_le_mul_right (hpy.trans hy) hpos⟩

/-- A quote mints at most in proportion to the pool it is for, an empty one included. -/
theorem addQuote_proportional (hs : Sound s) {t : String} {action : AmmAction} {q : AddQuote}
    (hq : addQuote (s.pools[t]?.getD .empty) action = ok q) :
    q.minted.toNat * (s.poolOrNew t).reserveHkm.toNat ≤
        q.useHkm.toNat * (s.poolOrNew t).totalShares.toNat ∧
      q.minted.toNat * (s.poolOrNew t).reserveToken.toNat ≤
        q.useToken.toNat * (s.poolOrNew t).totalShares.toNat := by
  unfold poolOrNew
  cases hp : s.pools[t]? with
  | none => exact ⟨Nat.zero_le _, Nat.zero_le _⟩
  | some pool =>
    have hne : pool.totalShares ≠ 0 := fun h0 => by
      have hnone := hs.no_pool_of_no_shares (t := t) (by rw [hp]; exact h0)
      rw [hp] at hnone
      cases hnone
    rw [hp, Option.getD_some, addQuote, if_neg hne] at hq
    exact (laterQuote_minted hq).2

/-- Shares minted in proportion, with what the pool takes added on, are worth what was put
in. -/
theorem minted_worth {x d t m extra x' t' : ℕ} (h : m * x ≤ d * t) (hx : x' = x + d)
    (ht : t' = t + (m + extra)) : m * x' ≤ d * t' := by
  rw [hx, ht]
  nlinarith

/-- An applied addition deposits what its quote takes. -/
theorem applyAddLiquidity_deposited (hs : Sound s) {a : String}
    (hsender : tx.sender = some a) (ha : isValidAddress a = true)
    (h : applyAddLiquidity E tx s = ok (u, s')) :
    ∃ action dx dy m, tx.amm = some action ∧ Deposited s s' a action.tokenId dx dy m := by
  obtain ⟨r, hc, -, he⟩ := guarded_eq_ok.mp h
  obtain ⟨action, hr, hamm, htoken, -, -, hq⟩ := addLiquidityChecks_ok hc
  rw [hsender, Option.some.injEq] at hr
  obtain ⟨rest, pot, custody, left, inPool, reserveHkm, reserveToken, totalShares, holding, holders,
    hrest, -, -, hleft, rfl, -, hrh, hrt, hts, hhold, rfl⟩ := addLiquidityEffects_ok he
  have hprop := addQuote_proportional hs hq
  have hne : ammPoolAccount ≠ a := (ne_ammPool ha).symm
  rw [← hr] at hrest hleft hhold
  refine ⟨action, r.quote.useHkm.toNat, r.quote.useToken.toNat, r.quote.minted.toNat, hamm, ?_⟩
  rw [← htoken, ← hr]
  constructor
  case hkm =>
    show (valueAt s.balances a).toNat =
      (valueAt ((s.balances.insert a rest).insert ammPoolAccount custody) a).toNat +
        r.quote.useHkm.toNat + s.baseFee.toNat
    rw [valueAt_insert_of_ne _ hne, valueAt_insert_self, Nat.add_assoc]
    exact hrest.symm
  case token =>
    show (valueAt (mapAt s.tokenBalances r.tokenId) a).toNat =
      (valueAt (mapAt (s.tokenBalances.insert r.tokenId _) r.tokenId) a).toNat +
        r.quote.useToken.toNat
    rw [mapAt_insert, if_pos rfl, valueAt_insert_of_ne _ hne, valueAt_writeOrRemove, if_pos rfl]
    exact hleft.symm
  case shares =>
    show (valueAt (mapAt (s.lpShares.insert r.tokenId _) r.tokenId) a).toNat = _
    rw [mapAt_insert, if_pos rfl, valueAt_insert_self]
    exact hhold
  case pool =>
    refine ⟨grownPool (s.poolOrNew r.tokenId) reserveHkm reserveToken totalShares,
      lookup_insert_self _ _ _, ?_, ?_⟩
    · exact minted_worth hprop.1 hrh hts
    · exact minted_worth hprop.2 hrt hts

/-- An applied removal pays at most the part of the shares it burns. -/
theorem applyRemoveLiquidity_withdrawn {a : String}
    (hsender : tx.sender = some a) (ha : isValidAddress a = true)
    (h : applyRemoveLiquidity E tx s = ok (u, s')) :
    ∃ action px py, tx.amm = some action ∧
      Withdrawn s s' a action.tokenId action.shares.toNat px py := by
  obtain ⟨r, hc, -, he⟩ := guarded_eq_ok.mp h
  obtain ⟨action, pool, hr, hamm, htoken, hshares, hp, -, hpos, hhkm, htok, -, -⟩ :=
    removeLiquidityChecks_ok hc
  rw [hsender, Option.some.injEq] at hr
  obtain ⟨rest, pot, left, custody, balance, inPool, held, reserveHkm, reserveToken, totalShares,
    holders, pool', hrest, -, hleft, -, hbal, -, rfl, hheld, hp', h₁, h₂, -, rfl⟩ :=
    removeLiquidityEffects_ok he
  have hpool : pool' = pool := by
    rw [setNonce_pools, hp, Option.some.injEq] at hp'
    exact hp'.symm
  subst hpool
  have hne : ammPoolAccount ≠ a := (ne_ammPool ha).symm
  rw [← hr] at hrest hleft hbal hheld
  refine ⟨action, r.amountHkm.toNat, r.amountToken.toNat, hamm, ?_⟩
  rw [← htoken, ← hr, ← hshares]
  have hfloor : ∀ n : UInt64,
      (UInt64.ofNat (r.shares.toNat * n.toNat / pool'.totalShares.toNat)).toNat *
        pool'.totalShares.toNat ≤ r.shares.toNat * n.toNat := by
    intro n
    rw [UInt64.toNat_ofNat']
    exact (Nat.mul_le_mul_right _ (Nat.mod_le _ _)).trans (ConstantProduct.floor_mul_le _ _ _)
  constructor
  case shares =>
    show (valueAt (mapAt (s.lpShares.insert r.tokenId _) r.tokenId) a).toNat + r.shares.toNat = _
    rw [mapAt_insert, if_pos rfl, valueAt_writeOrRemove, if_pos rfl]
    exact hleft
  case hkm =>
    have hgrow := Word.Saturation.add_le hbal
    rw [valueAt_insert_of_ne _ hne, valueAt_insert_self] at hgrow
    change rest.toNat + s.baseFee.toNat = (valueAt s.balances a).toNat at hrest
    show (valueAt (((s.balances.insert a rest).insert ammPoolAccount custody).insert a balance)
      a).toNat + s.baseFee.toNat ≤ (valueAt s.balances a).toNat + r.amountHkm.toNat
    rw [valueAt_insert_self]
    omega
  case token =>
    have hgrow := Word.Saturation.add_le hheld
    rw [valueAt_writeOrRemove, if_neg hne] at hgrow
    show (valueAt (mapAt (s.tokenBalances.insert r.tokenId _) r.tokenId) a).toNat ≤
      (valueAt (mapAt s.tokenBalances r.tokenId) a).toNat + r.amountToken.toNat
    rw [mapAt_insert, if_pos rfl, valueAt_insert_self]
    exact hgrow
  case pool =>
    refine ⟨pool', grownPool pool' reserveHkm reserveToken totalShares, hp,
      lookup_insert_self _ _ _, h₁, h₂, ?_, ?_, hpos⟩
    · rw [hhkm]
      exact hfloor _
    · rw [htok]
      exact hfloor _

/-- The type of a transaction decides which branch applies it. -/
theorem applyVerified_addLiquidity (ht : tx.transactionType = .addLiquidity)
    (h : applyVerified E tx height s = ok (u, s')) : applyAddLiquidity E tx s = ok (u, s') := by
  simp only [applyVerified, Exec.bind_eq_ok, read_eq_ok] at h
  obtain ⟨_, _, ⟨-, rfl⟩, _, _, ⟨-, rfl⟩, h⟩ := h
  simpa only [applyBranch, ht] using h

theorem applyVerified_removeLiquidity (ht : tx.transactionType = .removeLiquidity)
    (h : applyVerified E tx height s = ok (u, s')) :
    applyRemoveLiquidity E tx s = ok (u, s') := by
  simp only [applyVerified, Exec.bind_eq_ok, read_eq_ok] at h
  obtain ⟨_, _, ⟨-, rfl⟩, _, _, ⟨-, rfl⟩, h⟩ := h
  simpa only [applyBranch, ht] using h

/-! ## A sample run -/

/-- The treasury of a genesis creates a token, opens its pool and takes the liquidity back. -/
theorem poolRun_sample :
    ∃ s s₁ s₂, Reachable (Sample.node []) s ∧
      applyVerified (Sample.node []) Sample.deposit 1 s = ok ((), s₁) ∧
      (s.lpSharesOf Sample.tokenId (Sample.address 7)).toNat + 1999000 =
        (s₁.lpSharesOf Sample.tokenId (Sample.address 7)).toNat ∧
      applyVerified (Sample.node []) Sample.withdrawal 1 s₁ = ok ((), s₂) := by
  have hrun : (applyVerified (Sample.node []) Sample.tokenCreation 1
      (Sample.genesis 1000000000000000)).returns (fun r =>
        (applyVerified (Sample.node []) Sample.deposit 1 r.2).returns fun r₁ =>
          decide ((r.2.lpSharesOf Sample.tokenId (Sample.address 7)).toNat + 1999000 =
            (r₁.2.lpSharesOf Sample.tokenId (Sample.address 7)).toNat) &&
          (applyVerified (Sample.node []) Sample.withdrawal 1 r₁.2).returns fun _ => true) =
      true := by decide +kernel
  obtain ⟨⟨⟨⟩, s⟩, h₀, hrun⟩ := exists_of_returns hrun
  obtain ⟨⟨⟨⟩, s₁⟩, h₁, hrun⟩ := exists_of_returns hrun
  rw [Bool.and_eq_true, decide_eq_true_eq] at hrun
  obtain ⟨hshares, hrun⟩ := hrun
  obtain ⟨⟨⟨⟩, s₂⟩, h₂, -⟩ := exists_of_returns hrun
  have hreach : Reachable (Sample.node []) s :=
    (Reachable.genesis (.built defaultChainId (Sample.address 7) _ _ [] Sample.address_valid)).step
      (.apply Sample.address_valid (by decide +kernel) h₀)
  exact ⟨s, s₁, s₂, hreach, h₁, hshares, h₂⟩

/-! ## Main results -/

/-- Every reachable pool satisfies its representation invariant, on which the arithmetic of
the operations is exact; the first deposit mints the root less the locked minimum; and the
checks of no deposit, withdrawal or swap panic. -/
theorem pool_representation (hE : E.saturation = .clamp) (h : Reachable E s) :
    (∀ (t : String) (pool : Pool), s.pools[t]? = some pool →
      PoolInvariant s t pool ∧ ExactOn s t pool) ∧
    (∀ action q, addQuote .empty action = ok q →
      isqrtU128 (action.amountHkm.toNat * action.amountToken.toNat) =
        ok (q.minted.toNat + minimumLiquidity.toNat)) ∧
    ∀ tx, addLiquidityChecks tx s ≠ panicked ∧ removeLiquidityChecks tx s ≠ panicked ∧
      swapChecks tx s ≠ panicked := by
  have hpools : ∀ (t : String) (pool : Pool), s.pools[t]? = some pool → PoolInvariant s t pool :=
    fun t pool hp => h.poolInvariant hE hp
  refine ⟨fun t pool hp => ⟨hpools t pool hp, (hpools t pool hp).exactOn⟩, ?_, ?_⟩
  · intro action q hq
    rw [addQuote_empty] at hq
    obtain ⟨root, hroot, -, -, hminted, -⟩ := firstQuote_root hq
    rw [hroot, hminted]
  · intro tx
    exact ⟨addLiquidityChecks_ne_panicked hpools tx, removeLiquidityChecks_ne_panicked hpools tx,
      swapChecks_ne_panicked hpools tx⟩

/-- The pool that the treasury of a genesis opens. -/
theorem pool_representation_sample :
    ∃ s pool, Reachable (Sample.node []) s ∧ s.pools[Sample.tokenId]? = some pool ∧
      PoolInvariant s Sample.tokenId pool ∧ ExactOn s Sample.tokenId pool := by
  obtain ⟨s, s₁, s₂, hreach, h₁, hshares, -⟩ := poolRun_sample
  have hreach₁ := hreach.step (.apply Sample.address_valid (by decide +kernel) h₁)
  obtain ⟨_, _, _, _, hamm, hin⟩ := applyAddLiquidity_deposited (hreach.sound rfl) rfl
    Sample.address_valid (applyVerified_addLiquidity rfl h₁)
  obtain ⟨pool, hp, -⟩ := hin.pool
  cases hamm
  exact ⟨s₁, pool, hreach₁, hp, (pool_representation rfl hreach₁).1 Sample.tokenId pool hp⟩

/-- No run takes value from the shares of a pool; and an account whose addition is applied and
that then removes exactly the shares it was minted is paid, on each side, at most what it
deposited. -/
theorem share_value_kept (hE : E.saturation = .clamp) (h : Reachable E s) :
    (∀ s', Relation.ReflTransGen (Step E) s s' → ∀ (t : String) (old : Pool),
      s.pools[t]? = some old → ∃ new, s'.pools[t]? = some new ∧ ValueKept old new) ∧
    ∀ (tx tx' : Transaction) (height height' : UInt64) (validator : String) (s₁ s₂ : ChainState)
      (a : String) (action action' : AmmAction),
      tx.verifyForBlock E validator = ok () →
      tx.transactionType = .addLiquidity → tx.sender = some a → tx.amm = some action →
      tx'.transactionType = .removeLiquidity → tx'.sender = some a → tx'.amm = some action' →
      applyVerified E tx height s = ok ((), s₁) → applyVerified E tx' height' s₁ = ok ((), s₂) →
      action'.tokenId = action.tokenId →
      (s.lpSharesOf action.tokenId a).toNat + action'.shares.toNat =
        (s₁.lpSharesOf action.tokenId a).toNat →
      ∃ dx dy px py, Deposited s s₁ a action.tokenId dx dy action'.shares.toNat ∧
        Withdrawn s₁ s₂ a action.tokenId action'.shares.toNat px py ∧ px ≤ dx ∧ py ≤ dy := by
  refine ⟨fun s' hrun t old hp => h.valueKept hE hrun hp, ?_⟩
  intro tx tx' height height' validator s₁ s₂ a action action' hver ht hs₁ hamm ht' hs₂ hamm' h₁
    h₂ htoken hshares
  have hvalid : isValidAddress a = true :=
    Transaction.sender_valid hver (by simp [ht]) (by simp [ht]) a hs₁
  have hsound := h.sound hE
  obtain ⟨_, dx, dy, m, hact, hin⟩ :=
    applyAddLiquidity_deposited hsound hs₁ hvalid (applyVerified_addLiquidity ht h₁)
  obtain ⟨_, px, py, hact', hout⟩ :=
    applyRemoveLiquidity_withdrawn hs₂ hvalid (applyVerified_removeLiquidity ht' h₂)
  rw [hamm, Option.some.injEq] at hact
  rw [hamm', Option.some.injEq] at hact'
  subst hact hact'
  have hm : m = action'.shares.toNat := by
    have := hin.shares
    omega
  subst hm
  rw [htoken] at hout
  exact ⟨dx, dy, px, py, hin, hout, hin.withdrawn_le hout⟩

/-- The treasury of a genesis creates a token, opens its pool and takes the liquidity back. -/
theorem share_value_kept_sample :
    ∃ s s₁ s₂ dx dy px py, Reachable (Sample.node []) s ∧
      Deposited s s₁ (Sample.address 7) Sample.tokenId dx dy 1999000 ∧
      Withdrawn s₁ s₂ (Sample.address 7) Sample.tokenId 1999000 px py ∧ px ≤ dx ∧ py ≤ dy := by
  obtain ⟨s, s₁, s₂, hreach, h₁, hshares, h₂⟩ := poolRun_sample
  obtain ⟨dx, dy, px, py, hin, hout, hle⟩ := (share_value_kept rfl hreach).2 Sample.deposit
    Sample.withdrawal 1 1 (Sample.address 7) s₁ s₂ (Sample.address 7) _ _ (by decide +kernel) rfl
    rfl rfl rfl rfl rfl h₁ h₂ rfl hshares
  exact ⟨s, s₁, s₂, dx, dy, px, py, hreach, hin, hout, hle⟩

end ChainState
