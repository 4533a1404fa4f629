/-
# What the operations do to a pool

Every operation on a pool is an opening, a deposit, a withdrawal or a swap (`PoolStep`), with
the rounding of the code as inequalities.  From them: the square of the shares is bounded by
the product of the reserves, and the value of a share never falls.
-/
import Mathlib.Tactic
import Hikmalayer.Foundations.ConstantProduct
import Hikmalayer.Ledger.Roots
import Hikmalayer.Ledger.Runs
import Hikmalayer.Ledger.Frames

open Outcome Exec OrderedMap

namespace ChainState

/-! ## Quotes -/

/-- The product of two words fits 128 bits. -/
theorem wideSaturatingMul_words (a b : UInt64) :
    Word.wideSaturatingMul a.toNat b.toNat = a.toNat * b.toNat := by
  have h := Word.mul_lt_wide (Word.toNat_lt a) (Word.toNat_lt b)
  rw [Word.wideSaturatingMul]
  omega

/-- The first provider mints the root of the product, less the locked minimum, and the root
fits a word. -/
theorem firstQuote_root {action : AmmAction} {q : AddQuote} (h : firstQuote action = ok q) :
    ∃ root, isqrtU128 (action.amountHkm.toNat * action.amountToken.toNat) = ok root ∧
      q.useHkm = action.amountHkm ∧ q.useToken = action.amountToken ∧
      q.minted.toNat + minimumLiquidity.toNat = root ∧
      root ^ 2 ≤ q.useHkm.toNat * q.useToken.toNat := by
  simp only [firstQuote, wideSaturatingMul_words, Outcome.bind_eq_ok, ensure_eq_ok, pure_eq,
    ok.injEq, not_le] at h
  obtain ⟨root, hroot, _, hmin, rfl⟩ := h
  have hsq := isqrtU128_sq_le hroot
  have hlt : root < 2 ^ 64 := by
    have hprod := Nat.mul_lt_mul'' (Word.toNat_lt action.amountHkm)
      (Word.toNat_lt action.amountToken)
    nlinarith
  refine ⟨root, hroot, rfl, rfl, ?_, hsq⟩
  rw [Word.toNat_ofNat_of_lt (by omega)]
  omega

/-- Later providers mint at most in proportion to what the pool takes of each side. -/
theorem laterQuote_minted {pool : Pool} {action : AmmAction} {q : AddQuote}
    (h : laterQuote pool action = ok q) :
    q.minted = UInt64.ofNat
        (min (q.useHkm.toNat * pool.totalShares.toNat / pool.reserveHkm.toNat)
          (q.useToken.toNat * pool.totalShares.toNat / pool.reserveToken.toNat)) ∧
      q.minted.toNat * pool.reserveHkm.toNat ≤ q.useHkm.toNat * pool.totalShares.toNat ∧
      q.minted.toNat * pool.reserveToken.toNat ≤ q.useToken.toNat * pool.totalShares.toNat := by
  simp only [laterQuote, Outcome.bind_eq_ok, ensure_eq_ok, plain_eq_ok, pure_eq, ok.injEq,
    Prod.exists, Word.mulDiv_eq_some] at h
  obtain ⟨useHkm, useToken, -, _, -, sharesHkm, ⟨rfl, -⟩, sharesToken, ⟨rfl, -⟩, rfl⟩ := h
  have hcast : ∀ a : ℕ, (UInt64.ofNat a).toNat ≤ a := fun a => by
    rw [UInt64.toNat_ofNat']
    exact Nat.mod_le _ _
  refine ⟨rfl, ?_, ?_⟩
  · calc (UInt64.ofNat _).toNat * pool.reserveHkm.toNat
        ≤ useHkm.toNat * pool.totalShares.toNat / pool.reserveHkm.toNat * pool.reserveHkm.toNat :=
          Nat.mul_le_mul_right _ ((hcast _).trans (min_le_left _ _))
      _ ≤ useHkm.toNat * pool.totalShares.toNat := ConstantProduct.floor_mul_le _ _ _
  · calc (UInt64.ofNat _).toNat * pool.reserveToken.toNat
        ≤ useToken.toNat * pool.totalShares.toNat / pool.reserveToken.toNat *
            pool.reserveToken.toNat :=
          Nat.mul_le_mul_right _ ((hcast _).trans (min_le_right _ _))
      _ ≤ useToken.toNat * pool.totalShares.toNat := ConstantProduct.floor_mul_le _ _ _

/-- The output of a swap follows the product rule, in words. -/
theorem swapOutput_eq {reserveIn reserveOut : UInt64} (amountIn : UInt64)
    (hin : 0 < reserveIn.toNat) (hout : 0 < reserveOut.toNat) :
    (swapOutput reserveIn reserveOut amountIn = ok (UInt64.ofNat
        (ConstantProduct.output 9970 10000 reserveIn.toNat reserveOut.toNat amountIn.toNat)) ∨
      ∃ e, swapOutput reserveIn reserveOut amountIn = err e) ∧
    ConstantProduct.output 9970 10000 reserveIn.toNat reserveOut.toNat amountIn.toNat <
      reserveOut.toNat := by
  have hnum : Word.checkedSub ammFeeDenom swapFeeBps = some 9970 := rfl
  have h9970 : (9970 : UInt64).toNat = 9970 := rfl
  have hden : ammFeeDenom.toNat = 10000 := rfl
  constructor
  swap
  · exact ConstantProduct.output_lt hin hout (by norm_num)
  have hscaled : reserveIn.toNat * 10000 + amountIn.toNat * 9970 < 2 ^ 128 := by
    have := Word.toNat_lt reserveIn
    have := Word.toNat_lt amountIn
    omega
  have hside : reserveIn.toNat * 10000 < 2 ^ 128 :=
    Nat.lt_of_le_of_lt (Nat.le_add_right _ _) hscaled
  have hpos : 0 < reserveIn.toNat * 10000 + amountIn.toNat * 9970 :=
    Nat.add_pos_left (Nat.mul_pos hin (by norm_num)) _
  unfold swapOutput
  rw [hnum, plain_some, ok_bind, h9970, hden]
  by_cases h₁ : amountIn.toNat * 9970 < 2 ^ 128
  · by_cases h₂ : amountIn.toNat * 9970 * reserveOut.toNat < 2 ^ 128
    · left
      rw [Word.wideMul_of_lt h₁, okOr_some, ok_bind, Word.wideMul_of_lt h₂, okOr_some, ok_bind,
        Word.wideMul_of_lt hside, okOr_some, ok_bind, Word.wideAdd_of_lt hscaled, plain_some,
        ok_bind, Word.wideDiv_of_pos hpos, plain_some, ok_bind, pure_eq,
        ConstantProduct.output]
    · right
      exact ⟨_, by
        rw [Word.wideMul_of_lt h₁, okOr_some, ok_bind, Word.wideMul, if_neg h₂, okOr_none,
          err_bind]⟩
  · right
    exact ⟨_, by rw [Word.wideMul, if_neg h₁, okOr_none, err_bind]⟩

/-! ## Steps of a pool -/

/-- One operation on the pool of a token: what it was, and what it becomes. -/
inductive PoolStep : Option Pool → Pool → Prop
  | opened {new : Pool}
      (hmean : new.totalShares.toNat ^ 2 ≤ new.reserveHkm.toNat * new.reserveToken.toNat) :
      PoolStep none new
  | deposit {old new : Pool} {dx dy m : ℕ}
      (hx : new.reserveHkm.toNat = old.reserveHkm.toNat + dx)
      (hy : new.reserveToken.toNat = old.reserveToken.toNat + dy)
      (ht : new.totalShares.toNat = old.totalShares.toNat + m)
      (hmx : m * old.reserveHkm.toNat ≤ dx * old.totalShares.toNat)
      (hmy : m * old.reserveToken.toNat ≤ dy * old.totalShares.toNat) : PoolStep (some old) new
  | withdraw {old new : Pool} {a b shares : ℕ}
      (hx : new.reserveHkm.toNat + a = old.reserveHkm.toNat)
      (hy : new.reserveToken.toNat + b = old.reserveToken.toNat)
      (ht : new.totalShares.toNat + shares = old.totalShares.toNat)
      (hax : a * old.totalShares.toNat ≤ shares * old.reserveHkm.toNat)
      (hby : b * old.totalShares.toNat ≤ shares * old.reserveToken.toNat) :
      PoolStep (some old) new
  | swap {old new : Pool} (ht : new.totalShares = old.totalShares)
      (hproduct : old.reserveHkm.toNat * old.reserveToken.toNat ≤
        new.reserveHkm.toNat * new.reserveToken.toNat) : PoolStep (some old) new

/-- The value of a share does not fall: `x y / t²`, compared without division. -/
def ValueKept (old new : Pool) : Prop :=
  old.reserveHkm.toNat * old.reserveToken.toNat * new.totalShares.toNat ^ 2 ≤
    new.reserveHkm.toNat * new.reserveToken.toNat * old.totalShares.toNat ^ 2

theorem PoolStep.valueKept {old new : Pool} (h : PoolStep (some old) new) :
    ValueKept old new := by
  unfold ValueKept
  cases h with
  | deposit hx hy ht hmx hmy =>
    rw [hx, hy, ht]
    exact ConstantProduct.value_deposit hmx hmy
  | @withdraw _ _ a b shares hx hy ht hax hby =>
    have h₁ : new.reserveHkm.toNat = old.reserveHkm.toNat - a := by omega
    have h₂ : new.reserveToken.toNat = old.reserveToken.toNat - b := by omega
    have h₃ : new.totalShares.toNat = old.totalShares.toNat - shares := by omega
    rw [h₁, h₂, h₃]
    exact ConstantProduct.value_withdraw hax hby
  | swap ht hproduct =>
    rw [ht]
    exact Nat.mul_le_mul_right _ hproduct

/-- The shares are at most the geometric mean of the reserves. -/
def MeanBounded (pool : Pool) : Prop :=
  pool.totalShares.toNat ^ 2 ≤ pool.reserveHkm.toNat * pool.reserveToken.toNat

theorem PoolStep.meanBounded {old : Option Pool} {new : Pool} (h : PoolStep old new)
    (hold : ∀ p, old = some p → 0 < p.totalShares.toNat ∧ MeanBounded p) : MeanBounded new := by
  cases old with
  | none =>
    cases h with
    | opened hmean => exact hmean
  | some p =>
    obtain ⟨hpos, hmean⟩ := hold p rfl
    exact ConstantProduct.mean_of_value hpos hmean h.valueKept

/-! ## Steps of the ledger -/

variable {E : Node} {s s' : ChainState} {tx : Transaction} {height : UInt64} {u : Unit}

/-- Each pool stays or makes one step. -/
def PoolsStep (s s' : ChainState) : Prop :=
  ∀ t : String, s'.pools[t]? = s.pools[t]? ∨
    ∃ new, s'.pools[t]? = some new ∧ PoolStep s.pools[t]? new

theorem PoolsStep.of_eq (h : s'.pools = s.pools) : PoolsStep s s' := fun t =>
  Or.inl (by rw [h])

theorem PoolsStep.of_insert (t : String) (new : Pool) (h : s'.pools = s.pools.insert t new)
    (hstep : PoolStep s.pools[t]? new) : PoolsStep s s' := by
  intro a
  rw [h, lookup_insert]
  split
  · rename_i ha
    exact Or.inr ⟨new, rfl, ha ▸ hstep⟩
  · exact Or.inl rfl

/-- An addition opens the pool, or deposits in proportion. -/
theorem applyAddLiquidity_pools (hs : Sound s) (h : applyAddLiquidity E tx s = ok (u, s')) :
    PoolsStep s s' := by
  obtain ⟨r, hc, -, he⟩ := guarded_eq_ok.mp h
  obtain ⟨action, -, -, -, -, -, hq⟩ := addLiquidityChecks_ok hc
  obtain ⟨rest, pot, custody, left, inPool, reserveHkm, reserveToken, totalShares, holding, holders,
    -, -, -, -, -, -, hrh, hrt, hts, -, rfl⟩ := addLiquidityEffects_ok he
  change reserveHkm.toNat = (s.poolOrNew r.tokenId).reserveHkm.toNat + _ at hrh
  change reserveToken.toNat = (s.poolOrNew r.tokenId).reserveToken.toNat + _ at hrt
  change totalShares.toNat = (s.poolOrNew r.tokenId).totalShares.toNat + _ at hts
  refine PoolsStep.of_insert r.tokenId
    (grownPool (s.poolOrNew r.tokenId) reserveHkm reserveToken totalShares) rfl ?_
  unfold addQuote at hq
  cases hp : s.pools[r.tokenId]? with
  | none =>
    rw [hp] at hq
    obtain ⟨root, -, -, -, hroot, hsq⟩ := firstQuote_root (by simpa [Pool.empty] using hq)
    have hfirst := (firstQuote_ok (by simpa [Pool.empty] using hq)).2.2
    rw [poolOrNew, hp, if_pos hfirst] at hts
    rw [poolOrNew, hp] at hrh hrt
    refine PoolStep.opened ?_
    change totalShares.toNat ^ 2 ≤ reserveHkm.toNat * reserveToken.toNat
    have h₁ : totalShares.toNat = root := by rw [hts, hroot]; exact Nat.zero_add _
    have h₂ : reserveHkm.toNat = r.quote.useHkm.toNat := by rw [hrh]; exact Nat.zero_add _
    have h₃ : reserveToken.toNat = r.quote.useToken.toNat := by rw [hrt]; exact Nat.zero_add _
    rw [h₁, h₂, h₃]
    exact hsq
  | some p =>
    have hne : p.totalShares ≠ 0 := fun h0 => by
      have := hs.no_pool_of_no_shares (t := r.tokenId) (by rw [hp]; exact h0)
      rw [hp] at this
      cases this
    rw [hp, Option.getD_some, if_neg hne] at hq
    obtain ⟨-, hmx, hmy⟩ := laterQuote_minted hq
    have hfirst := (laterQuote_ok hq).2.2
    rw [poolOrNew, hp, Option.getD_some] at hrh hrt hts
    rw [hfirst, if_neg (by decide), Nat.add_zero] at hts
    exact PoolStep.deposit hrh hrt hts hmx hmy

/-- A removal withdraws in proportion. -/
theorem applyRemoveLiquidity_pools (h : applyRemoveLiquidity E tx s = ok (u, s')) :
    PoolsStep s s' := by
  obtain ⟨r, hc, -, he⟩ := guarded_eq_ok.mp h
  obtain ⟨action, pool, -, -, -, -, hp, -, -, hhkm, htok, -, -⟩ := removeLiquidityChecks_ok hc
  obtain ⟨rest, pot, left, custody, balance, inPool, held, reserveHkm, reserveToken, totalShares,
    holders, pool', -, -, -, -, -, -, -, -, hp', h₁, h₂, h₃, rfl⟩ := removeLiquidityEffects_ok he
  have hpool : pool' = pool := by
    rw [setNonce_pools, hp, Option.some.injEq] at hp'
    exact hp'.symm
  subst hpool
  have hfloor : ∀ n : UInt64,
      (UInt64.ofNat (r.shares.toNat * n.toNat / pool'.totalShares.toNat)).toNat *
        pool'.totalShares.toNat ≤ r.shares.toNat * n.toNat := by
    intro n
    rw [UInt64.toNat_ofNat']
    exact (Nat.mul_le_mul_right _ (Nat.mod_le _ _)).trans (ConstantProduct.floor_mul_le _ _ _)
  refine PoolsStep.of_insert r.tokenId
    (grownPool pool' reserveHkm reserveToken totalShares) rfl ?_
  rw [hp]
  refine PoolStep.withdraw h₁ h₂ h₃ ?_ ?_
  · rw [hhkm]
    exact hfloor _
  · rw [htok]
    exact hfloor _

/-- What the checks of a swap say about its output. -/
theorem swapChecks_output {r : SwapRequest} (h : swapChecks tx s = ok r) :
    ∃ pool : Pool, s.pools[r.tokenId]? = some pool ∧ 0 < pool.reserveHkm.toNat ∧
      0 < pool.reserveToken.toNat ∧
      (if r.hkmToToken then
        swapOutput pool.reserveHkm pool.reserveToken r.amountIn = ok r.amountOut
      else swapOutput pool.reserveToken pool.reserveHkm r.amountIn = ok r.amountOut) := by
  simp only [swapChecks, Outcome.bind_eq_ok, okOr_eq_ok, ensure_eq_ok, pure_eq, ok.injEq,
    not_or] at h
  obtain ⟨_, -, action, -, pool, hp, _, ⟨h₁, h₂⟩, amountOut, hout, _, -, _, -, rfl⟩ := h
  rw [← UInt64.toNat_inj] at h₁ h₂
  refine ⟨pool, hp, Nat.pos_of_ne_zero h₁, Nat.pos_of_ne_zero h₂, ?_⟩
  cases hd : action.hkmToToken <;> simp only [hd, if_true, if_false, Bool.false_eq_true] at hout ⊢ <;>
    exact hout

/-- The product rule bounds the output that a swap pays. -/
theorem swapOutput_mul_le {reserveIn reserveOut amountIn out : UInt64} (hin : 0 < reserveIn.toNat)
    (hout : 0 < reserveOut.toNat) (h : swapOutput reserveIn reserveOut amountIn = ok out) :
    out.toNat * (reserveIn.toNat * 10000 + amountIn.toNat * 9970) ≤
        amountIn.toNat * 9970 * reserveOut.toNat ∧ out.toNat < reserveOut.toNat := by
  obtain ⟨hval, hlt⟩ := swapOutput_eq amountIn hin hout
  rcases hval with hval | ⟨e, herr⟩
  · rw [h, ok.injEq] at hval
    have hfit := Word.toNat_lt reserveOut
    rw [hval, Word.toNat_ofNat_of_lt (hlt.trans hfit)]
    exact ⟨ConstantProduct.output_mul_le _ _ _ _ _, hlt⟩
  · rw [h] at herr
    cases herr

/-- A swap keeps the shares and does not lower the product. -/
theorem applySwap_pools (h : applySwap E tx s = ok (u, s')) : PoolsStep s s' := by
  obtain ⟨r, hc, -, he⟩ := guarded_eq_ok.mp h
  obtain ⟨pool, hp, hx, hy, hout⟩ := swapChecks_output hc
  unfold swapEffects at he
  split at he
  · rename_i hd
    rw [if_pos hd] at hout
    obtain ⟨hmul, hlt⟩ := swapOutput_mul_le hx hy hout
    obtain ⟨rest, pot, custody, inPool, held, reserveHkm, reserveToken, holders, pool', -, -, -, -,
      -, -, hp', h₁, h₂, rfl⟩ := swapHkmToToken_ok he
    have hpool : pool' = pool := by
      rw [setNonce_pools, hp, Option.some.injEq] at hp'
      exact hp'.symm
    subst hpool
    refine PoolsStep.of_insert r.tokenId
      (grownPool pool' reserveHkm reserveToken pool'.totalShares) rfl ?_
    rw [hp]
    refine PoolStep.swap rfl ?_
    change _ ≤ reserveHkm.toNat * reserveToken.toNat
    have h₃ : reserveToken.toNat = pool'.reserveToken.toNat - r.amountOut.toNat := by omega
    rw [h₁, h₃]
    exact ConstantProduct.product_swap (by norm_num) (by norm_num) hlt.le hmul
  · rename_i hd
    rw [if_neg hd] at hout
    obtain ⟨hmul, hlt⟩ := swapOutput_mul_le hy hx hout
    obtain ⟨rest, pot, left, inPool, custody, balance, reserveHkm, reserveToken, holders, pool', -,
      -, -, -, -, -, -, hp', h₁, h₂, rfl⟩ := swapTokenToHkm_ok he
    have hpool : pool' = pool := by
      rw [setNonce_pools, hp, Option.some.injEq] at hp'
      exact hp'.symm
    subst hpool
    refine PoolsStep.of_insert r.tokenId
      (grownPool pool' reserveHkm reserveToken pool'.totalShares) rfl ?_
    rw [hp]
    refine PoolStep.swap rfl ?_
    change _ ≤ reserveHkm.toNat * reserveToken.toNat
    have h₃ : reserveHkm.toNat = pool'.reserveHkm.toNat - r.amountOut.toNat := by omega
    rw [h₁, h₃, Nat.mul_comm, Nat.mul_comm (pool'.reserveHkm.toNat - _)]
    exact ConstantProduct.product_swap (by norm_num) (by norm_num) hlt.le hmul

/-- Every transaction moves each pool by at most one step. -/
theorem applyVerified_pools (hs : Sound s) (h : applyVerified E tx height s = ok (u, s')) :
    PoolsStep s s' := by
  simp only [applyVerified, Exec.bind_eq_ok, read_eq_ok] at h
  obtain ⟨_, _, ⟨-, rfl⟩, _, _, ⟨-, rfl⟩, h⟩ := h
  by_cases hplain : isPlain tx.transactionType = true
  · exact PoolsStep.of_eq (congrArg Assets.pools ((applyBranch_assets hplain s).1 u s' h))
  · unfold applyBranch at h
    cases ht : tx.transactionType <;> rw [ht] at hplain <;> simp only [ht] at h
    case tokenCreate =>
      obtain ⟨r, -, -, he⟩ := guarded_eq_ok.mp h
      obtain ⟨_, _, _, -, -, -, rfl⟩ := tokenCreateEffects_ok he
      exact PoolsStep.of_eq rfl
    case tokenTransfer =>
      obtain ⟨r, -, -, he⟩ := guarded_eq_ok.mp h
      obtain ⟨_, _, _, _, _, -, -, -, -, -, rfl⟩ := tokenTransferEffects_ok he
      exact PoolsStep.of_eq rfl
    case tokenBurn =>
      obtain ⟨r, hc, -, he⟩ := guarded_eq_ok.mp h
      have hmem : r.tokenId ∈ (s.setNonce r.sender tx.nonce).tokens := (tokenBurnChecks_ok hc).2.2.2
      obtain ⟨_, _, _, _, _, -, -, -, -, -, rfl⟩ := tokenBurnEffects_ok hmem he
      exact PoolsStep.of_eq rfl
    case addLiquidity => exact applyAddLiquidity_pools hs h
    case removeLiquidity => exact applyRemoveLiquidity_pools h
    case swap => exact applySwap_pools h
    all_goals exact absurd rfl hplain

theorem Step.pools (hs : Sound s) (h : Step E s s') : PoolsStep s s' := by
  cases h with
  | apply hv hver h => exact applyVerified_pools hs h
  | close hv h => exact PoolsStep.of_eq (congrArg Assets.pools ((endBlock_assets s).1 _ _ h))

/-- In every reachable state the shares of a pool are bounded by the mean of its reserves. -/
theorem Reachable.meanBounded (hE : E.saturation = .clamp) (h : Reachable E s) :
    ∀ (t : String) (p : Pool), s.pools[t]? = some p → MeanBounded p := by
  induction h with
  | genesis h =>
    intro t p hp
    rw [h.assets_empty.2.2.1] at hp
    simp at hp
  | step hr hstep ih =>
    have hs := hr.sound hE
    intro t p hp
    rcases hstep.pools hs t with hsame | ⟨new, hnew, hpool⟩
    · rw [hsame] at hp
      exact ih t p hp
    · rw [hnew, Option.some.injEq] at hp
      subst hp
      refine hpool.meanBounded fun old hold => ⟨?_, ih t old hold⟩
      have hlive := (hs.pools.live t old hold).totalShares
      have hmin : minimumLiquidity.toNat = 1000 := rfl
      omega

end ChainState
