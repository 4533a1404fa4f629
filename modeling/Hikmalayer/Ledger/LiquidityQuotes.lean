/-
# The liquidity quotes of the clients

The JavaScript clients follow the rules of the ledger without its narrowing.  The Python client
computes the shares first and what they are worth from them, which is what the ledger takes only
when the side that binds is divided without a remainder.
-/
import Mathlib.Tactic
import Hikmalayer.Ledger.Proportion
import Hikmalayer.Model.Quotes

open Outcome Exec OrderedMap

namespace ChainState

variable {E : Node} {s : ChainState} {tx : Transaction} {pool : Pool} {action : AmmAction}
  {t : String} {amountHkm amountToken : UInt64}

/-! ## What a client computes for a pool -/

/-- The tokens that match the offered HKM, as the ledger narrows them, decide what it takes. -/
def ledgerTaken (pool : Pool) (action : AmmAction) : ℕ × ℕ :=
  if tokenOptimal pool action % 2 ^ 64 ≤ action.amountToken.toNat then
    (action.amountHkm.toNat, tokenOptimal pool action % 2 ^ 64)
  else (hkmOptimal pool action, action.amountToken.toNat)

theorem claimOf_mono {u v : ℕ × ℕ} (h₁ : u.1 ≤ v.1) (h₂ : u.2 ≤ v.2) :
    claimOf pool u ≤ claimOf pool v :=
  min_le_min (Nat.div_le_div_right (Nat.mul_le_mul_right _ h₁))
    (Nat.div_le_div_right (Nat.mul_le_mul_right _ h₂))

theorem claimOf_zero {u : ℕ × ℕ} (h : u.1 = 0 ∨ u.2 = 0) : claimOf pool u = 0 := by
  unfold claimOf
  rcases h with h | h <;> rw [h, Nat.zero_mul, Nat.zero_div]
  · exact Nat.zero_min _
  · exact Nat.min_zero _

/-- The quote of the JavaScript clients for an addition to a pool with both sides. -/
theorem javascriptAddQuote_eq (hx : 0 < pool.reserveHkm.toNat) (hy : 0 < pool.reserveToken.toNat)
    (ht : 0 < pool.totalShares.toNat) (hhkm : action.amountHkm ≠ 0) (htoken : action.amountToken ≠ 0) :
    javascriptAddQuote (some pool) action.amountHkm.toNat action.amountToken.toNat =
      if claimOf pool (ratioTaken pool action) = 0 then none
      else some ⟨false, (ratioTaken pool action).1, (ratioTaken pool action).2,
        claimOf pool (ratioTaken pool action)⟩ := by
  have hoffered : ¬ (action.amountHkm.toNat = 0 ∨ action.amountToken.toNat = 0) := by
    rw [not_or]
    exact ⟨fun h => hhkm (UInt64.toNat_inj.mp h), fun h => htoken (UInt64.toNat_inj.mp h)⟩
  have hsides : ¬ (pool.reserveHkm.toNat = 0 ∨ pool.reserveToken.toNat = 0 ∨
      pool.totalShares.toNat = 0) := by omega
  have hlater : javascriptAddQuote (some pool) action.amountHkm.toNat action.amountToken.toNat =
      if (ratioTaken pool action).1 = 0 ∨ (ratioTaken pool action).2 = 0 then none
      else if claimOf pool (ratioTaken pool action) = 0 then none
      else some ⟨false, (ratioTaken pool action).1, (ratioTaken pool action).2,
        claimOf pool (ratioTaken pool action)⟩ := by
    unfold claimOf ratioTaken tokenOptimal hkmOptimal
    simp only [javascriptAddQuote, hoffered, if_false, Option.map_some, Option.elim_some, hsides,
      min_def_lt]
    by_cases hle : action.amountHkm.toNat * pool.reserveToken.toNat / pool.reserveHkm.toNat ≤
        action.amountToken.toNat
    · simp only [hle, if_true]
    · simp only [hle, if_false]
  rw [hlater]
  split
  · rename_i hnone
    rw [if_pos (claimOf_zero hnone)]
  · rfl

/-- The quote of the Python client for an addition to a pool with shares. -/
theorem pythonAddQuote_eq (ht : 0 < pool.totalShares.toNat) (amountHkm amountToken : ℕ) :
    PythonSdk.quoteAddLiquidity (some pool) amountHkm amountToken =
      ⟨claimOf pool (amountHkm, amountToken),
        claimOf pool (amountHkm, amountToken) * pool.reserveHkm.toNat / pool.totalShares.toNat,
        claimOf pool (amountHkm, amountToken) * pool.reserveToken.toNat / pool.totalShares.toNat⟩ :=
  if_neg ht.ne'

/-! ## What the ledger computes -/

/-- The ledger takes no more than is offered. -/
theorem ledgerTaken_le (hx : 0 < pool.reserveHkm.toNat) (action : AmmAction) :
    (ledgerTaken pool action).1 ≤ action.amountHkm.toNat ∧
      (ledgerTaken pool action).2 ≤ action.amountToken.toNat := by
  unfold ledgerTaken
  split
  · rename_i h
    exact ⟨le_rfl, h⟩
  · rename_i h
    have hlt : action.amountToken.toNat < tokenOptimal pool action :=
      (not_le.mp h).trans_le (Nat.mod_le _ _)
    exact ⟨(hkmOptimal_lt hx hlt).le, le_rfl⟩

theorem ratioAmounts_taken (hx : 0 < pool.reserveHkm.toNat) (hy : 0 < pool.reserveToken.toNat)
    (action : AmmAction) :
    ∃ u v : UInt64, ratioAmounts pool action = ok (u, v) ∧
      (u.toNat, v.toNat) = ledgerTaken pool action := by
  have hcast : (UInt64.ofNat (tokenOptimal pool action)).toNat = tokenOptimal pool action % 2 ^ 64 :=
    UInt64.toNat_ofNat'
  rw [ratioAmounts_eq hx hy]
  unfold ledgerTaken
  simp only [UInt64.le_iff_toNat_le, hcast]
  split
  · exact ⟨_, _, rfl, by rw [hcast]⟩
  · rename_i h
    have hlt := hkmOptimal_lt hx ((not_le.mp h).trans_le (Nat.mod_le _ _))
    exact ⟨_, _, rfl, by rw [Word.toNat_ofNat_of_lt (hlt.trans (Word.toNat_lt _))]⟩

/-- What the ledger quotes for an addition to a pool with both sides. -/
theorem laterQuote_taken (hx : 0 < pool.reserveHkm.toNat) (hy : 0 < pool.reserveToken.toNat)
    (ht : 0 < pool.totalShares.toNat) (hmean : MeanBounded pool) {q : AddQuote}
    (h : laterQuote pool action = ok q) :
    (q.useHkm.toNat, q.useToken.toNat) = ledgerTaken pool action ∧
      q.minted.toNat = claimOf pool (ledgerTaken pool action) ∧ q.first = false := by
  have hminted := laterQuote_exact hx hy ht hmean h
  obtain ⟨u, v, hamounts, htaken⟩ := ratioAmounts_taken hx hy action
  obtain ⟨-, -, hfirst⟩ := laterQuote_ok h
  rw [laterQuote, hamounts, ok_bind] at h
  simp only [Outcome.bind_eq_ok, pure_eq, ok.injEq] at h
  obtain ⟨_, -, _, -, _, -, rfl⟩ := h
  rw [← htaken]
  exact ⟨rfl, hminted, hfirst⟩

/-- It quotes nothing only when nothing is minted. -/
theorem laterQuote_refused (hx : 0 < pool.reserveHkm.toNat) (hy : 0 < pool.reserveToken.toNat)
    {e : String} (h : laterQuote pool action = err e) :
    claimOf pool (ledgerTaken pool action) = 0 := by
  obtain ⟨u, v, hamounts, htaken⟩ := ratioAmounts_taken hx hy action
  rw [laterQuote, hamounts, ok_bind] at h
  simp only [Outcome.bind_eq_err, ensure_eq_err, plain_ne_err, pure_eq, reduceCtorEq, and_false,
    exists_false, or_false, not_not] at h
  rw [← htaken]
  refine claimOf_zero (h.1.imp (fun h => ?_) fun h => ?_) <;> rw [h] <;> rfl

/-- The transaction makes the offer of an action. -/
structure Offers (tx : Transaction) (action : AmmAction) : Prop where
  sender : ∃ a, tx.sender = some a
  action : tx.amm = some action

theorem exists_offers (action : AmmAction) : ∃ tx, Offers tx action :=
  ⟨{ Transaction.newReward "" (DateTime.ofTimestamp 0) "" 0 with
      sender := some "", amm := some action }, ⟨"", rfl⟩, rfl⟩

/-- The checks of an offer for whatever it mints return its quote, or refuse because nothing is
minted. -/
theorem Offers.checks (ho : Offers tx action) (ht : action.tokenId ∈ s.tokens)
    (hmin : action.minShares = 0) :
    (∀ r, addLiquidityChecks tx s = ok r → r.quote.minted ≠ 0 ∧
      addQuote (s.pools[action.tokenId]?.getD .empty) action = ok r.quote) ∧
    ∀ e, addLiquidityChecks tx s = err e →
      (∃ e', addQuote (s.pools[action.tokenId]?.getD .empty) action = err e') ∨
      ∃ q, addQuote (s.pools[action.tokenId]?.getD .empty) action = ok q ∧ q.minted = 0 := by
  obtain ⟨⟨a, ha⟩, hamm⟩ := ho
  refine ⟨fun r hr => ?_, fun e he => ?_⟩
  · simp only [addLiquidityChecks, Outcome.bind_eq_ok, okOr_eq_ok, ensure_eq_ok, pure_eq, ok.injEq,
      hamm, Option.some.injEq, not_or] at hr
    obtain ⟨_, -, _, rfl, _, -, quote, hq, _, ⟨h0, -⟩, rfl⟩ := hr
    exact ⟨h0, hq⟩
  · simp only [addLiquidityChecks, ha, hamm, okOr_some, ok_bind, ensure_pos ht,
      Outcome.bind_eq_err, ensure_eq_err, pure_eq, reduceCtorEq, and_false, exists_false, or_false,
      not_not, hmin] at he
    rcases he with he | ⟨q, hq, h, -⟩
    · exact .inl ⟨e, he⟩
    · have hpos : ¬ q.minted < 0 := fun h => absurd (UInt64.lt_iff_toNat_lt.mp h) (Nat.not_lt_zero _)
      exact .inr ⟨q, hq, h.resolve_right hpos⟩

/-! ## The three rules on one pool -/

/-- Nothing is minted by any rule, or the side that binds is divided without a remainder, as shares
and as an amount of the other side, and its match narrows well. -/
def BindsExactly (pool : Pool) (action : AmmAction) : Prop :=
  claimOf pool (action.amountHkm.toNat, action.amountToken.toNat) = 0 ∨
  (tokenOptimal pool action ≤ action.amountToken.toNat ∧
    pool.reserveHkm.toNat ∣ action.amountHkm.toNat * pool.totalShares.toNat ∧
    pool.reserveHkm.toNat ∣ action.amountHkm.toNat * pool.reserveToken.toNat) ∨
  (action.amountToken.toNat < tokenOptimal pool action ∧ Narrows pool action ∧
    pool.reserveToken.toNat ∣ action.amountToken.toNat * pool.totalShares.toNat ∧
    pool.reserveToken.toNat ∣ action.amountToken.toNat * pool.reserveHkm.toNat)

/-- What the ledger takes and mints is what the rule without narrowing and the rule that computes
the shares first do. -/
def RulesMeet (pool : Pool) (action : AmmAction) : Prop :=
  let claim := claimOf pool (action.amountHkm.toNat, action.amountToken.toNat)
  if claimOf pool (ledgerTaken pool action) = 0 then
    claimOf pool (ratioTaken pool action) = 0 ∧ claim = 0
  else ratioTaken pool action = ledgerTaken pool action ∧
    claim = claimOf pool (ledgerTaken pool action) ∧
    (claim * pool.reserveHkm.toNat / pool.totalShares.toNat,
      claim * pool.reserveToken.toNat / pool.totalShares.toNat) = ledgerTaken pool action

/-- Where the matching tokens narrow well the ledger takes what it should. -/
theorem ledgerTaken_of_narrows (h : Narrows pool action) :
    ledgerTaken pool action = ratioTaken pool action := by
  have hword := Word.toNat_lt action.amountToken
  unfold Narrows at h
  unfold ledgerTaken ratioTaken
  rcases h with h | h
  · rw [Nat.mod_eq_of_lt h]
  · rw [if_neg (not_le.mpr h), if_neg (not_le.mpr (h.trans_le (Nat.mod_le _ _)))]

/-- The rules meet where they take the same and the shares are worth it. -/
theorem RulesMeet.of_same {taken : ℕ × ℕ} (hledger : ledgerTaken pool action = taken)
    (hratio : ratioTaken pool action = taken)
    (hclaim : claimOf pool (action.amountHkm.toNat, action.amountToken.toNat) = claimOf pool taken)
    (hworth : (claimOf pool taken * pool.reserveHkm.toNat / pool.totalShares.toNat,
      claimOf pool taken * pool.reserveToken.toNat / pool.totalShares.toNat) = taken) :
    RulesMeet pool action := by
  simp only [RulesMeet, hledger, hratio, hclaim]
  split
  · rename_i h
    exact ⟨h, h⟩
  · exact ⟨trivial, trivial, hworth⟩

variable (hx : 0 < pool.reserveHkm.toNat) (hy : 0 < pool.reserveToken.toNat)
  (ht : 0 < pool.totalShares.toNat)

include hx hy ht in
theorem RulesMeet.of_exact (h : BindsExactly pool action) : RulesMeet pool action := by
  rcases h with h | ⟨hbind, hshares, hmatch⟩ | ⟨hbind, hnarrows, hshares, hmatch⟩
  · obtain ⟨h₁, h₂⟩ := ledgerTaken_le hx action
    obtain ⟨h₃, h₄⟩ := ratioTaken_le hx action
    have hledger := Nat.le_zero.mp ((claimOf_mono h₁ h₂).trans h.le)
    have hratio := Nat.le_zero.mp ((claimOf_mono h₃ h₄).trans h.le)
    simp only [RulesMeet, hledger, if_true]
    exact ⟨hratio, h⟩
  · -- the whole HKM and its match
    have hnarrows : Narrows pool action := .inl (hbind.trans_lt (Word.toNat_lt _))
    have hratio : ratioTaken pool action = (action.amountHkm.toNat, tokenOptimal pool action) :=
      if_pos hbind
    obtain ⟨hsame, hback, hother⟩ := ConstantProduct.exact_match hx hy ht
      (Nat.div_mul_cancel hshares) (Nat.div_mul_cancel hmatch)
    change _ = tokenOptimal pool action * _ / _ at hsame
    change _ = tokenOptimal pool action at hother
    have hmore := Nat.div_le_div_right (c := pool.reserveToken.toNat)
      (Nat.mul_le_mul_right pool.totalShares.toNat hbind)
    have htaken : claimOf pool (action.amountHkm.toNat, tokenOptimal pool action) =
        action.amountHkm.toNat * pool.totalShares.toNat / pool.reserveHkm.toNat :=
      min_eq_left hsame.le
    refine .of_same ((ledgerTaken_of_narrows hnarrows).trans hratio) hratio ?_ ?_
    · rw [htaken]
      exact min_eq_left (hsame.le.trans hmore)
    · rw [htaken, hback, hother]
  · -- the whole tokens and their match
    have hratio : ratioTaken pool action = (hkmOptimal pool action, action.amountToken.toNat) :=
      if_neg (not_le.mpr hbind)
    obtain ⟨hsame, hback, hother⟩ := ConstantProduct.exact_match hy hx ht
      (Nat.div_mul_cancel hshares) (Nat.div_mul_cancel hmatch)
    change _ = hkmOptimal pool action * _ / _ at hsame
    change _ = hkmOptimal pool action at hother
    have hmore := Nat.div_le_div_right (c := pool.reserveHkm.toNat)
      (Nat.mul_le_mul_right pool.totalShares.toNat (hkmOptimal_lt hx hbind).le)
    have htaken : claimOf pool (hkmOptimal pool action, action.amountToken.toNat) =
        action.amountToken.toNat * pool.totalShares.toNat / pool.reserveToken.toNat :=
      min_eq_right hsame.le
    refine .of_same ((ledgerTaken_of_narrows hnarrows).trans hratio) hratio ?_ ?_
    · rw [htaken]
      exact min_eq_right (hsame.le.trans hmore)
    · rw [htaken, hback, hother]

include hx hy ht in
theorem RulesMeet.exact (h : RulesMeet pool action) : BindsExactly pool action := by
  unfold RulesMeet at h
  dsimp only at h
  split at h
  · exact .inl h.2
  · obtain ⟨hratio, hclaim, hworth⟩ := h
    set m := claimOf pool (action.amountHkm.toNat, action.amountToken.toNat)
    have hm₁ : m ≤ action.amountHkm.toNat * pool.totalShares.toNat / pool.reserveHkm.toNat :=
      min_le_left _ _
    have hm₂ : m ≤ action.amountToken.toNat * pool.totalShares.toNat / pool.reserveToken.toNat :=
      min_le_right _ _
    by_cases hbind : tokenOptimal pool action ≤ action.amountToken.toNat
    · have htaken : ratioTaken pool action = (action.amountHkm.toNat, tokenOptimal pool action) :=
        if_pos hbind
      rw [← hratio, htaken, Prod.mk.injEq] at hworth
      rw [← hratio, htaken] at hclaim
      have hexact := (ConstantProduct.worth_eq_iff hx ht hm₁).mp hworth.1
      have hside : m * pool.reserveToken.toNat ≤
          tokenOptimal pool action * pool.totalShares.toNat :=
        (Nat.le_div_iff_mul_le hy).mp (hclaim.le.trans (min_le_right _ _))
      have hmatch := ConstantProduct.match_of_exact ht hexact (Nat.div_mul_le_self _ _) hside
      exact .inr (.inl ⟨hbind, ⟨m, by rw [← hexact, Nat.mul_comm]⟩,
        ⟨tokenOptimal pool action, by rw [← hmatch, Nat.mul_comm]; rfl⟩⟩)
    · have hlt : action.amountToken.toNat < tokenOptimal pool action := not_le.mp hbind
      have htaken : ratioTaken pool action = (hkmOptimal pool action, action.amountToken.toNat) :=
        if_neg hbind
      have hnarrows : Narrows pool action := by
        by_contra hnot
        rw [Narrows, not_or, not_lt, not_lt] at hnot
        have hledger : ledgerTaken pool action =
            (action.amountHkm.toNat, tokenOptimal pool action % 2 ^ 64) := if_pos hnot.2
        rw [htaken, hledger, Prod.mk.injEq] at hratio
        exact (hkmOptimal_lt hx hlt).ne hratio.1
      rw [← hratio, htaken, Prod.mk.injEq] at hworth
      rw [← hratio, htaken] at hclaim
      have hexact := (ConstantProduct.worth_eq_iff hy ht hm₂).mp hworth.2
      have hside : m * pool.reserveHkm.toNat ≤
          hkmOptimal pool action * pool.totalShares.toNat :=
        (Nat.le_div_iff_mul_le hx).mp (hclaim.le.trans (min_le_left _ _))
      have hmatch := ConstantProduct.match_of_exact ht hexact (Nat.div_mul_le_self _ _) hside
      exact .inr (.inr ⟨hlt, hnarrows, ⟨m, by rw [← hexact, Nat.mul_comm]⟩,
        ⟨hkmOptimal pool action, by rw [← hmatch, Nat.mul_comm]; rfl⟩⟩)

include hx hy ht in
/-- The rules meet exactly when the side that binds is divided without a remainder. -/
theorem rulesMeet_iff : RulesMeet pool action ↔ BindsExactly pool action :=
  ⟨RulesMeet.exact hx hy ht, RulesMeet.of_exact hx hy ht⟩

/-! ## The clients and the ledger -/

/-- The clients quote an offer as the ledger takes it, and nothing where the ledger mints nothing. -/
structure AddQuotesAgree (s : ChainState) (action : AmmAction) : Prop where
  taken : ∀ (tx : Transaction) (r : AddRequest), Offers tx action →
    addLiquidityChecks tx s = ok r →
    (∀ quote ∈ [Sdk.quoteAddLiquidity, Dashboard.quoteAddLiquidity],
      quote s.pools[action.tokenId]? action.amountHkm.toNat action.amountToken.toNat =
        some ⟨r.quote.first, r.quote.useHkm.toNat, r.quote.useToken.toNat, r.quote.minted.toNat⟩) ∧
    PythonSdk.quoteAddLiquidity s.pools[action.tokenId]? action.amountHkm.toNat
        action.amountToken.toNat =
      ⟨r.quote.minted.toNat, r.quote.useHkm.toNat, r.quote.useToken.toNat⟩
  refused : ∀ (tx : Transaction) (e : String), Offers tx action →
    addLiquidityChecks tx s = err e →
    (∀ quote ∈ [Sdk.quoteAddLiquidity, Dashboard.quoteAddLiquidity],
      quote s.pools[action.tokenId]? action.amountHkm.toNat action.amountToken.toNat = none) ∧
    (PythonSdk.quoteAddLiquidity s.pools[action.tokenId]? action.amountHkm.toNat
      action.amountToken.toNat).minted = 0

/-- The transaction takes shares of an account out, for whatever they are worth. -/
structure Redeems (tx : Transaction) (a t : String) (shares : UInt64) : Prop where
  sender : tx.sender = some a
  action : ∃ action, tx.amm = some action ∧ action.tokenId = t ∧ action.shares = shares ∧
    action.minHkm = 0 ∧ action.minToken = 0

/-- The clients quote a removal as the ledger pays it, and a side of nothing where the ledger
refuses to pay for shares that the account holds. -/
structure RemoveQuotesAgree (s : ChainState) (t : String) (pool : Pool) (shares : UInt64) :
    Prop where
  paid : ∀ (tx : Transaction) (r : RemoveRequest), removeLiquidityChecks tx s = ok r →
    r.tokenId = t → r.shares = shares →
    (∀ quote ∈ [Sdk.quoteRemoveLiquidity, Dashboard.quoteRemoveLiquidity],
      quote (some pool) shares.toNat = some ⟨r.amountHkm.toNat, r.amountToken.toNat⟩) ∧
    PythonSdk.quoteRemoveLiquidity pool shares.toNat = ⟨r.amountHkm.toNat, r.amountToken.toNat⟩
  refused : ∀ (tx : Transaction) (a e : String), Redeems tx a t shares →
    shares ≤ s.lpSharesOf t a → removeLiquidityChecks tx s = err e →
    (∀ quote ∈ [Sdk.quoteRemoveLiquidity, Dashboard.quoteRemoveLiquidity],
      quote (some pool) shares.toNat = none) ∧
    ((PythonSdk.quoteRemoveLiquidity pool shares.toNat).amountHkm = 0 ∨
      (PythonSdk.quoteRemoveLiquidity pool shares.toNat).amountToken = 0)

/-- The quote of the JavaScript clients for a removal from a pool with both sides. -/
theorem javascriptRemoveQuote_eq (hx : 0 < pool.reserveHkm.toNat) (hy : 0 < pool.reserveToken.toNat)
    (ht : 0 < pool.totalShares.toNat) (shares : ℕ) :
    javascriptRemoveQuote (some pool) shares =
      if shares * pool.reserveHkm.toNat / pool.totalShares.toNat = 0 ∨
        shares * pool.reserveToken.toNat / pool.totalShares.toNat = 0 then none
      else some ⟨shares * pool.reserveHkm.toNat / pool.totalShares.toNat,
        shares * pool.reserveToken.toNat / pool.totalShares.toNat⟩ := by
  simp only [javascriptRemoveQuote, Option.map_some, Option.elim_some, hx.ne', hy.ne', ht.ne',
    or_false]
  split
  · rename_i h
    rw [h, if_pos]
    rw [Nat.zero_mul, Nat.zero_div]
    exact .inl rfl
  · rfl

/-- The quotes for removals agree on every pool whose invariant holds. -/
theorem PoolInvariant.removeQuotesAgree (hinv : PoolInvariant s t pool) (hp : s.pools[t]? = some pool)
    (shares : UInt64) : RemoveQuotesAgree s t pool shares := by
  have hpython : PythonSdk.quoteRemoveLiquidity pool shares.toNat =
      ⟨shares.toNat * pool.reserveHkm.toNat / pool.totalShares.toNat,
        shares.toNat * pool.reserveToken.toNat / pool.totalShares.toNat⟩ :=
    if_neg hinv.totalShares_pos.ne'
  have hjavascript := javascriptRemoveQuote_eq hinv.reserveHkm hinv.reserveToken
    hinv.totalShares_pos shares.toNat
  constructor
  · intro tx r h hr hshares
    obtain ⟨action, pool', -, -, -, -, hp', hheld, -, hhkm, htoken, hpos₁, hpos₂⟩ :=
      removeLiquidityChecks_ok h
    rw [hr, hp, Option.some.injEq] at hp'
    subst hp'
    have hle : shares.toNat ≤ pool.totalShares.toNat := by
      rw [← hshares]
      rw [hr] at hheld
      exact hheld.trans (hinv.held_le r.sender)
    obtain ⟨-, hcast₁, -⟩ := mulDiv_exact pool.reserveHkm hinv.totalShares_pos hle
    obtain ⟨-, hcast₂, -⟩ := mulDiv_exact pool.reserveToken hinv.totalShares_pos hle
    rw [hshares] at hhkm htoken
    rw [hhkm, hcast₁] at hpos₁
    rw [htoken, hcast₂] at hpos₂
    have hquote : javascriptRemoveQuote (some pool) shares.toNat =
        some ⟨r.amountHkm.toNat, r.amountToken.toNat⟩ := by
      rw [hjavascript, if_neg (by omega), hhkm, htoken, hcast₁, hcast₂]
    refine ⟨fun quote hmem => ?_, ?_⟩
    · rcases List.mem_pair.mp hmem with rfl | rfl <;> exact hquote
    · rw [hpython, hhkm, htoken, hcast₁, hcast₂]
  · intro tx a e ⟨hsender, action, hamm, htoken, hshares, hmin₁, hmin₂⟩ hheld h
    have hle : shares.toNat ≤ pool.totalShares.toNat :=
      (UInt64.le_iff_toNat_le.mp hheld).trans (hinv.held_le a)
    obtain ⟨hdiv₁, hcast₁, -⟩ := mulDiv_exact pool.reserveHkm hinv.totalShares_pos hle
    obtain ⟨hdiv₂, hcast₂, -⟩ := mulDiv_exact pool.reserveToken hinv.totalShares_pos hle
    have hbound : ∀ x : UInt64, ¬ x < 0 := fun x hx =>
      absurd (UInt64.lt_iff_toNat_lt.mp hx) (Nat.not_lt_zero _)
    rw [← UInt64.not_lt] at hheld
    simp only [removeLiquidityChecks, hsender, hamm, okOr_some, ok_bind, htoken, hp, hshares,
      ensure_pos hheld, hdiv₁, hdiv₂, plain_some, hmin₁, hmin₂, Outcome.bind_eq_err, ensure_eq_err,
      pure_eq, reduceCtorEq, and_false, exists_false, or_false, not_not, hbound, or_self,
      false_and] at h
    have hzero := h.1
    rw [← UInt64.toNat_inj, ← UInt64.toNat_inj, hcast₁, hcast₂, UInt64.toNat_zero] at hzero
    have hquote : javascriptRemoveQuote (some pool) shares.toNat = none := by
      rw [hjavascript, if_pos hzero]
    refine ⟨fun quote hmem => ?_, ?_⟩
    · rcases List.mem_pair.mp hmem with rfl | rfl <;> exact hquote
    · rw [hpython]
      exact hzero

/-- The quotes for the first addition agree. -/
theorem addQuotesAgree_first (hp : s.pools[action.tokenId]? = none) (ht : action.tokenId ∈ s.tokens)
    (hmin : action.minShares = 0) (hhkm : action.amountHkm ≠ 0) (htoken : action.amountToken ≠ 0) :
    AddQuotesAgree s action := by
  have hoffered : ¬ (action.amountHkm.toNat = 0 ∨ action.amountToken.toNat = 0) := by
    rw [not_or]
    exact ⟨fun h => hhkm (UInt64.toNat_inj.mp h), fun h => htoken (UInt64.toNat_inj.mp h)⟩
  have hjavascript : javascriptAddQuote none action.amountHkm.toNat action.amountToken.toNat =
      if clientIsqrt (action.amountHkm.toNat * action.amountToken.toNat) ≤ minimumLiquidity.toNat
      then none
      else some ⟨true, action.amountHkm.toNat, action.amountToken.toNat,
        clientIsqrt (action.amountHkm.toNat * action.amountToken.toNat) - minimumLiquidity.toNat⟩ :=
    (if_neg hoffered).trans (if_pos (.inl rfl))
  have hempty : s.pools[action.tokenId]?.getD .empty = Pool.empty := by rw [hp, Option.getD_none]
  constructor
  · intro tx r ho h
    obtain ⟨h0, hq⟩ := (ho.checks ht hmin).1 r h
    rw [hempty, addQuote_empty] at hq
    obtain ⟨root, hroot, huse₁, huse₂, hminted, -⟩ := firstQuote_root hq
    obtain ⟨-, -, hfirst⟩ := firstQuote_ok hq
    have hpos : r.quote.minted.toNat ≠ 0 := fun hz => h0 (UInt64.toNat_inj.mp hz)
    have hrest : root - minimumLiquidity.toNat = r.quote.minted.toNat := by omega
    rw [hp]
    refine ⟨fun quote hmem => ?_, ?_⟩
    · have hquote : javascriptAddQuote none action.amountHkm.toNat action.amountToken.toNat =
          some ⟨r.quote.first, r.quote.useHkm.toNat, r.quote.useToken.toNat,
            r.quote.minted.toNat⟩ := by
        rw [hjavascript, clientIsqrt_eq hroot, if_neg (by omega), hrest, hfirst, huse₁, huse₂]
      rcases List.mem_pair.mp hmem with rfl | rfl <;> exact hquote
    · rw [PythonSdk.quoteAddLiquidity, clientIsqrt_eq hroot, hrest, huse₁, huse₂]
  · intro tx e ho h
    have hsmall : clientIsqrt (action.amountHkm.toNat * action.amountToken.toNat) ≤
        minimumLiquidity.toNat := by
      rcases (ho.checks ht hmin).2 e h with ⟨e', he⟩ | ⟨q, hq, h0⟩
      · rw [hempty, addQuote_empty, firstQuote, wideSaturatingMul_words] at he
        simp only [Outcome.bind_eq_err, ensure_eq_err, pure_eq, reduceCtorEq, and_false,
          exists_false, or_false, not_not] at he
        rcases he with he | ⟨root, hroot, hle, -⟩
        · exact absurd he isqrtU128_ne_err
        · rw [clientIsqrt_eq hroot]
          exact hle
      · rw [hempty, addQuote_empty] at hq
        obtain ⟨root, hroot, -, -, hminted, -⟩ := firstQuote_root hq
        rw [h0, UInt64.toNat_zero, Nat.zero_add] at hminted
        rw [clientIsqrt_eq hroot, hminted]
    rw [hp]
    refine ⟨fun quote hmem => ?_, ?_⟩
    · have hquote : javascriptAddQuote none action.amountHkm.toNat action.amountToken.toNat =
          none := by rw [hjavascript, if_pos hsmall]
      rcases List.mem_pair.mp hmem with rfl | rfl <;> exact hquote
    · exact Nat.sub_eq_zero_of_le hsmall

/-- What the checks of an offer to a pool say of the amounts that the ledger takes. -/
theorem Offers.later (ho : Offers tx action) (hinv : PoolInvariant s action.tokenId pool)
    (hp : s.pools[action.tokenId]? = some pool) (ht : action.tokenId ∈ s.tokens)
    (hmin : action.minShares = 0) :
    (∀ r, addLiquidityChecks tx s = ok r →
      (r.quote.useHkm.toNat, r.quote.useToken.toNat) = ledgerTaken pool action ∧
      r.quote.minted.toNat = claimOf pool (ledgerTaken pool action) ∧
      claimOf pool (ledgerTaken pool action) ≠ 0 ∧ r.quote.first = false) ∧
    ∀ e, addLiquidityChecks tx s = err e → claimOf pool (ledgerTaken pool action) = 0 := by
  have hlater : addQuote (s.pools[action.tokenId]?.getD .empty) action = laterQuote pool action := by
    rw [hp, Option.getD_some]
    refine if_neg fun h => ?_
    have hpos := hinv.totalShares_pos
    rw [h] at hpos
    exact absurd hpos (by decide)
  obtain ⟨hok, herr⟩ := ho.checks ht hmin
  rw [hlater] at hok herr
  have htaken : ∀ q, laterQuote pool action = ok q → _ := fun q hq =>
    laterQuote_taken hinv.reserveHkm hinv.reserveToken hinv.totalShares_pos hinv.mean hq
  refine ⟨fun r h => ?_, fun e h => ?_⟩
  · obtain ⟨h0, hq⟩ := hok r h
    obtain ⟨hamounts, hminted, hfirst⟩ := htaken _ hq
    exact ⟨hamounts, hminted, fun hz => h0 (UInt64.toNat_inj.mp (hminted.trans hz)), hfirst⟩
  · rcases herr e h with ⟨e', he⟩ | ⟨q, hq, h0⟩
    · exact laterQuote_refused hinv.reserveHkm hinv.reserveToken he
    · rw [← (htaken q hq).2.1, h0, UInt64.toNat_zero]

/-- The quotes for a later addition agree exactly when the rules meet. -/
theorem addQuotesAgree_later
    (hpools : ∀ (t : String) (pool : Pool), s.pools[t]? = some pool → PoolInvariant s t pool)
    (hp : s.pools[action.tokenId]? = some pool) (ht : action.tokenId ∈ s.tokens)
    (hmin : action.minShares = 0) (hhkm : action.amountHkm ≠ 0) (htoken : action.amountToken ≠ 0) :
    AddQuotesAgree s action ↔ RulesMeet pool action := by
  have hinv := hpools _ pool hp
  have hjavascript := javascriptAddQuote_eq hinv.reserveHkm hinv.reserveToken hinv.totalShares_pos
    hhkm htoken
  have hpython := pythonAddQuote_eq hinv.totalShares_pos action.amountHkm.toNat
    action.amountToken.toNat
  have hclients : ∀ quote ∈ [Sdk.quoteAddLiquidity, Dashboard.quoteAddLiquidity],
      quote = javascriptAddQuote := fun quote hmem => (List.mem_pair.mp hmem).elim id id
  rw [← hp] at hjavascript hpython
  constructor
  · intro h
    obtain ⟨tx, ho⟩ := exists_offers action
    obtain ⟨hok, herr⟩ := ho.later hinv hp ht hmin
    rcases hchecks : addLiquidityChecks tx s with r | e | _
    · obtain ⟨hamounts, hminted, hpos, -⟩ := hok r hchecks
      obtain ⟨hsdk, hsame⟩ := h.taken tx r ho hchecks
      have hquote := hsdk Sdk.quoteAddLiquidity List.mem_cons_self
      rw [hclients _ List.mem_cons_self, hjavascript] at hquote
      split at hquote
      · cases hquote
      · simp only [Option.some.injEq, LiquidityQuote.mk.injEq] at hquote
        rw [hpython, PythonSdk.AddPrediction.mk.injEq] at hsame
        simp only [RulesMeet, if_neg hpos]
        rw [← hminted, ← hamounts]
        exact ⟨Prod.ext hquote.2.1 hquote.2.2.1, hsame.1, Prod.ext hsame.2.1 hsame.2.2⟩
    · obtain ⟨hsdk, hsame⟩ := h.refused tx e ho hchecks
      have hquote := hsdk Sdk.quoteAddLiquidity List.mem_cons_self
      rw [hclients _ List.mem_cons_self, hjavascript] at hquote
      rw [hpython] at hsame
      simp only [RulesMeet, if_pos (herr e hchecks)]
      refine ⟨?_, hsame⟩
      by_contra hne
      rw [if_neg hne] at hquote
      cases hquote
    · exact absurd hchecks (addLiquidityChecks_ne_panicked hpools tx)
  · intro h
    constructor
    · intro tx r ho hchecks
      obtain ⟨hamounts, hminted, hpos, hfirst⟩ := (ho.later hinv hp ht hmin).1 r hchecks
      simp only [RulesMeet, if_neg hpos] at h
      obtain ⟨hratio, hclaim, hworth⟩ := h
      rw [← hamounts, Prod.mk.injEq] at hworth
      refine ⟨fun quote hmem => ?_, ?_⟩
      · rw [hclients quote hmem, hjavascript, hratio, if_neg hpos, hfirst, hminted, ← hamounts]
      · rw [hpython, hworth.1, hworth.2, hclaim, hminted]
    · intro tx e ho hchecks
      simp only [RulesMeet, if_pos ((ho.later hinv hp ht hmin).2 e hchecks)] at h
      refine ⟨fun quote hmem => ?_, ?_⟩
      · rw [hclients quote hmem, hjavascript, if_pos h.1]
      · rw [hpython]
        exact h.2

/-- The quotes of the clients for a reachable pool, or for the first addition to one, agree with
the ledger exactly when the side that binds is divided without a remainder, or nothing is minted. -/
theorem liquidity_quotes_agree_iff (hE : E.saturation = .clamp) (hr : Reachable E s)
    (ht : action.tokenId ∈ s.tokens) (hmin : action.minShares = 0) (hhkm : action.amountHkm ≠ 0)
    (htoken : action.amountToken ≠ 0) :
    (AddQuotesAgree s action ∧ ∀ (pool : Pool) (shares : UInt64),
      s.pools[action.tokenId]? = some pool → RemoveQuotesAgree s action.tokenId pool shares) ↔
    ∀ pool : Pool, s.pools[action.tokenId]? = some pool → BindsExactly pool action := by
  cases hp : s.pools[action.tokenId]? with
  | none =>
    refine iff_of_true ⟨addQuotesAgree_first hp ht hmin hhkm htoken, ?_⟩ ?_
    · intro pool shares h
      cases h
    · intro pool h
      cases h
  | some pool =>
    have hinv := hr.poolInvariant hE hp
    rw [addQuotesAgree_later (fun t pool hp => hr.poolInvariant hE hp) hp ht hmin hhkm htoken,
      rulesMeet_iff hinv.reserveHkm hinv.reserveToken hinv.totalShares_pos]
    constructor
    · rintro ⟨h, -⟩ pool' hpool
      exact Option.some.inj hpool ▸ h
    · intro h
      refine ⟨h pool rfl, fun pool' shares hpool => ?_⟩
      exact Option.some.inj hpool ▸ hinv.removeQuotesAgree hp shares

/-- An offer that the ledger took names a token. -/
theorem Sample.token_of_offer {s s' : ChainState} {hkm token nonce : UInt64}
    (h : applyVerified (Sample.node []) (Sample.offer hkm token nonce) 1 s = ok ((), s')) :
    Sample.tokenId ∈ s.tokens := by
  obtain ⟨r, hc, -, -⟩ := guarded_eq_ok.mp (applyVerified_addLiquidity rfl h)
  obtain ⟨action, -, hamm, htoken, hmem, -⟩ := addLiquidityChecks_ok hc
  cases hamm
  rwa [htoken] at hmem

/-- A unit of HKM in the pool divides what binds. -/
theorem BindsExactly.of_unit (hunit : pool.reserveHkm = 1)
    (hbind : tokenOptimal pool action ≤ action.amountToken.toNat) : BindsExactly pool action := by
  refine .inr (.inl ⟨hbind, ?_, ?_⟩) <;> rw [hunit] <;> exact one_dvd _

/-- The quotes at the lopsided pool, for two units of HKM with plenty of the token. -/
theorem liquidity_quotes_agree_sample : ∃ s, Reachable (Sample.node []) s ∧
    AddQuotesAgree s ⟨Sample.tokenId, 2, 8000000000000000000, 0, 0, false, 0, 0, 0, 0⟩ := by
  obtain ⟨s, pool, hr, hp, hx, hy, hsmall, -⟩ := Sample.exists_lopsided
  obtain ⟨⟨⟨⟩, s'⟩, h, -⟩ := exists_of_returns hsmall
  refine ⟨s, hr, ((liquidity_quotes_agree_iff rfl hr (Sample.token_of_offer h) rfl (by decide)
    (by decide)).mpr fun pool' hp' => ?_).1⟩
  obtain rfl : pool = pool' := Option.some.inj (hp.symm.trans hp')
  refine .of_unit hx ?_
  rw [tokenOptimal, hx, hy]
  decide +kernel

/-- Two offers to the lopsided pool are quoted wrong: one token more than divides, which Python does
not take, and a hundred units of HKM that match more tokens than a word holds. -/
theorem liquidity_quotes_differ : ∃ s pool, Reachable (Sample.node []) s ∧
    s.pools[Sample.tokenId]? = some pool ∧ pool.reserveHkm = 1 ∧
    pool.reserveToken = 1000000000000000000 ∧
    ¬ AddQuotesAgree s ⟨Sample.tokenId, 2, 1000000000000000001, 0, 0, false, 0, 0, 0, 0⟩ ∧
    ¬ AddQuotesAgree s ⟨Sample.tokenId, 100, 8000000000000000000, 0, 0, false, 0, 0, 0, 0⟩ := by
  obtain ⟨s, pool, hr, hp, hx, hy, hsmall, -⟩ := Sample.exists_lopsided
  obtain ⟨⟨⟨⟩, s'⟩, h, -⟩ := exists_of_returns hsmall
  have hinv := hr.poolInvariant rfl hp
  have hrules := fun (t : UInt64) (h₁ : UInt64) (hhkm : h₁ ≠ 0) (htoken : t ≠ 0) =>
    (addQuotesAgree_later (fun t pool hp => hr.poolInvariant rfl hp) hp (Sample.token_of_offer h)
      (rfl : (⟨Sample.tokenId, h₁, t, 0, 0, false, 0, 0, 0, 0⟩ : AmmAction).minShares = 0)
      hhkm htoken).trans (rulesMeet_iff hinv.reserveHkm hinv.reserveToken hinv.totalShares_pos)
  -- either offer is worth as many shares as the pool has
  have hworth : ∀ h₁ t : ℕ, 1 ≤ h₁ → 1000000000000000000 ≤ t → claimOf pool (h₁, t) ≠ 0 := by
    intro h₁ t hh ht
    have hmono : claimOf pool (1, 1000000000000000000) ≤ claimOf pool (h₁, t) := claimOf_mono hh ht
    have hall : claimOf pool (1, 1000000000000000000) = pool.totalShares.toNat := by
      rw [claimOf, hx, hy]
      show min (1 * _ / 1) (1000000000000000000 * _ / 1000000000000000000) = _
      omega
    have hpos := hinv.totalShares_pos
    omega
  refine ⟨s, pool, hr, hp, hx, hy, ?_, ?_⟩
  · rw [hrules _ _ (by decide) (by decide), BindsExactly, tokenOptimal, hx, hy]
    rintro (hnone | ⟨hbind, -⟩ | ⟨-, -, -, hexact⟩)
    · exact hworth _ _ (by decide) (by decide) hnone
    · exact absurd hbind (by decide)
    · exact absurd hexact (by decide)
  · rw [hrules _ _ (by decide) (by decide), BindsExactly, Narrows, tokenOptimal, hx, hy]
    rintro (hnone | ⟨hbind, -⟩ | ⟨-, hnarrows, -⟩)
    · exact hworth _ _ (by decide) (by decide) hnone
    · exact absurd hbind (by decide)
    · exact absurd hnarrows (by decide)

end ChainState
