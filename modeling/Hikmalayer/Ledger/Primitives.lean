/-
# What the primitives do

One lemma for each primitive and each way it can end: the value it returns and the
field it writes (`_eq_ok`), when it refuses (`_err`), when it can abort (`_panicked`).
Everything about a branch of the state machine is derived from these.
-/
import Mathlib.Tactic
import Hikmalayer.Ledger.Totals

open Outcome Exec OrderedMap

namespace ChainState

variable {E : Node} {s s' : ChainState} {account tokenId : String} {amount nonce fee : UInt64}
  {u : Unit} {e : String}

/-! ## Nonces -/

/-- The nonce a transaction of the account must carry next. -/
def NextNonce (s : ChainState) (account : String) (nonce : UInt64) : Prop :=
  nonce.toNat = (s.nonceOf account).toNat + 1

theorem consumeNonce_eq_ok :
    consumeNonce account nonce s = ok (u, s') ↔
      s.NextNonce account nonce ∧ s' = s.setNonce account nonce := by
  simp only [consumeNonce, NextNonce, update_eq_ok, Outcome.bind_eq_ok, plain_eq_ok,
    ensure_eq_ok, pure_eq, ok.injEq, Word.checkedAdd_eq_some]
  constructor
  · rintro ⟨expected, he, _, rfl, rfl⟩
    exact ⟨he, rfl⟩
  · rintro ⟨h, rfl⟩
    exact ⟨nonce, h, (), rfl, rfl⟩

theorem consumeNonce_of_next (h : s.NextNonce account nonce) :
    consumeNonce account nonce s = ok ((), s.setNonce account nonce) :=
  consumeNonce_eq_ok.mpr ⟨h, rfl⟩

theorem consumeNonce_err (h : consumeNonce account nonce s = err (e, s')) :
    ¬ s.NextNonce account nonce ∧ s' = s := by
  simp only [consumeNonce, update_eq_err, Outcome.bind_eq_err, plain_ne_err, plain_eq_ok,
    ensure_eq_err, Word.checkedAdd_eq_some, pure_eq, reduceCtorEq, and_false, exists_false,
    or_false, false_or] at h
  obtain ⟨⟨expected, he, hne, -⟩, rfl⟩ := h
  refine ⟨fun hn => hne (Word.toNat_ext ?_), rfl⟩
  rw [he]
  exact hn

/-- The nonce counter aborts only when it is at its maximum. -/
theorem consumeNonce_eq_panicked :
    consumeNonce account nonce s = panicked ↔ s.nonceOf account = Word.max64 := by
  simp only [consumeNonce, update_eq_panicked, Outcome.bind_eq_panicked, plain_eq_panicked,
    ensure_ne_panicked, pure_eq, reduceCtorEq, and_false, exists_false, or_false,
    Word.checkedAdd_eq_none]
  have h := Word.toNat_lt (s.nonceOf account)
  rw [← UInt64.toNat_inj, Word.max64_toNat, UInt64.toNat_one]
  omega

/-! ## Balances -/

theorem debit_eq_ok :
    debit account amount s = ok (u, s') ↔
      ∃ rest : UInt64, rest.toNat + amount.toNat = (valueAt s.balances account).toNat ∧
        s' = s.setBalance account rest := by
  change _ ↔ ∃ rest : UInt64, rest.toNat + amount.toNat = (s.balanceOf account).toNat ∧ _
  simp only [debit, update_eq_ok, Outcome.bind_eq_ok, plain_eq_ok, ensure_eq_ok,
    pure_eq, ok.injEq, Word.checkedSub_eq_some, eq_comm (a := s')]
  constructor
  · rintro ⟨_, _, rest, he, hs⟩
    exact ⟨rest, he, hs⟩
  · rintro ⟨rest, h, hs⟩
    exact ⟨(), by rw [UInt64.lt_iff_toNat_lt]; omega, rest, h, hs⟩

theorem debit_of_le (h : amount.toNat ≤ (valueAt s.balances account).toNat) :
    debit account amount s =
      ok ((), s.setBalance account (valueAt s.balances account - amount)) :=
  debit_eq_ok.mpr ⟨_, Word.checkedSub_eq_some.mp (Word.checkedSub_of_le h), rfl⟩

theorem debit_err (h : debit account amount s = err (e, s')) :
    (valueAt s.balances account).toNat < amount.toNat ∧ s' = s := by
  simp only [debit, update_eq_err, Outcome.bind_eq_err, plain_ne_err, ensure_eq_err,
    pure_eq, reduceCtorEq, and_false, exists_false, or_false, not_not,
    UInt64.lt_iff_toNat_lt] at h
  exact ⟨h.1.1, h.2.symm⟩

theorem debit_ne_panicked : debit account amount s ≠ panicked := by
  simp only [debit, ne_eq, update_eq_panicked, Outcome.bind_eq_panicked, ensure_ne_panicked,
    ensure_eq_ok, plain_eq_panicked, pure_eq, reduceCtorEq, and_false, exists_false, or_false,
    false_or, Word.checkedSub_eq_none, UInt64.lt_iff_toNat_lt]
  rintro ⟨_, h₁, h₂⟩
  exact h₁ h₂

theorem tryCredit_eq_ok :
    tryCredit account amount s = ok (u, s') ↔
      ∃ balance : UInt64, balance.toNat = (valueAt s.balances account).toNat + amount.toNat ∧
        s' = s.setBalance account balance := by
  simp only [tryCredit, balanceOf, update_eq_ok, Outcome.bind_eq_ok, okOr_eq_ok, pure_eq,
    ok.injEq, Word.checkedAdd_eq_some, eq_comm (a := s')]

theorem tryCredit_err (h : tryCredit account amount s = err (e, s')) :
    2 ^ 64 ≤ (valueAt s.balances account).toNat + amount.toNat ∧ s' = s := by
  simp only [tryCredit, balanceOf, update_eq_err, Outcome.bind_eq_err, okOr_eq_err,
    Word.checkedAdd_eq_none, pure_eq, reduceCtorEq, and_false, exists_false, or_false] at h
  exact ⟨h.1.1, h.2.symm⟩

theorem tryCredit_ne_panicked : tryCredit account amount s ≠ panicked := by
  simp [tryCredit, Outcome.bind_eq_panicked]

theorem credit_eq_ok :
    credit E account amount s = ok (u, s') ↔
      ∃ balance, E.saturation.add (valueAt s.balances account) amount = some balance ∧
        s' = s.setBalance account balance := by
  simp only [credit, balanceOf, update_eq_ok, Outcome.bind_eq_ok, plain_eq_ok, pure_eq,
    ok.injEq, eq_comm (a := s')]

theorem credit_ne_err {r : String × ChainState} : credit E account amount s ≠ err r := by
  obtain ⟨e, s'⟩ := r
  simp [credit, Outcome.bind_eq_err]

theorem collectFee_eq_ok :
    collectFee E fee s = ok (u, s') ↔
      ∃ pot, E.saturation.add s.feePot fee = some pot ∧ s' = s.setFeePot pot := by
  simp only [collectFee, update_eq_ok, Outcome.bind_eq_ok, plain_eq_ok, pure_eq, ok.injEq,
    eq_comm (a := s')]

theorem collectFee_ne_err {r : String × ChainState} : collectFee E fee s ≠ err r := by
  obtain ⟨e, s'⟩ := r
  simp [collectFee, Outcome.bind_eq_err]

theorem totalDebit_eq_ok {total : UInt64} :
    totalDebit amount fee = ok total ↔ total.toNat = amount.toNat + fee.toNat := by
  rw [totalDebit, okOr_eq_ok, Word.checkedAdd_eq_some]

/-! ## Token balances -/

theorem tryCreditToken_eq_ok :
    tryCreditToken tokenId account amount s = ok (u, s') ↔
      ∃ balance : UInt64,
        balance.toNat = (valueAt (mapAt s.tokenBalances tokenId) account).toNat + amount.toNat ∧
        s' = s.setHolders tokenId ((mapAt s.tokenBalances tokenId).insert account balance) := by
  simp only [tryCreditToken, tokenBalanceOf, update_eq_ok, Outcome.bind_eq_ok, okOr_eq_ok,
    pure_eq, ok.injEq, Word.checkedAdd_eq_some, eq_comm (a := s')]

theorem tryCreditToken_err (h : tryCreditToken tokenId account amount s = err (e, s')) :
    2 ^ 64 ≤ (valueAt (mapAt s.tokenBalances tokenId) account).toNat + amount.toNat ∧
      s' = s := by
  simp only [tryCreditToken, tokenBalanceOf, update_eq_err, Outcome.bind_eq_err, okOr_eq_err,
    Word.checkedAdd_eq_none, pure_eq, reduceCtorEq, and_false, exists_false, or_false] at h
  exact ⟨h.1.1, h.2.symm⟩

theorem tryCreditToken_ne_panicked : tryCreditToken tokenId account amount s ≠ panicked := by
  simp [tryCreditToken, Outcome.bind_eq_panicked]

theorem creditToken_eq_ok :
    creditToken E tokenId account amount s = ok (u, s') ↔
      ∃ balance,
        E.saturation.add (valueAt (mapAt s.tokenBalances tokenId) account) amount = some balance ∧
        s' = s.setHolders tokenId ((mapAt s.tokenBalances tokenId).insert account balance) := by
  simp only [creditToken, tokenBalanceOf, update_eq_ok, Outcome.bind_eq_ok, plain_eq_ok, pure_eq,
    ok.injEq, eq_comm (a := s')]

theorem creditToken_ne_err {r : String × ChainState} :
    creditToken E tokenId account amount s ≠ err r := by
  obtain ⟨e, s'⟩ := r
  simp [creditToken, Outcome.bind_eq_err]

/-- A token debit returns when the holder is recorded and holds enough. -/
theorem debitToken_eq_ok :
    debitToken tokenId account amount s = ok (u, s') ↔
      tokenId ∈ s.tokenBalances ∧ account ∈ mapAt s.tokenBalances tokenId ∧
      ∃ rest : UInt64,
        rest.toNat + amount.toNat = (valueAt (mapAt s.tokenBalances tokenId) account).toNat ∧
        s' = s.setHolders tokenId
          (writeOrRemove (mapAt s.tokenBalances tokenId) account rest) := by
  simp only [debitToken, update_eq_ok, Outcome.bind_eq_ok, okOr_eq_ok, plain_eq_ok,
    ensure_eq_ok, pure_eq, ok.injEq, Word.checkedSub_eq_some, eq_comm (a := s')]
  constructor
  · rintro ⟨_, _, holders, hh, entry, he, rest, hr, hs⟩
    have hm : mapAt s.tokenBalances tokenId = holders := by rw [mapAt, hh, Option.getD_some]
    rw [hm, valueAt_of_lookup he]
    exact ⟨Std.ExtTreeMap.mem_iff_isSome_getElem?.mpr (by rw [hh]; rfl),
      Std.ExtTreeMap.mem_iff_isSome_getElem?.mpr (by rw [he]; rfl), rest, hr, hs⟩
  · rintro ⟨ht, ha, rest, hr, hs⟩
    obtain ⟨holders, hh⟩ := Option.isSome_iff_exists.mp
      (Std.ExtTreeMap.mem_iff_isSome_getElem?.mp ht)
    have hm : mapAt s.tokenBalances tokenId = holders := by rw [mapAt, hh, Option.getD_some]
    rw [hm] at ha hr hs
    obtain ⟨entry, he⟩ := Option.isSome_iff_exists.mp
      (Std.ExtTreeMap.mem_iff_isSome_getElem?.mp ha)
    rw [valueAt_of_lookup he] at hr
    refine ⟨(), ?_, holders, hh, entry, he, rest, hr, hs⟩
    rw [UInt64.lt_iff_toNat_lt, tokenBalanceOf, hm, valueAt_of_lookup he]
    omega

/-- A token debit refuses when the balance is too small, or the token has no holders. -/
theorem debitToken_err (h : debitToken tokenId account amount s = err (e, s')) :
    ((valueAt (mapAt s.tokenBalances tokenId) account).toNat < amount.toNat ∨
      ¬ tokenId ∈ s.tokenBalances) ∧ s' = s := by
  simp only [debitToken, update_eq_err, Outcome.bind_eq_err, plain_ne_err,
    ensure_eq_err, ensure_eq_ok, okOr_eq_err, plain_eq_ok, pure_eq, reduceCtorEq, and_false,
    exists_false, or_false, not_not, UInt64.lt_iff_toNat_lt] at h
  obtain ⟨h | ⟨_, _, h, -⟩, rfl⟩ := h
  · exact ⟨Or.inl h.1, rfl⟩
  · refine ⟨Or.inr fun hm => ?_, rfl⟩
    rw [Std.ExtTreeMap.mem_iff_isSome_getElem?, h] at hm
    simp at hm

/-- A token debit aborts only on a missing holder of a token that has holders. -/
theorem debitToken_panicked (h : debitToken tokenId account amount s = panicked) :
    tokenId ∈ s.tokenBalances ∧ ¬ account ∈ mapAt s.tokenBalances tokenId ∧ amount = 0 := by
  simp only [debitToken, update_eq_panicked, Outcome.bind_eq_panicked,
    ensure_ne_panicked, ensure_eq_ok, okOr_ne_panicked, okOr_eq_ok, plain_eq_panicked,
    plain_eq_ok, pure_eq, reduceCtorEq, and_false, exists_false, or_false, false_or,
    Word.checkedSub_eq_none, UInt64.lt_iff_toNat_lt] at h
  obtain ⟨_, hle, holders, hh, h⟩ := h
  have hm : mapAt s.tokenBalances tokenId = holders := by rw [mapAt, hh, Option.getD_some]
  rw [tokenBalanceOf, hm] at hle
  rw [hm]
  rcases h with h | ⟨entry, he, h⟩
  · refine ⟨Std.ExtTreeMap.mem_iff_isSome_getElem?.mpr (by rw [hh]; rfl), ?_, ?_⟩
    · rw [Std.ExtTreeMap.mem_iff_isSome_getElem?, h]
      simp
    · rw [valueAt, h, Option.getD_none, UInt64.toNat_zero] at hle
      exact Word.toNat_ext (by rw [UInt64.toNat_zero]; omega)
  · rw [valueAt_of_lookup he] at hle
    exact absurd h hle

/-! ## Stakers -/

theorem setStake_eq_ok {stake : UInt64} :
    setStake account stake s = ok (u, s') ↔
      ∃ info, s.stakers[account]? = some info ∧
        s' = s.setStaker account { info with stake } := by
  simp only [setStake, update_eq_ok, Outcome.bind_eq_ok, plain_eq_ok, pure_eq, ok.injEq,
    eq_comm (a := s')]

theorem updateStaker_eq_ok {f : StakeInfo → StakeInfo} :
    updateStaker account f s = ok (u, s') ↔
      s' = s.setStaker account (f (s.stakers[account]?.getD .empty)) := by
  simp only [updateStaker, modify_apply, ok.injEq, Prod.mk.injEq, true_and, eq_comm (a := s')]

theorem setStake_ne_err {stake : UInt64} {r : String × ChainState} :
    setStake account stake s ≠ err r := by
  obtain ⟨e, s'⟩ := r
  simp [setStake, Outcome.bind_eq_err]

/-! ## LP shares -/

theorem burnShares_eq_ok {shares : UInt64} :
    burnShares tokenId account shares s = ok (u, s') ↔
      tokenId ∈ s.lpShares ∧ account ∈ mapAt s.lpShares tokenId ∧
      ∃ rest : UInt64,
        rest.toNat + shares.toNat = (valueAt (mapAt s.lpShares tokenId) account).toNat ∧
        s' = s.setProviders tokenId (writeOrRemove (mapAt s.lpShares tokenId) account rest) := by
  simp only [burnShares, update_eq_ok, Outcome.bind_eq_ok, plain_eq_ok, pure_eq, ok.injEq,
    Word.checkedSub_eq_some, eq_comm (a := s')]
  constructor
  · rintro ⟨providers, hh, entry, he, rest, hr, hs⟩
    have hm : mapAt s.lpShares tokenId = providers := by rw [mapAt, hh, Option.getD_some]
    rw [hm, valueAt_of_lookup he]
    exact ⟨Std.ExtTreeMap.mem_iff_isSome_getElem?.mpr (by rw [hh]; rfl),
      Std.ExtTreeMap.mem_iff_isSome_getElem?.mpr (by rw [he]; rfl), rest, hr, hs⟩
  · rintro ⟨ht, ha, rest, hr, hs⟩
    obtain ⟨providers, hh⟩ := Option.isSome_iff_exists.mp
      (Std.ExtTreeMap.mem_iff_isSome_getElem?.mp ht)
    have hm : mapAt s.lpShares tokenId = providers := by rw [mapAt, hh, Option.getD_some]
    rw [hm] at ha hr hs
    obtain ⟨entry, he⟩ := Option.isSome_iff_exists.mp
      (Std.ExtTreeMap.mem_iff_isSome_getElem?.mp ha)
    rw [valueAt_of_lookup he] at hr
    exact ⟨providers, hh, entry, he, rest, hr, hs⟩

theorem burnShares_ne_err {shares : UInt64} {r : String × ChainState} :
    burnShares tokenId account shares s ≠ err r := by
  obtain ⟨e, s'⟩ := r
  simp [burnShares, Outcome.bind_eq_err]

end ChainState
