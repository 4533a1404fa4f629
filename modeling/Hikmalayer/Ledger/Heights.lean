/-
# What the height of a block asks of a transaction

The same transaction on the same ledger, at another height: a slash has to come within its window
and the heights that a withdrawal or a vest promises have to be numbers.  Nothing else in the
rules depends on the height.
-/
import Mathlib.Tactic
import Hikmalayer.Ledger.Nonces

open Outcome Exec OrderedMap

namespace Transaction

/-- The transaction may be applied at a height, as far as the height goes. -/
def Timely (tx : Transaction) (height : UInt64) : Prop :=
  match tx.transactionType with
  | .slash => ∀ proof, tx.slashProof = some proof →
    height.toNat ≤ proof.blockA.index.toNat + slashingWindowBlocks.toNat
  | .withdraw => height.toNat + unbondingBlocks.toNat < 2 ^ 64
  | .vest => ∀ duration, tx.vestingDurationBlocks = some duration →
    height.toNat + duration.toNat < 2 ^ 64
  | _ => True

end Transaction

namespace ChainState

variable {E : Node} {s s' : ChainState} {tx : Transaction} {height later : UInt64} {u : Unit}

/-! ## The three types that depend on it -/

/-- A slash that passes is within its window. -/
theorem slashChecks_window {r : SlashRequest} {proof : SlashProof}
    (h : slashChecks tx height s = ok r) (hproof : tx.slashProof = some proof) :
    height.toNat ≤ proof.blockA.index.toNat + slashingWindowBlocks.toNat := by
  simp only [slashChecks, Outcome.bind_eq_ok, okOr_eq_ok, ensure_eq_ok, plain_eq_ok,
    Word.checkedAdd_eq_some, UInt64.lt_iff_toNat_lt, not_lt] at h
  obtain ⟨proof', hproof', deadline, hdeadline, _, hle, -⟩ := h
  rw [hproof, Option.some.injEq] at hproof'
  rw [hproof', ← hdeadline]
  exact hle

/-- A slash at another height within the window. -/
theorem slashChecks_at {r : SlashRequest} (h : slashChecks tx height s = ok r)
    (hle : ∀ proof, tx.slashProof = some proof →
      later.toNat ≤ proof.blockA.index.toNat + slashingWindowBlocks.toNat) :
    slashChecks tx later s = ok r := by
  simp only [slashChecks, Outcome.bind_eq_ok, okOr_eq_ok, ensure_eq_ok, plain_eq_ok, pure_eq,
    ok.injEq, Word.checkedAdd_eq_some, UInt64.lt_iff_toNat_lt, not_lt] at h ⊢
  obtain ⟨proof, hproof, deadline, hdeadline, _, -, hrest⟩ := h
  exact ⟨proof, hproof, deadline, hdeadline, (), hdeadline ▸ hle proof hproof, hrest⟩

/-- A withdrawal at another height. -/
theorem withdrawEffects_at {r : WithdrawRequest} (h : withdrawEffects E tx height r s = ok (u, s')) :
    (∃ t, withdrawEffects E tx later r s = ok ((), t)) ↔
      later.toNat + unbondingBlocks.toNat < 2 ^ 64 := by
  simp only [withdrawEffects, Exec.bind_eq_ok, read_eq_ok, ok.injEq, debit_eq_ok,
    collectFee_eq_ok, setStake_eq_ok, plain_eq_ok, modify_apply, Prod.mk.injEq,
    Word.checkedAdd_eq_some] at h ⊢
  obtain ⟨fee, _, ⟨rfl, rfl⟩, _, _, ⟨rest, hr, rfl⟩, _, _, ⟨pot, hp, rfl⟩, _, _,
    ⟨info, hi, rfl⟩, _, _, ⟨-, rfl⟩, -, -⟩ := h
  constructor
  · rintro ⟨t, _, _, -, _, _, -, _, _, -, _, _, -, releaseHeight, _, ⟨hrelease, -⟩, -⟩
    rw [← hrelease]
    exact Word.toNat_lt releaseHeight
  · intro hlt
    exact ⟨_, _, _, ⟨rfl, rfl⟩, (), _, ⟨rest, hr, rfl⟩, (), _, ⟨pot, hp, rfl⟩, (), _,
      ⟨info, hi, rfl⟩, later + unbondingBlocks, _, ⟨Word.toNat_add_of_lt hlt, rfl⟩, trivial, rfl⟩

/-- A vest at another height. -/
theorem vestEffects_at {r : VestRequest} (hle : r.cliff.toNat ≤ r.duration.toNat)
    (h : vestEffects E tx height r s = ok (u, s')) :
    (∃ t, vestEffects E tx later r s = ok ((), t)) ↔
      later.toNat + r.duration.toNat < 2 ^ 64 := by
  simp only [vestEffects, Exec.bind_eq_ok, read_eq_ok, ok.injEq, totalDebit_eq_ok, debit_eq_ok,
    tryCredit_eq_ok, collectFee_eq_ok, plain_eq_ok, Word.checkedAdd_eq_some, modify_apply,
    Prod.mk.injEq] at h ⊢
  obtain ⟨fee, _, ⟨rfl, rfl⟩, total, _, ⟨ht, rfl⟩, _, _, ⟨rest, hr, rfl⟩, _, _,
    ⟨balance, hb, rfl⟩, _, _, ⟨pot, hp, rfl⟩, _, _, ⟨-, rfl⟩, _, _, ⟨-, rfl⟩, -, -⟩ := h
  constructor
  · rintro ⟨t, _, _, -, _, _, -, _, _, -, _, _, -, _, _, -, _, _, -, endHeight, _, ⟨hend, -⟩, -⟩
    rw [← hend]
    exact Word.toNat_lt endHeight
  · intro hlt
    exact ⟨_, _, _, ⟨rfl, rfl⟩, total, _, ⟨ht, rfl⟩, (), _, ⟨rest, hr, rfl⟩, (), _,
      ⟨balance, hb, rfl⟩, (), _, ⟨pot, hp, rfl⟩, later + r.cliff, _,
      ⟨Word.toNat_add_of_lt (by omega), rfl⟩, later + r.duration, _,
      ⟨Word.toNat_add_of_lt hlt, rfl⟩, trivial, rfl⟩

/-- The height is only written into the token that is created. -/
theorem tokenCreateEffects_at {r : TokenRequest}
    (h : tokenCreateEffects E tx height r s = ok (u, s')) :
    ∃ t, tokenCreateEffects E tx later r s = ok ((), t) := by
  simp only [tokenCreateEffects, Exec.bind_eq_ok, read_eq_ok, ok.injEq, debit_eq_ok,
    collectFee_eq_ok, modify_apply, Prod.mk.injEq, tryCreditToken_eq_ok] at h ⊢
  obtain ⟨_, _, ⟨rfl, rfl⟩, _, _, ⟨rest, hr, rfl⟩, _, _, ⟨pot, hp, rfl⟩, _, _, ⟨-, rfl⟩,
    balance, hb, -⟩ := h
  exact ⟨_, _, _, ⟨rfl, rfl⟩, (), _, ⟨rest, hr, rfl⟩, (), _, ⟨pot, hp, rfl⟩, (), _, ⟨trivial, rfl⟩,
    balance, hb, rfl⟩

/-! ## The branches -/

/-- Two guarded branches with the same checks. -/
theorem guarded_at {α : Type} {checks : ChainState → Outcome String α} {sender : α → String}
    {nonce : UInt64} {effects effects' : α → StateAction} {c : Prop}
    (he : ∀ a, checks s = ok a → effects a (s.setNonce (sender a) nonce) = ok ((), s') →
      ((∃ t, effects' a (s.setNonce (sender a) nonce) = ok ((), t)) ↔ c))
    (h : guarded checks sender nonce effects s = ok ((), s')) :
    (∃ t, guarded checks sender nonce effects' s = ok ((), t)) ↔ c := by
  obtain ⟨a, ha, hn, heffects⟩ := guarded_eq_ok.mp h
  rw [← he a ha heffects]
  constructor
  · rintro ⟨t, ht⟩
    obtain ⟨a', ha', -, he'⟩ := guarded_eq_ok.mp ht
    rw [ha, ok.injEq] at ha'
    exact ⟨t, ha' ▸ he'⟩
  · rintro ⟨t, ht⟩
    exact ⟨t, guarded_eq_ok.mpr ⟨a, ha, hn, ht⟩⟩

/-- A transaction that its branch applies at one height is applied at another one exactly when it
is timely there. -/
theorem applyBranch_at (h : applyBranch E tx height s = ok ((), s')) :
    (∃ t, applyBranch E tx later s = ok ((), t)) ↔ tx.Timely later := by
  have hfree : applyBranch E tx later = applyBranch E tx height → tx.Timely later →
      ((∃ t, applyBranch E tx later s = ok ((), t)) ↔ tx.Timely later) :=
    fun heq htimely => iff_of_true ⟨s', heq ▸ h⟩ htimely
  unfold applyBranch Transaction.Timely at *
  cases ht : tx.transactionType <;> rw [ht] at h hfree
  case withdraw =>
    exact guarded_at (fun r _ he => withdrawEffects_at he) h
  case vest =>
    refine guarded_at (fun r hc he => ?_) h
    obtain ⟨-, -, hduration, -, hle, -⟩ := vestChecks_ok hc
    rw [vestEffects_at hle he, hduration]
    simp only [Option.some.injEq, forall_eq']
  case tokenCreate =>
    exact guarded_at (fun r _ he => iff_of_true (tokenCreateEffects_at he) trivial) h
  case slash =>
    obtain ⟨r, t, hread, he⟩ := Exec.bind_eq_ok.mp h
    obtain ⟨hc, rfl⟩ := read_eq_ok.mp hread
    constructor
    · rintro ⟨t', ht'⟩ proof hproof
      obtain ⟨r', t₁, hread', -⟩ := Exec.bind_eq_ok.mp ht'
      obtain ⟨hc', -⟩ := read_eq_ok.mp hread'
      exact slashChecks_window hc' hproof
    · intro hle
      exact ⟨s', Exec.bind_eq_ok.mpr ⟨r, s, read_eq_ok.mpr ⟨slashChecks_at hc hle, rfl⟩, he⟩⟩
  all_goals exact hfree rfl trivial

/-- An applied transaction is timely, and is applied at another height when it is timely there. -/
theorem applyVerified_at (h : applyVerified E tx height s = ok ((), s')) :
    (∃ t, applyVerified E tx later s = ok ((), t)) ↔ tx.Timely later := by
  simp only [applyVerified, Exec.bind_eq_ok, read_eq_ok] at h ⊢
  obtain ⟨_, _, ⟨hscope, rfl⟩, _, _, ⟨hpolicy, rfl⟩, hbranch⟩ := h
  have hlater : (∃ t, applyBranch E tx later s = ok ((), t)) ↔ tx.Timely later :=
    applyBranch_at hbranch
  rw [← hlater]
  constructor
  · rintro ⟨t, _, _, ⟨-, rfl⟩, _, _, ⟨-, rfl⟩, ht⟩
    exact ⟨t, ht⟩
  · rintro ⟨t, ht⟩
    exact ⟨t, (), _, ⟨hscope, rfl⟩, (), _, ⟨hpolicy, rfl⟩, ht⟩

end ChainState
