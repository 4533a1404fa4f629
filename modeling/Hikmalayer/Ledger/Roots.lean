/-
# The integer square root

Newton's iteration of the node and of the clients starts above the root, stays above it and stops
at it.  The sums of the node's iteration stay within 128 bits.
-/
import Mathlib.Tactic
import Hikmalayer.Foundations.ConstantProduct
import Hikmalayer.Foundations.Word
import Hikmalayer.Model.Quotes

open Outcome

/-! ## The clients -/

/-- From an estimate above it the iteration ends at the root. -/
theorem newtonRoot_eq_sqrt {n : ℕ} : ∀ {x : ℕ}, 0 < x → x ≤ n → Nat.sqrt n ≤ x →
    newtonRoot n x ((x + n / x) / 2) = Nat.sqrt n := by
  intro x
  induction x using Nat.strong_induction_on with
  | _ x ih =>
    intro hx hle hroot
    rw [newtonRoot]
    split
    · rename_i hlt
      have hpos := ConstantProduct.newton_pos hx hle
      exact ih _ hlt hpos (hlt.le.trans hle) (ConstantProduct.sqrt_le_newton n hx)
    · rename_i hge
      exact ConstantProduct.eq_sqrt_of_newton_ge hx hroot (not_lt.mp hge)

/-- The first estimate of both loops is a Newton step from the argument. -/
theorem first_estimate {n : ℕ} (hn : 0 < n) : (n + 1) / 2 = (n + n / n) / 2 := by
  rw [Nat.div_self hn]

theorem clientIsqrt_eq_sqrt (n : ℕ) : clientIsqrt n = Nat.sqrt n := by
  unfold clientIsqrt
  split
  · rename_i hn
    interval_cases n <;> simp
  · rename_i hn
    have hpos : 0 < n := by omega
    rw [first_estimate hpos]
    exact newtonRoot_eq_sqrt hpos le_rfl (Nat.sqrt_le_self n)

/-! ## The node -/

/-- The sum of a step fits 128 bits, up to the largest argument. -/
theorem newton_sum_lt {n x : ℕ} (hlt : n < 2 ^ 128) (hx : 0 < x) (hroot : Nat.sqrt n ≤ x)
    (hle : x ≤ (n + 1) / 2) : x + n / x < 2 ^ 128 := by
  rcases Nat.lt_or_ge 1 x with h1 | h1
  · exact (ConstantProduct.newton_sum_le h1 hle).trans_lt hlt
  · -- an estimate of one bounds the argument by three
    have hone : x = 1 := by omega
    have hsmall : n < 2 * 2 := Nat.sqrt_lt.mp (by omega)
    rw [hone, Nat.div_one]
    omega

/-- The iteration neither divides by zero nor leaves 128 bits. -/
theorem isqrtLoop_total {n : ℕ} (hlt : n < 2 ^ 128) : ∀ {x : ℕ}, 0 < x → x ≤ n →
    ∃ r, isqrtLoop n x ((x + n / x) / 2) = ok r := by
  intro x
  induction x using Nat.strong_induction_on with
  | _ x ih =>
    intro hx hle
    rw [isqrtLoop]
    split
    · rename_i hstep
      have hpos := ConstantProduct.newton_pos hx hle
      have hsum := newton_sum_lt hlt hpos (ConstantProduct.sqrt_le_newton n hx)
        (ConstantProduct.newton_le hx hle)
      rw [Word.wideDiv_of_pos hpos, plain_some, ok_bind, Word.wideAdd_of_lt hsum, plain_some,
        ok_bind]
      exact ih _ hstep hpos (hstep.le.trans hle)
    · exact ⟨x, rfl⟩

theorem isqrtU128_total {n : ℕ} (h : n < 2 ^ 128) : ∃ r, isqrtU128 n = ok r := by
  unfold isqrtU128
  split
  · exact ⟨n, rfl⟩
  · have hpos : 0 < n := by omega
    rw [first_estimate hpos]
    exact isqrtLoop_total h hpos le_rfl

/-- Where the checked loop ends it agrees with the one without a bound. -/
theorem newtonRoot_eq {n : ℕ} : ∀ {x y r : ℕ}, isqrtLoop n x y = ok r → newtonRoot n x y = r := by
  intro x
  induction x using Nat.strongRecOn with
  | ind x ih =>
    intro y r h
    rw [isqrtLoop] at h
    rw [newtonRoot]
    split at h
    · rename_i hlt
      simp only [Outcome.bind_eq_ok, plain_eq_ok, Word.wideDiv_eq_some] at h
      obtain ⟨quotient, ⟨rfl, -⟩, sum, hsum, h⟩ := h
      rw [Word.wideAdd_eq_some] at hsum
      rw [dif_pos hlt, ← hsum.1]
      exact ih y hlt h
    · rename_i hge
      rw [dif_neg hge]
      exact ok.inj h

theorem clientIsqrt_eq {n r : ℕ} (h : isqrtU128 n = ok r) : clientIsqrt n = r := by
  unfold isqrtU128 at h
  unfold clientIsqrt
  split at h
  · rename_i hlt
    rw [if_pos hlt]
    exact ok.inj h
  · rename_i hge
    rw [if_neg hge]
    exact newtonRoot_eq h

theorem isqrtU128_eq_sqrt {n r : ℕ} (h : isqrtU128 n = ok r) : r = Nat.sqrt n := by
  rw [← clientIsqrt_eq h, clientIsqrt_eq_sqrt]

theorem isqrtU128_sq_le {n r : ℕ} (h : isqrtU128 n = ok r) : r ^ 2 ≤ n := by
  rw [isqrtU128_eq_sqrt h]
  exact Nat.sqrt_le' n

theorem isqrtLoop_ne_err {n : ℕ} {e : String} : ∀ {x y : ℕ}, isqrtLoop n x y ≠ err e := by
  intro x
  induction x using Nat.strongRecOn with
  | ind x ih =>
    intro y h
    rw [isqrtLoop] at h
    split at h
    · rename_i hlt
      simp only [Outcome.bind_eq_err, plain_ne_err, false_or] at h
      obtain ⟨_, -, _, -, h⟩ := h
      exact ih y hlt h
    · cases h

theorem isqrtU128_ne_err {n : ℕ} {e : String} : isqrtU128 n ≠ err e := by
  unfold isqrtU128
  split
  · exact fun h => nomatch h
  · exact isqrtLoop_ne_err

/-! ## The three of them -/

/-- For every argument there is one floor of the root: the clients return it, and so does the node
for every argument of 128 bits. -/
theorem isqrt_exact (n : ℕ) :
    ∃ r, (r * r ≤ n ∧ n < (r + 1) * (r + 1)) ∧
      (∀ r', r' * r' ≤ n → n < (r' + 1) * (r' + 1) → r' = r) ∧
      (n < 2 ^ 128 → isqrtU128 n = ok r) ∧ Sdk.isqrt n = ok r ∧ PythonSdk.isqrt n = ok r := by
  have hpos : ¬ (n : ℤ) < 0 := by omega
  have hclient : clientIsqrt (n : ℤ).toNat = Nat.sqrt n := by
    rw [Int.toNat_natCast, clientIsqrt_eq_sqrt]
  refine ⟨Nat.sqrt n, ⟨Nat.sqrt_le n, Nat.lt_succ_sqrt n⟩, ?_, ?_, ?_, ?_⟩
  · intro r' hle hlt
    exact Nat.eq_sqrt.mpr ⟨hle, hlt⟩
  · intro h
    obtain ⟨r, hr⟩ := isqrtU128_total h
    rw [hr, isqrtU128_eq_sqrt hr]
  · rw [Sdk.isqrt, if_neg hpos, hclient]
  · rw [PythonSdk.isqrt, if_neg hpos, hclient]

/-- The largest argument of 128 bits. -/
theorem isqrt_exact_top :
    ∃ r, (2 ^ 64 - 1) * (2 ^ 64 - 1) ≤ r * r ∧ r * r ≤ 2 ^ 128 - 1 ∧
      isqrtU128 (2 ^ 128 - 1) = ok r := by
  obtain ⟨r, ⟨hle, hlt⟩, -, hnode, -, -⟩ := isqrt_exact (2 ^ 128 - 1)
  refine ⟨r, ?_, hle, hnode (by norm_num)⟩
  have hge : 2 ^ 64 - 1 ≤ r := by
    by_contra hneg
    have hsmall : r + 1 ≤ 2 ^ 64 - 1 := by omega
    have := Nat.mul_le_mul hsmall hsmall
    omega
  exact Nat.mul_le_mul hge hge
