/-
# Machine words: checked, saturating and wide arithmetic

Fixed-width arithmetic as a program compiled with overflow checks sees it.  A
plain operator on `UInt64` is `checkedAdd` or `checkedSub`: it has no value when
the mathematical result does not fit.  Intermediates of 128 bits are natural
numbers with the same checks (`wideAdd`, `wideMul`, `wideDiv`).

`Saturation` says what a saturating operation does at the boundary.  A program
clamps; `trap` is the reading in which such an operation has no value, so that
"no operation saturates" is "the trapping run agrees with the clamping one".
-/
import Mathlib.Tactic

namespace Word

/-- The largest 64-bit word. -/
def max64 : UInt64 := 18446744073709551615

theorem toNat_lt (a : UInt64) : a.toNat < 2 ^ 64 := a.toNat_lt

theorem max64_toNat : max64.toNat = 18446744073709551615 := rfl

/-- A word is determined by its value. -/
theorem toNat_ext {a b : UInt64} (h : a.toNat = b.toNat) : a = b := UInt64.toNat_inj.mp h

/-- The word of a number that fits. -/
theorem toNat_ofNat_of_lt {n : ℕ} (h : n < 2 ^ 64) : (UInt64.ofNat n).toNat = n := by
  rw [UInt64.toNat_ofNat']
  exact Nat.mod_eq_of_lt h

theorem min_toNat (a b : UInt64) : (min a b).toNat = min a.toNat b.toNat := by
  change (if a ≤ b then a else b).toNat = _
  split
  · rename_i h
    exact (min_eq_left (UInt64.le_iff_toNat_le.mp h)).symm
  · rename_i h
    rw [UInt64.le_iff_toNat_le, not_le] at h
    exact (min_eq_right h.le).symm

theorem max_toNat (a b : UInt64) : (max a b).toNat = max a.toNat b.toNat := by
  change (if a ≤ b then b else a).toNat = _
  split
  · rename_i h
    exact (max_eq_right (UInt64.le_iff_toNat_le.mp h)).symm
  · rename_i h
    rw [UInt64.le_iff_toNat_le, not_le] at h
    exact (max_eq_left h.le).symm

/-! ## Plain operators -/

/-- Addition, without a value on overflow. -/
def checkedAdd (a b : UInt64) : Option UInt64 :=
  if a.toNat + b.toNat < 2 ^ 64 then some (a + b) else none

/-- Subtraction, without a value on underflow. -/
def checkedSub (a b : UInt64) : Option UInt64 :=
  if b.toNat ≤ a.toNat then some (a - b) else none

theorem toNat_add_of_lt {a b : UInt64} (h : a.toNat + b.toNat < 2 ^ 64) :
    (a + b).toNat = a.toNat + b.toNat := by
  rw [UInt64.toNat_add]
  exact Nat.mod_eq_of_lt h

theorem toNat_sub_of_le {a b : UInt64} (h : b.toNat ≤ a.toNat) :
    (a - b).toNat = a.toNat - b.toNat :=
  UInt64.toNat_sub_of_le a b (UInt64.le_iff_toNat_le.mpr h)

/-- A word with the value of a sum is that sum. -/
theorem eq_add_of_toNat {a b c : UInt64} (h : c.toNat = a.toNat + b.toNat) : c = a + b := by
  have hc := toNat_lt c
  exact toNat_ext (by rw [toNat_add_of_lt (by omega), h])

/-- The sum has a value exactly when it is the mathematical sum. -/
theorem checkedAdd_eq_some {a b c : UInt64} :
    checkedAdd a b = some c ↔ c.toNat = a.toNat + b.toNat := by
  unfold checkedAdd
  split
  · rename_i h
    rw [Option.some.injEq, ← toNat_add_of_lt h, eq_comm, UInt64.toNat_inj]
  · rename_i h
    have hc := toNat_lt c
    simp only [reduceCtorEq, false_iff]
    omega

theorem checkedAdd_eq_none {a b : UInt64} :
    checkedAdd a b = none ↔ 2 ^ 64 ≤ a.toNat + b.toNat := by
  unfold checkedAdd
  split <;> simp <;> omega

theorem checkedAdd_of_lt {a b : UInt64} (h : a.toNat + b.toNat < 2 ^ 64) :
    checkedAdd a b = some (a + b) := if_pos h

/-- The difference has a value exactly when it is the mathematical difference. -/
theorem checkedSub_eq_some {a b c : UInt64} :
    checkedSub a b = some c ↔ c.toNat + b.toNat = a.toNat := by
  unfold checkedSub
  split
  · rename_i h
    have hs := toNat_sub_of_le h
    rw [Option.some.injEq, eq_comm, ← UInt64.toNat_inj, hs]
    omega
  · rename_i h
    simp only [reduceCtorEq, false_iff]
    omega

theorem checkedSub_eq_none {a b : UInt64} :
    checkedSub a b = none ↔ a.toNat < b.toNat := by
  unfold checkedSub
  split <;> simp <;> omega

theorem checkedSub_of_le {a b : UInt64} (h : b.toNat ≤ a.toNat) :
    checkedSub a b = some (a - b) := if_pos h

/-- The sum of a list, adding from the left onto `acc`. -/
def checkedSumFrom (acc : UInt64) : List UInt64 → Option UInt64
  | [] => some acc
  | a :: rest => (checkedAdd acc a).bind fun acc' => checkedSumFrom acc' rest

/-- The sum of a list, without a value on overflow. -/
def checkedSum (l : List UInt64) : Option UInt64 := checkedSumFrom 0 l

theorem checkedSumFrom_eq_some {l : List UInt64} :
    ∀ {acc c : UInt64}, checkedSumFrom acc l = some c ↔
      c.toNat = acc.toNat + (l.map UInt64.toNat).sum := by
  induction l with
  | nil =>
    intro acc c
    rw [checkedSumFrom, Option.some.injEq, eq_comm, ← UInt64.toNat_inj]
    simp
  | cons a rest ih =>
    intro acc c
    rw [checkedSumFrom, List.map_cons, List.sum_cons]
    cases h : checkedAdd acc a with
    | none =>
      have ha := checkedAdd_eq_none.mp h
      have hc := toNat_lt c
      simp only [Option.bind_none, reduceCtorEq, false_iff]
      omega
    | some acc' =>
      have ha := checkedAdd_eq_some.mp h
      rw [Option.bind_some, ih, ha]
      omega

/-- The checked sum has a value exactly when it is the mathematical sum. -/
theorem checkedSum_eq_some {l : List UInt64} {c : UInt64} :
    checkedSum l = some c ↔ c.toNat = (l.map UInt64.toNat).sum := by
  rw [checkedSum, checkedSumFrom_eq_some, UInt64.toNat_zero, Nat.zero_add]

theorem checkedSum_of_lt {l : List UInt64} (h : (l.map UInt64.toNat).sum < 2 ^ 64) :
    checkedSum l = some (UInt64.ofNat (l.map UInt64.toNat).sum) :=
  checkedSum_eq_some.mpr (toNat_ofNat_of_lt h)

/-! ## Saturating operators -/

/-- Addition clamped to the largest word. -/
def saturatingAdd (a b : UInt64) : UInt64 :=
  if a.toNat + b.toNat < 2 ^ 64 then a + b else max64

/-- Subtraction clamped to zero. -/
def saturatingSub (a b : UInt64) : UInt64 :=
  if b.toNat ≤ a.toNat then a - b else 0

/-- Multiplication clamped to the largest word. -/
def saturatingMul (a b : UInt64) : UInt64 :=
  if a.toNat * b.toNat < 2 ^ 64 then a * b else max64

theorem saturatingAdd_toNat (a b : UInt64) :
    (saturatingAdd a b).toNat = min (a.toNat + b.toNat) (2 ^ 64 - 1) := by
  unfold saturatingAdd
  split
  · rename_i h
    rw [toNat_add_of_lt h]; omega
  · rw [max64_toNat]; omega

theorem saturatingSub_toNat (a b : UInt64) :
    (saturatingSub a b).toNat = a.toNat - b.toNat := by
  unfold saturatingSub
  split
  · rename_i h
    exact toNat_sub_of_le h
  · rename_i h
    rw [UInt64.toNat_zero]
    omega

theorem saturatingMul_toNat (a b : UInt64) :
    (saturatingMul a b).toNat = min (a.toNat * b.toNat) (2 ^ 64 - 1) := by
  unfold saturatingMul
  split
  · rename_i h
    rw [UInt64.toNat_mul, Nat.mod_eq_of_lt h]; omega
  · rw [max64_toNat]; omega

/-- What a saturating operation does when the exact result does not fit. -/
inductive Saturation where
  | clamp
  | trap
  deriving DecidableEq, Repr

namespace Saturation

/-- A saturating addition. -/
def add : Saturation → UInt64 → UInt64 → Option UInt64
  | clamp, a, b => some (saturatingAdd a b)
  | trap, a, b => checkedAdd a b

/-- A saturating subtraction. -/
def sub : Saturation → UInt64 → UInt64 → Option UInt64
  | clamp, a, b => some (saturatingSub a b)
  | trap, a, b => checkedSub a b

/-- A sum that fits is the same in both readings. -/
theorem add_of_lt (m : Saturation) {a b : UInt64} (h : a.toNat + b.toNat < 2 ^ 64) :
    m.add a b = some (a + b) := by
  cases m
  · rw [add, saturatingAdd, if_pos h]
  · exact checkedAdd_of_lt h

theorem add_zero (m : Saturation) (a : UInt64) : m.add a 0 = some a := by
  have hlt := toNat_lt a
  rw [add_of_lt m (by rw [UInt64.toNat_zero]; omega), UInt64.add_zero]

/-- A difference that fits is the same in both readings. -/
theorem sub_of_le (m : Saturation) {a b : UInt64} (h : b.toNat ≤ a.toNat) :
    m.sub a b = some (a - b) := by
  cases m
  · rw [sub, saturatingSub, if_pos h]
  · exact checkedSub_of_le h

/-- A sum that fits is exact. -/
theorem toNat_of_add {m : Saturation} {a b c : UInt64} (h : m.add a b = some c)
    (hlt : a.toNat + b.toNat < 2 ^ 64) : c.toNat = a.toNat + b.toNat := by
  rw [add_of_lt m hlt, Option.some.injEq] at h
  rw [← h, toNat_add_of_lt hlt]

/-- A difference that fits is exact. -/
theorem toNat_of_sub {m : Saturation} {a b c : UInt64} (h : m.sub a b = some c)
    (hle : b.toNat ≤ a.toNat) : c.toNat + b.toNat = a.toNat := by
  rw [sub_of_le m hle, Option.some.injEq] at h
  rw [← h, toNat_sub_of_le hle]
  omega

theorem add_clamp (a b : UInt64) : clamp.add a b = some (saturatingAdd a b) := rfl
theorem sub_clamp (a b : UInt64) : clamp.sub a b = some (saturatingSub a b) := rfl

/-- Whatever the reading, a saturating sum is at most the exact one. -/
theorem add_le {m : Saturation} {a b c : UInt64} (h : m.add a b = some c) :
    c.toNat ≤ a.toNat + b.toNat := by
  cases m
  · rw [add_clamp, Option.some.injEq] at h
    rw [← h, saturatingAdd_toNat]
    omega
  · exact (checkedAdd_eq_some.mp h).le

/-- Whatever the reading, a saturating sum is at least its first summand. -/
theorem le_add_left {m : Saturation} {a b c : UInt64} (h : m.add a b = some c) :
    a.toNat ≤ c.toNat := by
  have ha := toNat_lt a
  cases m
  · rw [add_clamp, Option.some.injEq] at h
    rw [← h, saturatingAdd_toNat]
    omega
  · have hsum := checkedAdd_eq_some.mp h
    omega

/-- Whatever the reading, a saturating sum is at least its second summand. -/
theorem le_add {m : Saturation} {a b c : UInt64} (h : m.add a b = some c) :
    b.toNat ≤ c.toNat := by
  have hb := toNat_lt b
  cases m
  · rw [add_clamp, Option.some.injEq] at h
    rw [← h, saturatingAdd_toNat]
    omega
  · have hsum := checkedAdd_eq_some.mp h
    omega

end Saturation

/-! ## 128-bit intermediates -/

/-- Addition of 128-bit values. -/
def wideAdd (a b : ℕ) : Option ℕ := if a + b < 2 ^ 128 then some (a + b) else none

/-- Multiplication of 128-bit values. -/
def wideMul (a b : ℕ) : Option ℕ := if a * b < 2 ^ 128 then some (a * b) else none

/-- Multiplication of 128-bit values clamped to the largest one. -/
def wideSaturatingMul (a b : ℕ) : ℕ := min (a * b) (2 ^ 128 - 1)

/-- Division, without a value when the divisor is zero. -/
def wideDiv (a b : ℕ) : Option ℕ := if b = 0 then none else some (a / b)

/-- The 128-bit quotient `a * b / c` of three words. -/
def mulDiv (a b c : UInt64) : Option ℕ :=
  (wideMul a.toNat b.toNat).bind fun p => wideDiv p c.toNat

theorem wideAdd_of_lt {a b : ℕ} (h : a + b < 2 ^ 128) : wideAdd a b = some (a + b) := if_pos h

theorem wideMul_of_lt {a b : ℕ} (h : a * b < 2 ^ 128) : wideMul a b = some (a * b) := if_pos h

theorem wideDiv_of_pos {a b : ℕ} (h : 0 < b) : wideDiv a b = some (a / b) := if_neg (by omega)

theorem wideAdd_eq_some {a b c : ℕ} :
    wideAdd a b = some c ↔ c = a + b ∧ a + b < 2 ^ 128 := by
  unfold wideAdd; split <;> simp_all [eq_comm]

theorem wideMul_eq_some {a b c : ℕ} :
    wideMul a b = some c ↔ c = a * b ∧ a * b < 2 ^ 128 := by
  unfold wideMul; split <;> simp_all [eq_comm]

theorem wideDiv_eq_some {a b c : ℕ} :
    wideDiv a b = some c ↔ c = a / b ∧ 0 < b := by
  unfold wideDiv; split <;> simp_all [eq_comm, Nat.pos_iff_ne_zero]

/-- The product of two 64-bit words fits in 128 bits. -/
theorem mul_lt_wide {a b : ℕ} (ha : a < 2 ^ 64) (hb : b < 2 ^ 64) :
    a * b < 2 ^ 128 := by
  have h : a * b < 2 ^ 64 * 2 ^ 64 := Nat.mul_lt_mul'' ha hb
  omega

theorem wideMul_words (a b : UInt64) :
    wideMul a.toNat b.toNat = some (a.toNat * b.toNat) :=
  wideMul_of_lt (mul_lt_wide (toNat_lt a) (toNat_lt b))


theorem mulDiv_of_pos {a b c : UInt64} (h : 0 < c.toNat) :
    mulDiv a b c = some (a.toNat * b.toNat / c.toNat) := by
  rw [mulDiv, wideMul_words, Option.bind_some, wideDiv_of_pos h]

theorem mulDiv_eq_none {a b c : UInt64} : mulDiv a b c = none ↔ c = 0 := by
  rw [mulDiv, wideMul_words, Option.bind_some, wideDiv]
  split <;> simp_all [← UInt64.toNat_inj]

theorem mulDiv_eq_some {a b c : UInt64} {n : ℕ} :
    mulDiv a b c = some n ↔ n = a.toNat * b.toNat / c.toNat ∧ 0 < c.toNat := by
  rw [mulDiv, wideMul_words, Option.bind_some, wideDiv_eq_some]

end Word
