/-
# Constant-product arithmetic

A pool of two reserves `x`, `y` and `t` shares, with every quotient rounded down.  The
value of a share is `x * y / t ^ 2`; a deposit that mints at most in proportion, a
withdrawal that pays at most in proportion, and a swap that pays at most the product rule
never lower it.
-/
import Mathlib.Tactic

namespace ConstantProduct

variable {x y t : ℕ}

/-- Rounding down pays at most the share. -/
theorem floor_mul_le (a b c : ℕ) : a * b / c * c ≤ a * b := Nat.div_mul_le_self _ _

/-- A deposit that mints at most in proportion to each side keeps the share value. -/
theorem value_deposit {dx dy m : ℕ} (hx : m * x ≤ dx * t) (hy : m * y ≤ dy * t) :
    x * y * (t + m) ^ 2 ≤ (x + dx) * (y + dy) * t ^ 2 := by
  have h₁ : (t + m) * x ≤ (x + dx) * t := by
    rw [Nat.add_mul, Nat.add_mul, Nat.mul_comm t x]
    omega
  have h₂ : (t + m) * y ≤ (y + dy) * t := by
    rw [Nat.add_mul, Nat.add_mul, Nat.mul_comm t y]
    omega
  calc x * y * (t + m) ^ 2 = ((t + m) * x) * ((t + m) * y) := by ring
    _ ≤ ((x + dx) * t) * ((y + dy) * t) := Nat.mul_le_mul h₁ h₂
    _ = (x + dx) * (y + dy) * t ^ 2 := by ring

/-- A withdrawal that pays at most in proportion on each side keeps the share value. -/
theorem value_withdraw {a b s : ℕ} (ha : a * t ≤ s * x) (hb : b * t ≤ s * y) :
    x * y * (t - s) ^ 2 ≤ (x - a) * (y - b) * t ^ 2 := by
  have h₁ : (t - s) * x ≤ (x - a) * t := by
    rw [Nat.sub_mul, Nat.sub_mul, Nat.mul_comm t x]
    omega
  have h₂ : (t - s) * y ≤ (y - b) * t := by
    rw [Nat.sub_mul, Nat.sub_mul, Nat.mul_comm t y]
    omega
  calc x * y * (t - s) ^ 2 = ((t - s) * x) * ((t - s) * y) := by ring
    _ ≤ ((x - a) * t) * ((y - b) * t) := Nat.mul_le_mul h₁ h₂
    _ = (x - a) * (y - b) * t ^ 2 := by ring

/-- The output of a swap, with a fee of `d - f` parts in `d` kept in the pool. -/
def output (f d x y dx : ℕ) : ℕ := dx * f * y / (x * d + dx * f)

theorem output_mul_le (f d x y dx : ℕ) :
    output f d x y dx * (x * d + dx * f) ≤ dx * f * y := Nat.div_mul_le_self _ _

/-- A swap never empties the side it pays from. -/
theorem output_lt {f d dx : ℕ} (hx : 0 < x) (hy : 0 < y) (hd : 0 < d) :
    output f d x y dx < y := by
  rw [output, Nat.div_lt_iff_lt_mul (by positivity), Nat.mul_comm y, Nat.add_mul]
  have : 0 < x * d * y := by positivity
  omega

/-- A swap never lowers the product of the reserves. -/
theorem product_swap {f d dx out : ℕ} (hfd : f ≤ d) (hd : 0 < d) (hout : out ≤ y)
    (h : out * (x * d + dx * f) ≤ dx * f * y) : x * y ≤ (x + dx) * (y - out) := by
  obtain ⟨r, rfl⟩ := Nat.exists_eq_add_of_le hout
  have hfee : out * x * d ≤ dx * f * r := by nlinarith
  have hscaled : out * x * d ≤ dx * r * d :=
    hfee.trans (by
      have := Nat.mul_le_mul_left (dx * r) hfd
      nlinarith)
  have hside : out * x ≤ dx * r := Nat.le_of_mul_le_mul_right hscaled hd
  rw [Nat.add_sub_cancel_left]
  nlinarith

/-- Shares are bounded by the geometric mean as long as their value does not fall. -/
theorem mean_of_value {x' y' t' : ℕ} (ht : 0 < t) (h : t ^ 2 ≤ x * y)
    (hv : x * y * t' ^ 2 ≤ x' * y' * t ^ 2) : t' ^ 2 ≤ x' * y' := by
  have hpos : 0 < t ^ 2 := by positivity
  have : t ^ 2 * t' ^ 2 ≤ t ^ 2 * (x' * y') :=
    calc t ^ 2 * t' ^ 2 ≤ x * y * t' ^ 2 := Nat.mul_le_mul_right _ h
      _ ≤ x' * y' * t ^ 2 := hv
      _ = t ^ 2 * (x' * y') := by ring
  exact Nat.le_of_mul_le_mul_left this hpos

/-- Shares minted in proportion to both sides are bounded by the deposit's own mean. -/
theorem minted_sq_le {dx dy m : ℕ} (ht : 0 < t) (hmean : t ^ 2 ≤ x * y) (hx : m * x ≤ dx * t)
    (hy : m * y ≤ dy * t) : m ^ 2 ≤ dx * dy := by
  have hpos : 0 < t ^ 2 := by positivity
  have : t ^ 2 * m ^ 2 ≤ t ^ 2 * (dx * dy) :=
    calc t ^ 2 * m ^ 2 ≤ x * y * m ^ 2 := Nat.mul_le_mul_right _ hmean
      _ = (m * x) * (m * y) := by ring
      _ ≤ (dx * t) * (dy * t) := Nat.mul_le_mul hx hy
      _ = t ^ 2 * (dx * dy) := by ring
  exact Nat.le_of_mul_le_mul_left this hpos

/-- Removing the shares a deposit minted pays at most the deposit. -/
theorem round_trip {dx m : ℕ} (h : m * x ≤ dx * t) (hpos : 0 < t + m) :
    m * (x + dx) / (t + m) ≤ dx := by
  rw [Nat.div_le_iff_le_mul_add_pred hpos]
  nlinarith

/-! ## Consecutive swaps -/

/-- A swap stays above the curve of one swap of all that was brought in since: the fees that earlier
swaps left in the pool make it no better. -/
theorem above_curve {f d s y' dx out : ℕ} (hfd : f ≤ d) (hcurve : x * d * y ≤ y' * (x * d + s * f))
    (hle : out ≤ y') (h : out * ((x + s) * d + dx * f) ≤ dx * f * y') :
    x * d * y ≤ (y' - out) * (x * d + (s + dx) * f) := by
  obtain ⟨r, rfl⟩ := Nat.exists_eq_add_of_le hle
  have hrule : out * ((x + s) * d) ≤ dx * f * r := by nlinarith
  have hkept : out * (x * d + s * f) ≤ out * ((x + s) * d) := by
    refine Nat.mul_le_mul_left out ?_
    have := Nat.mul_le_mul_left s hfd
    nlinarith
  rw [Nat.add_sub_cancel_left]
  calc x * d * y ≤ (out + r) * (x * d + s * f) := hcurve
    _ = out * (x * d + s * f) + r * (x * d + s * f) := Nat.add_mul _ _ _
    _ ≤ dx * f * r + r * (x * d + s * f) := Nat.add_le_add_right (hkept.trans hrule) _
    _ = r * (x * d + (s + dx) * f) := by ring

/-- Above the curve no more is taken than by one swap. -/
theorem taken_le_output {f d s y' taken : ℕ} (hpos : 0 < x * d) (htaken : y' + taken = y)
    (hcurve : x * d * y ≤ y' * (x * d + s * f)) : taken ≤ output f d x y s := by
  rw [output, Nat.le_div_iff_mul_le (Nat.add_pos_left hpos _)]
  subst htaken
  nlinarith

/-! ## Integer square root -/

/-- A Newton step never goes below the root. -/
theorem sqrt_le_newton (n : ℕ) {x : ℕ} (hx : 0 < x) : Nat.sqrt n ≤ (x + n / x) / 2 := by
  set s := Nat.sqrt n with hs
  have hsq : s * s ≤ n := Nat.sqrt_le n
  rw [Nat.le_div_iff_mul_le (by norm_num)]
  rcases Nat.le_total (s * 2) x with hle | hle
  · exact hle.trans (Nat.le_add_right x _)
  · obtain ⟨d, hd⟩ := Nat.exists_eq_add_of_le hle
    have hquot : d ≤ n / x := by
      rw [Nat.le_div_iff_mul_le hx]
      -- the product of two numbers that add up to `2 * s` is at most `s * s`
      nlinarith [sq_nonneg ((x : ℤ) - d)]
    omega

/-- A Newton step that does not descend starts at the root. -/
theorem eq_sqrt_of_newton_ge {n x : ℕ} (hx : 0 < x) (hroot : Nat.sqrt n ≤ x)
    (h : x ≤ (x + n / x) / 2) : x = Nat.sqrt n := by
  have hq : x ≤ n / x := by omega
  have hsq : x * x ≤ n := (Nat.le_div_iff_mul_le hx).mp hq
  exact le_antisymm (Nat.le_sqrt.mpr hsq) hroot

/-- A Newton step of a positive number stays positive. -/
theorem newton_pos {n x : ℕ} (hx : 0 < x) (hle : x ≤ n) :
    0 < (x + n / x) / 2 := by
  have hq : 1 ≤ n / x := Nat.div_pos hle hx
  omega

/-- The sum of a step stays below the argument, unless the argument is small. -/
theorem newton_sum_le {n x : ℕ} (hx : 1 < x) (hle : x ≤ (n + 1) / 2) : x + n / x ≤ n := by
  have hquot : n / x ≤ n / 2 := Nat.div_le_div_left hx (by norm_num)
  omega

/-- A step from a divisor's range ends in the lower half. -/
theorem newton_le {n x : ℕ} (hx : 0 < x) (hle : x ≤ n) : (x + n / x) / 2 ≤ (n + 1) / 2 := by
  have hsum : x + n / x ≤ n + 1 := by
    have hmul := Nat.div_mul_le_self n x
    have hq : 1 ≤ n / x := Nat.div_pos hle hx
    nlinarith
  omega

/-! ## Exact shares -/

/-- Shares that an amount buys are worth the whole amount only when nothing was rounded. -/
theorem worth_eq_iff {a m : ℕ} (hx : 0 < x) (ht : 0 < t) (h : m ≤ a * t / x) :
    m * x / t = a ↔ m * x = a * t := by
  have hle : m * x ≤ a * t := (Nat.le_div_iff_mul_le hx).mp h
  constructor
  · intro heq
    exact le_antisymm hle (heq ▸ Nat.div_mul_le_self (m * x) t)
  · intro heq
    rw [heq, Nat.mul_div_cancel a ht]

/-- When an amount and its match on the other side are both exact, they buy the same shares, and
the shares are worth just the two. -/
theorem exact_match {a b m : ℕ} (hx : 0 < x) (hy : 0 < y) (ht : 0 < t) (hm : m * x = a * t)
    (hb : b * x = a * y) : m = b * t / y ∧ m * x / t = a ∧ m * y / t = b := by
  have hside : m * y = b * t := by
    refine Nat.eq_of_mul_eq_mul_right hx ?_
    calc m * y * x = m * x * y := by ring
      _ = a * y * t := by rw [hm]; ring
      _ = b * t * x := by rw [← hb]; ring
  exact ⟨by rw [← hside, Nat.mul_div_cancel m hy], by rw [hm, Nat.mul_div_cancel a ht],
    by rw [hside, Nat.mul_div_cancel b ht]⟩

/-- Conversely, shares bought by an amount and by its match, and worth the whole amount, leave no
rounding on either side. -/
theorem match_of_exact {a b m : ℕ} (ht : 0 < t) (hm : m * x = a * t) (hb : b * x ≤ a * y)
    (hside : m * y ≤ b * t) : b * x = a * y := by
  refine le_antisymm hb (Nat.le_of_mul_le_mul_right ?_ ht)
  calc a * y * t = a * t * y := by ring
    _ = m * y * x := by rw [← hm]; ring
    _ ≤ b * t * x := Nat.mul_le_mul_right x hside
    _ = b * x * t := by ring

end ConstantProduct
