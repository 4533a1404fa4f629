/-
# Decimal numerals

The grammar of decimal numerals with an optional exponent, a reader of it, the text of a number with
a fixed number of decimals, and rounding to a number of significant digits.

* `Decimal.read_eq_some`: the reader finds exactly the numerals of the grammar, so a text denotes at
  most one number;
* `Decimal.ofDigitChars_fraction`: a fraction whose trailing zeros were dropped is found again;
* `Decimal.roundTo_exact_iff`: rounding keeps a number exactly when it has few significant digits.
-/
import Mathlib.Data.List.DropRight
import Mathlib.Data.Nat.Log
import Mathlib.Tactic

namespace Decimal

/-! ## The grammar -/

/-- The parts of a numeral. -/
structure Parts where
  negative : Bool
  whole : List Char
  fraction : List Char
  exponent : ℤ

/-- The digits of a numeral as a number. -/
def Parts.coefficient (p : Parts) : ℕ := Nat.ofDigitChars 10 (p.whole ++ p.fraction) 0

/-- The power of ten that the coefficient is multiplied with. -/
def Parts.scale (p : Parts) : ℤ := p.exponent - p.fraction.length

/-- A number with a sign. -/
def signed (negative : Bool) (n : ℕ) : ℤ := if negative then -n else n

/-- The number that a numeral denotes. -/
def Parts.value (p : Parts) : ℚ := signed p.negative p.coefficient * (10 : ℚ) ^ p.scale

def Digits (l : List Char) : Prop := ∀ c ∈ l, c.isDigit = true

/-- The texts of a sign. -/
inductive Sign : List Char → Bool → Prop
  | none : Sign [] false
  | plus : Sign ['+'] false
  | minus : Sign ['-'] true

/-- The texts of a fraction with its point. -/
inductive Point : List Char → List Char → Prop
  | none : Point [] []
  | digits {l : List Char} (h : Digits l) : Point ('.' :: l) l

/-- The texts of an exponent. -/
inductive Exponent : List Char → ℤ → Prop
  | none : Exponent [] 0
  | power {c : Char} {s l : List Char} {negative : Bool} (hc : c = 'e' ∨ c = 'E')
      (hs : Sign s negative) (hne : l ≠ []) (hl : Digits l) :
      Exponent (c :: (s ++ l)) (signed negative (Nat.ofDigitChars 10 l 0))

/-- A text is a numeral: a sign, digits with an optional point among or around them, an exponent. -/
structure Numeral (l : List Char) (p : Parts) : Prop where
  text : ∃ s f x, l = s ++ (p.whole ++ (f ++ x)) ∧ Sign s p.negative ∧ Point f p.fraction ∧
    Exponent x p.exponent
  whole : Digits p.whole
  digit : p.whole ++ p.fraction ≠ []

/-! ## The reader -/

def readSign : List Char → Bool × List Char
  | '+' :: rest => (false, rest)
  | '-' :: rest => (true, rest)
  | l => (false, l)

def readPoint : List Char → List Char × List Char
  | '.' :: rest => (rest.takeWhile Char.isDigit, rest.dropWhile Char.isDigit)
  | l => ([], l)

def readExponent : List Char → Option ℤ
  | [] => some 0
  | c :: rest =>
    if (c = 'e' ∨ c = 'E') ∧ (readSign rest).2 ≠ [] ∧ (readSign rest).2.all Char.isDigit then
      some (signed (readSign rest).1 (Nat.ofDigitChars 10 (readSign rest).2 0))
    else none

def read (l : List Char) : Option Parts :=
  let (negative, l) := readSign l
  let whole := l.takeWhile Char.isDigit
  let (fraction, rest) := readPoint (l.dropWhile Char.isDigit)
  if whole ++ fraction = [] then none
  else (readExponent rest).map fun exponent => ⟨negative, whole, fraction, exponent⟩

/-! ## The reader finds the numerals -/

theorem digits_takeWhile (l : List Char) : Digits (l.takeWhile Char.isDigit) := fun _ hc =>
  List.mem_takeWhile_imp hc

/-- The digits in front end where the rest starts with something else. -/
theorem takeWhile_digits {l rest : List Char} (hl : Digits l)
    (hrest : ∀ c ∈ rest.head?, c.isDigit = false) :
    (l ++ rest).takeWhile Char.isDigit = l ∧ (l ++ rest).dropWhile Char.isDigit = rest := by
  rw [List.takeWhile_append_of_pos hl, List.dropWhile_append_of_pos hl]
  cases rest with
  | nil => exact ⟨List.append_nil l, rfl⟩
  | cons c rest =>
    have hc : c.isDigit = false := hrest c rfl
    rw [List.takeWhile_cons, List.dropWhile_cons, hc]
    exact ⟨List.append_nil l, rfl⟩

theorem readSign_spec (l : List Char) : ∃ s, l = s ++ (readSign l).2 ∧ Sign s (readSign l).1 := by
  unfold readSign
  split
  · exact ⟨['+'], rfl, .plus⟩
  · exact ⟨['-'], rfl, .minus⟩
  · exact ⟨[], rfl, .none⟩

theorem readSign_append {s l : List Char} {negative : Bool} (hs : Sign s negative)
    (hl : ∀ c ∈ l.head?, c ≠ '+' ∧ c ≠ '-') : readSign (s ++ l) = (negative, l) := by
  cases hs with
  | plus => rfl
  | minus => rfl
  | none =>
    cases l with
    | nil => rfl
    | cons c rest =>
      obtain ⟨hplus, hminus⟩ := hl c rfl
      rw [List.nil_append]
      unfold readSign
      split
      · rename_i heq
        exact absurd (List.cons.inj heq).1 hplus
      · rename_i heq
        exact absurd (List.cons.inj heq).1 hminus
      · rfl

theorem readPoint_spec (l : List Char) :
    ∃ f, l = f ++ (readPoint l).2 ∧ Point f (readPoint l).1 := by
  unfold readPoint
  split
  · rename_i rest
    refine ⟨'.' :: rest.takeWhile Char.isDigit, ?_, .digits (digits_takeWhile rest)⟩
    rw [List.cons_append, List.takeWhile_append_dropWhile]
  · exact ⟨[], rfl, .none⟩

theorem readPoint_append {f fraction l : List Char} (hf : Point f fraction)
    (hl : ∀ c ∈ l.head?, c ≠ '.' ∧ c.isDigit = false) : readPoint (f ++ l) = (fraction, l) := by
  cases hf with
  | none =>
    unfold readPoint
    split
    · rename_i heq
      rw [List.nil_append] at heq
      subst heq
      exact absurd rfl (hl '.' rfl).1
    · rfl
  | digits h =>
    obtain ⟨htake, hdrop⟩ := takeWhile_digits h fun c hc => (hl c hc).2
    rw [List.cons_append, readPoint, htake, hdrop]

theorem readExponent_eq_some {l : List Char} {x : ℤ} : readExponent l = some x ↔ Exponent l x := by
  constructor
  · intro h
    cases l with
    | nil =>
      rw [readExponent, Option.some.injEq] at h
      exact h ▸ .none
    | cons c rest =>
      rw [readExponent, Option.ite_none_right_eq_some, Option.some.injEq] at h
      obtain ⟨⟨hc, hne, hall⟩, rfl⟩ := h
      obtain ⟨s, hrest, hs⟩ := readSign_spec rest
      have hpower := Exponent.power hc hs hne (List.all_eq_true.mp hall)
      rwa [← hrest] at hpower
  · intro h
    cases h with
    | none => rfl
    | @power c s l negative hc hs hne hl =>
      have hhead : ∀ c ∈ l.head?, c ≠ '+' ∧ c ≠ '-' := by
        intro c hmem
        have hdigit := hl c (List.mem_of_mem_head? hmem)
        constructor <;> rintro rfl <;> cases hdigit
      rw [readExponent, readSign_append hs hhead, if_pos ⟨hc, hne, List.all_eq_true.mpr hl⟩]

theorem Exponent.head {l : List Char} {x : ℤ} (h : Exponent l x) :
    ∀ c ∈ l.head?, c ≠ '.' ∧ c.isDigit = false := by
  intro c hc
  cases h with
  | none => cases hc
  | power hletter =>
    rw [List.head?_cons, Option.mem_some_iff] at hc
    subst hc
    rcases hletter with rfl | rfl <;> decide

/-- The reader finds exactly the numerals. -/
theorem read_eq_some {l : List Char} {p : Parts} : read l = some p ↔ Numeral l p := by
  constructor
  · intro h
    obtain ⟨s, hl, hs⟩ := readSign_spec l
    obtain ⟨f, hrest, hf⟩ := readPoint_spec ((readSign l).2.dropWhile Char.isDigit)
    unfold read at h
    dsimp only at h
    rw [Option.ite_none_left_eq_some, Option.map_eq_some_iff] at h
    obtain ⟨hne, x, hx, rfl⟩ := h
    refine ⟨⟨s, f, _, ?_, hs, hf, readExponent_eq_some.mp hx⟩, digits_takeWhile _, hne⟩
    rw [← hrest, List.takeWhile_append_dropWhile]
    exact hl
  · obtain ⟨negative, whole, fraction, exponent⟩ := p
    rintro ⟨⟨s, f, x, rfl, hs, hf, hx⟩, hwhole, hne⟩
    dsimp only at hs hf hx hwhole hne
    have hpoint := readPoint_append hf hx.head
    -- what follows the whole digits starts with no digit
    have hafter : ∀ c ∈ (f ++ x).head?, c.isDigit = false := by
      cases hf with
      | none => exact fun c hc => (hx.head c hc).2
      | digits _ =>
        intro c hc
        rw [List.cons_append, List.head?_cons, Option.mem_some_iff] at hc
        subst hc
        decide
    have hstart : ∀ c ∈ (whole ++ (f ++ x)).head?, c ≠ '+' ∧ c ≠ '-' := by
      intro c hc
      have hcases : c.isDigit = true ∨ c = '.' := by
        cases hw : whole with
        | cons d rest =>
          rw [hw, List.cons_append, List.head?_cons, Option.mem_some_iff] at hc
          exact .inl (hc ▸ hwhole d (by rw [hw]; exact List.mem_cons_self))
        | nil =>
          rw [hw] at hc hne
          cases hf with
          | none => exact absurd rfl hne
          | digits _ =>
            rw [List.nil_append, List.cons_append, List.head?_cons, Option.mem_some_iff] at hc
            exact .inr hc.symm
      rcases hcases with h | h <;> refine ⟨fun heq => ?_, fun heq => ?_⟩ <;> subst heq <;> cases h
    obtain ⟨htake, hdrop⟩ := takeWhile_digits hwhole hafter
    unfold read
    rw [readSign_append hs hstart]
    dsimp only
    rw [htake, hdrop, hpoint, if_neg hne, readExponent_eq_some.mpr hx]
    rfl

/-- A text is at most one numeral. -/
theorem Numeral.unique {l : List Char} {p p' : Parts} (h : Numeral l p) (h' : Numeral l p') :
    p = p' :=
  Option.some.inj ((read_eq_some.mpr h).symm.trans (read_eq_some.mpr h'))

/-! ## A fixed number of decimals -/

/-- Zeros in front, up to a width. -/
def padStart (l : List Char) (width : ℕ) : List Char := List.replicate (width - l.length) '0' ++ l

/-- Zeros behind, up to a width. -/
def padEnd (l : List Char) (width : ℕ) : List Char := l ++ List.replicate (width - l.length) '0'

theorem length_padStart {l : List Char} {width : ℕ} (h : l.length ≤ width) :
    (padStart l width).length = width := by
  rw [padStart, List.length_append, List.length_replicate]
  omega

theorem ofDigitChars_padStart (l : List Char) (width : ℕ) :
    Nat.ofDigitChars 10 (padStart l width) 0 = Nat.ofDigitChars 10 l 0 := by
  rw [padStart, Nat.ofDigitChars_append, Nat.ofDigitChars_replicate_zero, Nat.mul_zero]

theorem ofDigitChars_padEnd (l : List Char) (width : ℕ) :
    Nat.ofDigitChars 10 (padEnd l width) 0 =
      10 ^ (width - l.length) * Nat.ofDigitChars 10 l 0 := by
  rw [padEnd, Nat.ofDigitChars_append, Nat.ofDigitChars_replicate_zero]

/-- Trailing zeros that were dropped are put back. -/
theorem padEnd_rdropWhile (l : List Char) : padEnd (l.rdropWhile (· = '0')) l.length = l := by
  have hsplit : l.rdropWhile (· = '0') ++ l.rtakeWhile (· = '0') = l :=
    List.rdropWhile_append_rtakeWhile
  have hlength := congrArg List.length hsplit
  rw [List.length_append] at hlength
  have hzeros : l.rtakeWhile (· = '0') =
      List.replicate (l.length - (l.rdropWhile (· = '0')).length) '0' := by
    refine List.eq_replicate_iff.mpr ⟨by omega, fun c hc => ?_⟩
    exact of_decide_eq_true (p := c = '0') (List.mem_rtakeWhile_imp (p := (· = '0')) hc)
  rw [padEnd, ← hzeros, hsplit]

/-- The decimals of a number of units, without trailing zeros. -/
def fractionOf (n d : ℕ) : List Char :=
  (padStart (Nat.toDigits 10 (n % 10 ^ d)) d).rdropWhile (· = '0')

variable {n d : ℕ}

theorem length_decimals (hd : 0 < d) :
    (padStart (Nat.toDigits 10 (n % 10 ^ d)) d).length = d :=
  length_padStart ((Nat.length_toDigits_le_iff (by norm_num) hd).mpr
    (Nat.mod_lt _ (Nat.pow_pos (by norm_num))))

theorem fractionOf_zero (n : ℕ) : fractionOf n 0 = [] := by
  rw [fractionOf, Nat.pow_zero, Nat.mod_one]
  rfl

theorem length_fractionOf (n d : ℕ) : (fractionOf n d).length ≤ d := by
  rcases Nat.eq_zero_or_pos d with rfl | hd
  · rw [fractionOf_zero]
    exact le_rfl
  have hprefix := (List.rdropWhile_prefix (p := (· = '0'))
    (padStart (Nat.toDigits 10 (n % 10 ^ d)) d)).length_le
  rwa [length_decimals hd] at hprefix

theorem digits_toDigits (n : ℕ) : Digits (Nat.toDigits 10 n) := fun _ hc =>
  Nat.isDigit_of_mem_toDigits (by norm_num) (by norm_num) hc

theorem digits_fractionOf (n d : ℕ) : Digits (fractionOf n d) := by
  intro c hc
  have hmem := (List.rdropWhile_prefix (p := (· = '0')) _).subset hc
  rcases List.mem_append.mp hmem with hzero | hdigit
  · rw [(List.mem_replicate.mp hzero).2]
    rfl
  · exact digits_toDigits _ c hdigit

/-- The whole units and the decimals give the number back. -/
theorem ofDigitChars_fraction (n d : ℕ) :
    10 ^ (d - (fractionOf n d).length) *
      Nat.ofDigitChars 10 (Nat.toDigits 10 (n / 10 ^ d) ++ fractionOf n d) 0 = n := by
  rcases Nat.eq_zero_or_pos d with rfl | hd
  · rw [fractionOf_zero, Nat.zero_sub, Nat.pow_zero, Nat.one_mul, Nat.div_one, List.append_nil,
      Nat.ofDigitChars_ten_toDigits]
  have hback : padEnd (fractionOf n d) d = padStart (Nat.toDigits 10 (n % 10 ^ d)) d := by
    have hpad := padEnd_rdropWhile (padStart (Nat.toDigits 10 (n % 10 ^ d)) d)
    rwa [length_decimals hd] at hpad
  rw [← Nat.ofDigitChars_replicate_zero, ← Nat.ofDigitChars_append, List.append_assoc]
  change Nat.ofDigitChars 10 (_ ++ padEnd (fractionOf n d) d) 0 = n
  rw [hback, Nat.ofDigitChars_append, Nat.ofDigitChars_ten_toDigits,
    Nat.ofDigitChars_eq_ofDigitChars_zero, length_decimals hd, ofDigitChars_padStart,
    Nat.ofDigitChars_ten_toDigits]
  exact Nat.div_add_mod n (10 ^ d)

/-! ## Significant digits -/

def digitCount (n : ℕ) : ℕ := Nat.log 10 n + 1

/-- The nearest quotient, and the even one of two. -/
def roundHalfEven (n m : ℕ) : ℕ :=
  if 2 * (n % m) < m ∨ (2 * (n % m) = m ∧ n / m % 2 = 0) then n / m else n / m + 1

/-- The digits that exceed a precision. -/
def excess (precision n : ℕ) : ℕ := digitCount n - precision

/-- A number has no more significant digits than a precision. -/
def Fits (precision n : ℕ) : Prop := 10 ^ excess precision n ∣ n

theorem roundHalfEven_exact_iff {m : ℕ} (hm : 0 < m) : roundHalfEven n m * m = n ↔ m ∣ n := by
  constructor
  · intro h
    exact ⟨roundHalfEven n m, by rw [Nat.mul_comm, h]⟩
  · intro h
    have hmod : n % m = 0 := Nat.mod_eq_zero_of_dvd h
    rw [roundHalfEven, if_pos (.inl (by rw [hmod]; exact hm)), Nat.div_mul_cancel h]

/-- Rounding to a precision keeps exactly the numbers with few significant digits. -/
theorem roundTo_exact_iff (precision : ℕ) :
    roundHalfEven n (10 ^ excess precision n) * 10 ^ excess precision n = n ↔ Fits precision n :=
  roundHalfEven_exact_iff (Nat.pow_pos (by norm_num))

theorem fits_of_lt {precision : ℕ} (h : n < 10 ^ precision) : Fits precision n := by
  rcases Nat.eq_zero_or_pos n with rfl | hn
  · exact dvd_zero _
  have hlog : Nat.log 10 n < precision := Nat.log_lt_of_lt_pow hn.ne' h
  have hexcess : excess precision n = 0 := by
    unfold excess digitCount
    omega
  rw [Fits, hexcess, Nat.pow_zero]
  exact one_dvd n

theorem digitCount_mul_pow (hn : n ≠ 0) (d : ℕ) : digitCount (n * 10 ^ d) = digitCount n + d := by
  induction d with
  | zero => rw [Nat.pow_zero, Nat.mul_one, Nat.add_zero]
  | succ d ih =>
    have hne : n * 10 ^ d ≠ 0 := Nat.mul_ne_zero hn (Nat.pow_pos (by norm_num)).ne'
    rw [digitCount, Nat.pow_succ, ← Nat.mul_assoc, Nat.log_mul_base (by norm_num) hne, ← digitCount,
      ih, Nat.add_assoc]

/-- Zeros behind are not significant. -/
theorem fits_mul_pow (precision : ℕ) : Fits precision (n * 10 ^ d) ↔ Fits precision n := by
  rcases Nat.eq_zero_or_pos n with rfl | hn
  · rw [Nat.zero_mul]
  have hcount := digitCount_mul_pow hn.ne' d
  unfold Fits excess
  rw [hcount]
  rcases Nat.le_total (digitCount n) precision with hle | hle
  · refine iff_of_true ?_ ?_
    · exact (Nat.pow_dvd_pow 10 (by omega)).mul_left n
    · rw [Nat.sub_eq_zero_of_le hle, Nat.pow_zero]
      exact one_dvd n
  · rw [Nat.sub_add_comm hle, Nat.pow_add]
    exact Nat.mul_dvd_mul_iff_right (Nat.pow_pos (by norm_num))

end Decimal
