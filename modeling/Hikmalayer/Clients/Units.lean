/-
# Amounts as text and back

Every word is formatted to the same text by both clients and read back from it by both.  A text that
a client accepts denotes the amount it gives, except for the blank text, a lone point after a minus,
and a numeral of more significant digits than a Python decimal keeps.
-/
import Mathlib.Tactic
import Hikmalayer.Foundations.Word
import Hikmalayer.Model.Units

open Outcome Decimal

/-! ## The common text -/

/-- The text that both clients write. -/
def amountText (n d : ℕ) : List Char :=
  if fractionOf n d ≠ [] then Nat.toDigits 10 (n / 10 ^ d) ++ '.' :: fractionOf n d
  else Nat.toDigits 10 (n / 10 ^ d)

theorem amountText_zero (n : ℕ) : amountText n 0 = Nat.toDigits 10 n := by
  rw [amountText, fractionOf_zero, if_neg (not_not.mpr rfl), Nat.pow_zero, Nat.div_one]

theorem toString_natCast (n : ℕ) : toString (n : ℤ) = String.ofList (Nat.toDigits 10 n) :=
  Nat.repr_eq_ofList_toDigits

theorem Sdk.formatUnits_natCast (n d : ℕ) :
    Sdk.formatUnits n d = String.ofList (amountText n d) := by
  have hpos : ¬ (n : ℤ) < 0 := by omega
  unfold Sdk.formatUnits
  split
  · rename_i hd
    rw [hd, amountText_zero, toString_natCast]
  · simp only [hpos, if_false, Int.natAbs_natCast]
    rfl

theorem PythonSdk.formatUnits_natCast (n d : ℕ) :
    PythonSdk.formatUnits n d = String.ofList (amountText n d) := by
  unfold PythonSdk.formatUnits
  dsimp only
  split
  · rename_i hd
    rw [hd, amountText_zero, toString_natCast]
  · rw [if_neg (by simp)]
    rfl

/-- The parts of the common text. -/
def amountParts (n d : ℕ) : Parts := ⟨false, Nat.toDigits 10 (n / 10 ^ d), fractionOf n d, 0⟩

theorem amountText_split (n d : ℕ) :
    ∃ f, amountText n d = Nat.toDigits 10 (n / 10 ^ d) ++ f ∧ Point f (fractionOf n d) := by
  unfold amountText
  split
  · exact ⟨_, rfl, .digits (digits_fractionOf n d)⟩
  · rename_i h
    rw [not_not.mp h]
    exact ⟨[], (List.append_nil _).symm, .none⟩

theorem amountText_numeral (n d : ℕ) : Numeral (amountText n d) (amountParts n d) := by
  obtain ⟨f, htext, hf⟩ := amountText_split n d
  refine ⟨⟨[], f, [], ?_, .none, hf, .none⟩, digits_toDigits _,
    fun h => Nat.toDigits_ne_nil (List.append_eq_nil_iff.mp h).1⟩
  rw [List.nil_append, List.append_nil]
  exact htext

theorem mem_amountText {n d : ℕ} {c : Char} (h : c ∈ amountText n d) :
    c.isDigit = true ∨ c = '.' := by
  unfold amountText at h
  split at h
  · rcases List.mem_append.mp h with h | h
    · exact .inl (digits_toDigits _ c h)
    · rcases List.mem_cons.mp h with h | h
      · exact .inr h
      · exact .inl (digits_fractionOf n d c h)
  · exact .inl (digits_toDigits _ c h)

/-- The coefficient and the dropped zeros make up the amount. -/
theorem amountParts_coefficient (n d : ℕ) :
    10 ^ (d - (fractionOf n d).length) * (amountParts n d).coefficient = n :=
  ofDigitChars_fraction n d

theorem amountText_ne_nil (n d : ℕ) : amountText n d ≠ [] := by
  unfold amountText
  split
  · simp
  · exact Nat.toDigits_ne_nil

/-- Nothing is trimmed off digits and points. -/
theorem trimBy_amountText {p : Char → Bool} (hdigit : ∀ c : Char, c.isDigit = true → p c = false)
    (hpoint : p '.' = false) (n d : ℕ) : Text.trimBy p (amountText n d) = amountText n d := by
  apply Text.trimBy_eq_self
  intro c hc
  rcases mem_amountText hc with h | rfl
  · exact hdigit c h
  · exact hpoint

theorem isSpace_digit {c : Char} (h : c.isDigit = true) :
    Javascript.isSpace c = false ∧ PythonSdk.isSpace c = false := by
  obtain ⟨d, hd, rfl⟩ := Text.exists_of_isDigit h
  interval_cases d <;> exact ⟨rfl, rfl⟩

/-- The text of a formatted amount starts with a digit. -/
theorem head_amountText (n d : ℕ) : ∃ c rest, amountText n d = c :: rest ∧ c.isDigit = true := by
  obtain ⟨c, rest, hc⟩ := List.exists_cons_of_ne_nil (Nat.toDigits_ne_nil (b := 10) (n := n / 10 ^ d))
  have hdigit : c.isDigit = true := digits_toDigits (n / 10 ^ d) c (by rw [hc]; exact List.mem_cons_self)
  unfold amountText
  rw [hc]
  split
  · exact ⟨c, _, List.cons_append, hdigit⟩
  · exact ⟨c, rest, rfl, hdigit⟩

theorem head_amountText_ne (n d : ℕ) : (amountText n d).head? ≠ some '-' := by
  obtain ⟨c, rest, hhead, hdigit⟩ := head_amountText n d
  rw [hhead, List.head?_cons, Ne, Option.some.injEq]
  rintro rfl
  cases hdigit

/-! ## What a text denotes -/

/-- The text is a numeral of at most `d` decimals, and the units are the number it denotes times
`10 ^ d`. -/
def Denotes (text : List Char) (d : ℕ) (units : ℤ) : Prop :=
  ∃ p, Numeral text p ∧ -p.scale ≤ d ∧ (units : ℚ) = p.value * 10 ^ d

theorem not_denotes {text : List Char} {d : ℕ} {units : ℤ} (h : Decimal.read text = none) :
    ¬ Denotes text d units := by
  rintro ⟨p, hp, -⟩
  rw [read_eq_some.mpr hp] at h
  cases h

/-- The units of a numeral without exponent whose fraction has at most `d` digits. -/
theorem units_value {negative : Bool} {whole fraction : List Char} {d : ℕ}
    (h : fraction.length ≤ d) :
    ((signed negative (10 ^ (d - fraction.length) * Nat.ofDigitChars 10 (whole ++ fraction) 0) : ℤ) :
      ℚ) = Parts.value ⟨negative, whole, fraction, 0⟩ * 10 ^ d := by
  have hscale : (10 : ℚ) ^ (d - fraction.length) = 10 ^ (-(fraction.length : ℤ)) * 10 ^ d := by
    rw [← zpow_natCast, ← zpow_natCast, ← zpow_add₀ (by norm_num)]
    congr 1
    omega
  simp only [Parts.value, Parts.scale, Parts.coefficient, zero_sub]
  cases negative <;> simp only [signed, if_true, if_false, Bool.false_eq_true] <;> push_cast <;>
    rw [hscale] <;> ring

/-! ## JavaScript -/

namespace Sdk

/-- What the pattern of the parser matches: a minus or nothing, digits, a point with digits or
nothing. -/
structure Shape (text : List Char) (negative : Bool) (whole fraction : List Char) : Prop where
  sign : negative = decide (text.head? = some '-')
  body : ∃ f, bodyOf text = whole ++ f ∧ Point f fraction
  whole : Digits whole

theorem matchesDecimal_iff {text : List Char} : matchesDecimal text = true ↔
    ∃ negative whole fraction, Shape text negative whole fraction := by
  constructor
  · intro h
    have hsplit := List.takeWhile_append_dropWhile (p := Char.isDigit) (l := bodyOf text)
    have hwhole := digits_takeWhile (bodyOf text)
    unfold matchesDecimal at h
    split at h
    · rename_i hrest
      rw [hrest] at hsplit
      exact ⟨_, _, [], rfl, ⟨[], hsplit.symm, .none⟩, hwhole⟩
    · rename_i rest hrest
      rw [hrest] at hsplit
      exact ⟨_, _, rest, rfl, ⟨_, hsplit.symm, .digits (List.all_eq_true.mp h)⟩, hwhole⟩
    · cases h
  · rintro ⟨negative, whole, fraction, -, ⟨f, hbody, hf⟩, hwhole⟩
    unfold matchesDecimal
    cases hf with
    | none =>
      rw [List.append_nil] at hbody
      rw [hbody, List.dropWhile_eq_nil_iff.mpr hwhole]
    | digits hdigits =>
      have hpoint : ∀ c ∈ ('.' :: fraction).head?, c.isDigit = false := by
        intro c hc
        rw [List.head?_cons, Option.mem_some_iff] at hc
        rw [← hc]
        rfl
      have hdrop := (takeWhile_digits hwhole hpoint).2
      rw [hbody, hdrop]
      exact List.all_eq_true.mpr hdigits

/-- The pieces around the point. -/
theorem Shape.split {text whole fraction : List Char} {negative : Bool}
    (h : Shape text negative whole fraction) : splitPoint (bodyOf text) = (whole, fraction) := by
  obtain ⟨-, ⟨f, hbody, hf⟩, hwhole⟩ := h
  have hpoint : ∀ {l : List Char}, Digits l → ∀ c ∈ l, decide (c ≠ '.') = true := by
    intro l hl c hc
    refine decide_eq_true fun heq => ?_
    have hdigit := hl c hc
    rw [heq] at hdigit
    cases hdigit
  unfold splitPoint
  rw [hbody]
  cases hf with
  | none =>
    rw [List.append_nil, List.takeWhile_eq_self_iff.mpr (hpoint hwhole),
      List.dropWhile_eq_nil_iff.mpr (hpoint hwhole)]
    rfl
  | digits hdigits =>
    rw [List.takeWhile_append_of_pos (hpoint hwhole), List.dropWhile_append_of_pos (hpoint hwhole)]
    have hfront : ('.' :: fraction).takeWhile (fun c => decide (c ≠ '.')) = [] := by simp
    have hback : ('.' :: fraction).dropWhile (fun c => decide (c ≠ '.')) = '.' :: fraction := by simp
    rw [hfront, List.append_nil, hback, List.tail_cons,
      List.takeWhile_eq_self_iff.mpr (hpoint hdigits)]

/-- What the parser accepts besides blank texts, and what it returns. -/
theorem parseUnits_eq_ok {input : String} {d : ℕ} {units : ℤ} {text : List Char}
    (htext : Text.trimBy Javascript.isSpace input.toList = text) (hne : text ≠ []) :
    parseUnits input d = ok units ↔ text ≠ ['.'] ∧ text ≠ ['-'] ∧
      ∃ negative whole fraction, Shape text negative whole fraction ∧ fraction.length ≤ d ∧
        units = signed negative
          (10 ^ (d - fraction.length) * Nat.ofDigitChars 10 (whole ++ fraction) 0) := by
  have hunits : ∀ {whole fraction : List Char}, Nat.ofDigitChars 10
      ((if whole = [] then ['0'] else whole) ++ padEnd fraction d) 0 =
        10 ^ (d - fraction.length) * Nat.ofDigitChars 10 (whole ++ fraction) 0 := by
    intro whole fraction
    rw [padEnd, ← List.append_assoc, Nat.ofDigitChars_append, Nat.ofDigitChars_replicate_zero]
    split
    · rename_i hwhole
      rw [hwhole]
      rfl
    · rfl
  unfold parseUnits
  rw [htext, if_neg hne]
  simp only [Outcome.bind_eq_ok, ensure_eq_ok, pure_eq, ok.injEq, not_or, not_lt,
    Bool.not_eq_false]
  constructor
  · rintro ⟨_, ⟨hmatch, hpoint, hminus⟩, _, hlen, rfl⟩
    obtain ⟨negative, whole, fraction, hshape⟩ := matchesDecimal_iff.mp hmatch
    rw [hshape.split] at hlen ⊢
    exact ⟨hpoint, hminus, negative, whole, fraction, hshape, hlen, by rw [hunits, hshape.sign]⟩
  · rintro ⟨hpoint, hminus, negative, whole, fraction, hshape, hlen, rfl⟩
    refine ⟨(), ⟨matchesDecimal_iff.mpr ⟨_, _, _, hshape⟩, hpoint, hminus⟩, (), ?_, ?_⟩
    · rwa [hshape.split]
    · rw [hshape.split, hunits, hshape.sign]

theorem parseUnits_blank {input : String} (d : ℕ)
    (htext : Text.trimBy Javascript.isSpace input.toList = []) : parseUnits input d = ok 0 := by
  unfold parseUnits
  rw [htext]
  rfl

theorem Shape.text_eq {text whole fraction : List Char} {negative : Bool}
    (h : Shape text negative whole fraction) :
    text = (if negative then ['-'] else []) ++ bodyOf text := by
  rw [h.sign, bodyOf]
  by_cases hminus : text.head? = some '-'
  · obtain ⟨rest, rfl⟩ : ∃ rest, text = '-' :: rest := by
      cases text with
      | nil => cases hminus
      | cons c rest =>
        rw [List.head?_cons, Option.some.injEq] at hminus
        exact ⟨rest, by rw [hminus]⟩
    rfl
  · rw [if_neg hminus, decide_eq_false hminus]
    rfl

/-- With a digit the text is a numeral. -/
theorem Shape.numeral {text whole fraction : List Char} {negative : Bool}
    (h : Shape text negative whole fraction) (hdigit : whole ++ fraction ≠ []) :
    Numeral text ⟨negative, whole, fraction, 0⟩ := by
  obtain ⟨f, hbody, hf⟩ := h.body
  refine ⟨⟨if negative then ['-'] else [], f, [], ?_, ?_, hf, .none⟩, h.whole, hdigit⟩
  · rw [List.append_nil, ← hbody]
    exact h.text_eq
  · cases negative with
    | true => exact .minus
    | false => exact .none

/-- Without a digit the text is one of four. -/
theorem Shape.lone {text whole fraction : List Char} {negative : Bool}
    (h : Shape text negative whole fraction) (hdigit : whole ++ fraction = []) :
    text = [] ∨ text = ['.'] ∨ text = ['-'] ∨ text = ['-', '.'] := by
  obtain ⟨rfl, rfl⟩ := List.append_eq_nil_iff.mp hdigit
  obtain ⟨f, hbody, hf⟩ := h.body
  rw [h.text_eq, hbody]
  cases hf <;> cases negative <;> simp

/-- What the parser returns is what the text denotes, unless the text is blank or a point behind a
minus. -/
theorem parseUnits_exact_iff (input : String) (d : ℕ) :
    (∀ units, parseUnits input d = ok units →
      Denotes (Text.trimBy Javascript.isSpace input.toList) d units) ↔
    Text.trimBy Javascript.isSpace input.toList ≠ [] ∧
      Text.trimBy Javascript.isSpace input.toList ≠ ['-', '.'] := by
  generalize htext : Text.trimBy Javascript.isSpace input.toList = text
  constructor
  · intro hexact
    constructor
    · rintro rfl
      exact not_denotes (by decide) (hexact 0 (parseUnits_blank d htext))
    · rintro rfl
      have hlone : Shape ['-', '.'] true [] [] := ⟨rfl, ⟨['.'], rfl, .digits nofun⟩, nofun⟩
      have hzero := (parseUnits_eq_ok htext (by decide)).mpr
        ⟨by decide, by decide, true, [], [], hlone, Nat.zero_le d, rfl⟩
      exact not_denotes (by decide) (hexact _ hzero)
  · rintro ⟨hne, hlone⟩ units hok
    obtain ⟨hpoint, hminus, negative, whole, fraction, hshape, hlen, rfl⟩ :=
      (parseUnits_eq_ok htext hne).mp hok
    have hdigit : whole ++ fraction ≠ [] := by
      intro hnone
      rcases hshape.lone hnone with h | h | h | h
      · exact hne h
      · exact hpoint h
      · exact hminus h
      · exact hlone h
    exact ⟨_, hshape.numeral hdigit, by simpa [Parts.scale] using hlen, units_value hlen⟩

/-- A formatted amount is read back. -/
theorem parse_format (n d : ℕ) : parseUnits (formatUnits n d) d = ok (n : ℤ) := by
  have htrim : Text.trimBy Javascript.isSpace (formatUnits n d).toList = amountText n d := by
    rw [formatUnits_natCast, String.toList_ofList]
    exact trimBy_amountText (fun _ hc => (isSpace_digit hc).1) rfl n d
  obtain ⟨c, rest, hhead, hdigit⟩ := head_amountText n d
  have hfirst := head_amountText_ne n d
  have hshape : Shape (amountText n d) false (Nat.toDigits 10 (n / 10 ^ d)) (fractionOf n d) := by
    refine ⟨(decide_eq_false hfirst).symm, ?_, digits_toDigits _⟩
    rw [bodyOf, if_neg hfirst]
    exact amountText_split n d
  have hne := amountText_ne_nil n d
  refine (parseUnits_eq_ok htrim hne).mpr ⟨?_, ?_, _, _, _, hshape, length_fractionOf n d, ?_⟩
  · rw [hhead]
    rintro h
    rw [(List.cons.inj h).1] at hdigit
    cases hdigit
  · rintro h
    exact hfirst (by rw [h]; rfl)
  · exact congrArg Nat.cast (amountParts_coefficient n d).symm

end Sdk

/-! ## Python -/

namespace PythonSdk

variable {P : Python}

/-- Digits and points are ASCII already. -/
theorem toAscii_eq_self {text : List Char} (h : ∀ c ∈ text, c.isDigit = true ∨ c = '.') :
    toAscii P text = text := by
  have hplain : ∀ c ∈ text, c ≠ '_' ∧ P.unicodeDigit c = none := by
    intro c hc
    have hascii : c ≠ '_' ∧ c.toNat < 128 := by
      rcases h c hc with hdigit | rfl
      · obtain ⟨d, hd, rfl⟩ := Text.exists_of_isDigit hdigit
        interval_cases d <;> decide
      · decide
    refine ⟨hascii.1, Option.eq_none_iff_forall_ne_some.mpr fun d hd => ?_⟩
    exact absurd (P.unicodeDigit_range hd).1 (by omega)
  have hfilter : text.filter (fun c => decide (c ≠ '_')) = text :=
    List.filter_eq_self.mpr fun c hc => decide_eq_true (hplain c hc).1
  unfold toAscii
  rw [hfilter]
  refine (List.map_congr_left fun c hc => ?_).trans (List.map_id text)
  rw [(hplain c hc).2]
  rfl

theorem toDecimal_eq_finite {text : List Char} {p : Parts} :
    toDecimal P text = some (.finite p) ↔ Numeral (toAscii P text) p ∧ inLimits p = true := by
  rw [← read_eq_some]
  unfold toDecimal
  cases Decimal.read (toAscii P text) with
  | none => simp
  | some q =>
    by_cases hq : inLimits q = true
    · simp only [hq, if_true, Option.some.injEq, PyDecimal.finite.injEq]
      exact ⟨fun h => ⟨h, h ▸ hq⟩, fun h => h.1⟩
    · simp only [hq, Option.some.injEq]
      exact ⟨nofun, fun h => absurd (h.1 ▸ h.2) hq⟩

/-- The amount of a numeral, as the parser computes it. -/
def scaledOf (p : Parts) (d : ℕ) : ℕ × ℤ := rounded (p.coefficient * 10 ^ d) p.scale

/-- A numeral passes the tests of the parser in front of the integer test. -/
structure Scalable (p : Parts) (d : ℕ) : Prop where
  limits : inLimits p = true
  decimals : ¬ (p.scale < 0 ∧ (d : ℤ) < -p.scale)
  small : overflows (scaledOf p d) = false

/-- What the parser accepts besides blank texts, and what it returns. -/
theorem parseUnits_eq_ok {value : String} {d : ℕ} {units : ℤ} {text : List Char}
    (htext : Text.trimBy isSpace value.toList = text) (hne : text ≠ []) :
    parseUnits P value d = ok units ↔ text.head? ≠ some '-' ∧
      ∃ p, Numeral (toAscii P text) p ∧ Scalable p d ∧ isIntegral (scaledOf p d) = true ∧
        units = signed p.negative (toInt (scaledOf p d)) := by
  unfold parseUnits
  rw [htext, if_neg hne]
  simp only [Outcome.bind_eq_ok, ensure_eq_ok]
  constructor
  · rintro ⟨_, hminus, hparse⟩
    refine ⟨hminus, ?_⟩
    split at hparse
    · cases hparse
    · cases hparse
    · rename_i p hp
      obtain ⟨hnumeral, hlimits⟩ := toDecimal_eq_finite.mp hp
      simp only [Outcome.bind_eq_ok, ensure_eq_ok, pure_eq, ok.injEq] at hparse
      obtain ⟨_, hdecimals, _, hsmall, _, hintegral, rfl⟩ := hparse
      exact ⟨p, hnumeral, ⟨hlimits, hdecimals, hsmall⟩, hintegral, rfl⟩
  · rintro ⟨hminus, p, hnumeral, hscalable, hintegral, rfl⟩
    refine ⟨(), hminus, ?_⟩
    rw [toDecimal_eq_finite.mpr ⟨hnumeral, hscalable.limits⟩]
    simp only [Outcome.bind_eq_ok, ensure_eq_ok, pure_eq, ok.injEq]
    exact ⟨(), hscalable.decimals, (), hscalable.small, (), hintegral, rfl⟩

theorem parseUnits_blank {value : String} (d : ℕ) (htext : Text.trimBy isSpace value.toList = []) :
    parseUnits P value d = ok 0 := by
  unfold parseUnits
  rw [htext]
  rfl

/-! ### The rounding -/

theorem toInt_value {scaled : ℕ × ℤ} (h : isIntegral scaled = true) :
    (toInt scaled : ℚ) = scaled.1 * (10 : ℚ) ^ scaled.2 := by
  obtain ⟨m, e⟩ := scaled
  rw [isIntegral, Bool.or_eq_true, decide_eq_true_eq, decide_eq_true_eq] at h
  unfold toInt
  split
  · rename_i he
    dsimp only at he ⊢
    obtain ⟨k, rfl⟩ := Int.eq_ofNat_of_zero_le he
    push_cast
    rw [Int.natAbs_natCast, zpow_natCast]
  · rename_i he
    dsimp only at h he ⊢
    obtain ⟨k, rfl⟩ : ∃ k : ℕ, e = -k := ⟨e.natAbs, by omega⟩
    rw [Int.natAbs_neg, Int.natAbs_natCast] at h ⊢
    rw [Nat.cast_div (Nat.dvd_of_mod_eq_zero (h.resolve_left he)) (by positivity), zpow_neg,
      zpow_natCast, div_eq_mul_inv]
    push_cast
    rfl

theorem rounded_value (product : ℕ) (e : ℤ) :
    ((rounded product e).1 : ℚ) * 10 ^ (rounded product e).2 =
      ((rounded product e).1 * 10 ^ excess precision product : ℕ) * 10 ^ e := by
  unfold rounded
  rw [zpow_add₀ (by norm_num), zpow_natCast]
  push_cast
  ring

/-- The amount is what the numeral denotes exactly when the numeral has few significant digits. -/
theorem scaled_exact_iff {p : Parts} {d : ℕ} (h : isIntegral (scaledOf p d) = true) :
    ((signed p.negative (toInt (scaledOf p d)) : ℤ) : ℚ) = p.value * 10 ^ d ↔
      Fits precision p.coefficient := by
  have hscale : (10 : ℚ) ^ p.scale ≠ 0 := zpow_ne_zero _ (by norm_num)
  have hvalue : p.value * 10 ^ d =
      (signed p.negative (p.coefficient * 10 ^ d) : ℤ) * (10 : ℚ) ^ p.scale := by
    unfold Parts.value signed
    split <;> push_cast <;> ring
  have hint : ((signed p.negative (toInt (scaledOf p d)) : ℤ) : ℚ) =
      (signed p.negative ((scaledOf p d).1 * 10 ^ excess precision (p.coefficient * 10 ^ d)) : ℤ) *
        (10 : ℚ) ^ p.scale := by
    have hround : (toInt (scaledOf p d) : ℚ) =
        ((scaledOf p d).1 * 10 ^ excess precision (p.coefficient * 10 ^ d) : ℕ) * 10 ^ p.scale :=
      (toInt_value h).trans (rounded_value (p.coefficient * 10 ^ d) p.scale)
    unfold signed
    split
    · push_cast at hround ⊢
      rw [hround]
      ring
    · exact_mod_cast hround
  rw [hint, hvalue, mul_left_inj' hscale, Int.cast_inj, ← fits_mul_pow (d := d) precision,
    ← roundTo_exact_iff]
  unfold signed
  split
  · rw [neg_inj]
    exact Nat.cast_inj
  · exact Nat.cast_inj

/-- A numeral of many significant digits is rounded to an integer. -/
theorem isIntegral_of_not_fits {p : Parts} {d : ℕ} (h : ¬ Fits precision p.coefficient)
    (hdecimals : ¬ (p.scale < 0 ∧ (d : ℤ) < -p.scale)) : isIntegral (scaledOf p d) = true := by
  have hne : p.coefficient ≠ 0 := by
    intro hzero
    exact h (by rw [hzero]; exact dvd_zero _)
  have hcount : precision < digitCount p.coefficient := by
    by_contra hle
    apply h
    rw [Fits, excess, Nat.sub_eq_zero_of_le (not_lt.mp hle), Nat.pow_zero]
    exact one_dvd _
  have hexcess : excess precision (p.coefficient * 10 ^ d) =
      digitCount p.coefficient + d - precision := by
    rw [excess, digitCount_mul_pow hne]
  have hnonneg : 0 ≤ (scaledOf p d).2 := by
    unfold scaledOf rounded
    rw [hexcess]
    dsimp only
    omega
  rw [isIntegral, decide_eq_true hnonneg, Bool.true_or]

/-- The numeral of a text has no more significant digits than a decimal keeps, unless the text is
refused before it is scaled. -/
def KeepsPrecision (P : Python) (text : List Char) (d : ℕ) : Prop :=
  ∀ p, Numeral (toAscii P text) p → text.head? ≠ some '-' → Scalable p d →
    Fits precision p.coefficient

/-- What the parser returns is what the text denotes, unless the text is blank or a numeral of too
many significant digits. -/
theorem parseUnits_exact_iff (P : Python) (value : String) (d : ℕ) :
    (∀ units, parseUnits P value d = ok units →
      Denotes (toAscii P (Text.trimBy isSpace value.toList)) d units) ↔
    Text.trimBy isSpace value.toList ≠ [] ∧
      KeepsPrecision P (Text.trimBy isSpace value.toList) d := by
  generalize htext : Text.trimBy isSpace value.toList = text
  constructor
  · intro hexact
    have hne : text ≠ [] := by
      rintro rfl
      exact not_denotes (by rfl) (hexact 0 (parseUnits_blank d htext))
    refine ⟨hne, fun p hnumeral hminus hscalable => ?_⟩
    by_contra hfits
    have hintegral := isIntegral_of_not_fits hfits hscalable.decimals
    obtain ⟨q, hq, -, hvalue⟩ := hexact _ ((parseUnits_eq_ok htext hne).mpr
      ⟨hminus, p, hnumeral, hscalable, hintegral, rfl⟩)
    rw [hq.unique hnumeral] at hvalue
    exact hfits ((scaled_exact_iff hintegral).mp hvalue)
  · rintro ⟨hne, hkeeps⟩ units hok
    obtain ⟨hminus, p, hnumeral, hscalable, hintegral, rfl⟩ := (parseUnits_eq_ok htext hne).mp hok
    have hdecimals := hscalable.decimals
    exact ⟨p, hnumeral, by omega,
      (scaled_exact_iff hintegral).mpr (hkeeps p hnumeral hminus hscalable)⟩

/-! ### Formatted amounts -/

theorem digitCount_le {m k : ℕ} (hk : 0 < k) (h : m < 10 ^ k) : digitCount m ≤ k := by
  rcases Nat.eq_zero_or_pos m with rfl | hm
  · exact hk
  · exact Nat.log_lt_of_lt_pow hm.ne' h

/-- The bounds behind a formatted word: a coefficient of at most twenty digits. -/
theorem amountParts_bounds (n : UInt64) {d : ℕ} (hd : d ≤ 18) :
    (amountParts n.toNat d).coefficient < 10 ^ 20 ∧
      (amountParts n.toNat d).coefficient * 10 ^ d < 10 ^ 38 := by
  have hback := amountParts_coefficient n.toNat d
  have hle : (amountParts n.toNat d).coefficient ≤ n.toNat := by
    conv_rhs => rw [← hback]
    exact Nat.le_mul_of_pos_left _ (Nat.pow_pos (by norm_num))
  have hn := n.toNat_lt
  have hpow : 10 ^ d ≤ 10 ^ 18 := Nat.pow_le_pow_right (by norm_num) hd
  have hlt : (amountParts n.toNat d).coefficient < 10 ^ 20 := by omega
  refine ⟨hlt, ?_⟩
  calc (amountParts n.toNat d).coefficient * 10 ^ d
      < 10 ^ 20 * 10 ^ d := Nat.mul_lt_mul_of_pos_right hlt (Nat.pow_pos (by norm_num))
    _ ≤ 10 ^ 20 * 10 ^ 18 := Nat.mul_le_mul_left _ hpow

theorem amountParts_scalable (n : UInt64) {d : ℕ} (hd : d ≤ 18) :
    Scalable (amountParts n.toNat d) d := by
  obtain ⟨hcoefficient, hproduct⟩ := amountParts_bounds n hd
  have hlength := length_fractionOf n.toNat d
  have hscale : (amountParts n.toNat d).scale = -((fractionOf n.toNat d).length : ℤ) := zero_sub _
  have hcount := digitCount_le (by norm_num) hcoefficient
  have hexcess := digitCount_le (by norm_num) hproduct
  refine ⟨?_, ?_, ?_⟩
  · rw [inLimits, Bool.and_eq_true, decide_eq_true_eq, decide_eq_true_eq, hscale]
    unfold maxEmax minEtiny
    omega
  · rw [hscale]
    omega
  · have hrounded : (scaledOf (amountParts n.toNat d) d).1 < 10 ^ 39 := by
      have hle : roundHalfEven ((amountParts n.toNat d).coefficient * 10 ^ d)
          (10 ^ excess precision ((amountParts n.toNat d).coefficient * 10 ^ d)) ≤
            (amountParts n.toNat d).coefficient * 10 ^ d + 1 := by
        have hdiv := Nat.div_le_self ((amountParts n.toNat d).coefficient * 10 ^ d)
          (10 ^ excess precision ((amountParts n.toNat d).coefficient * 10 ^ d))
        unfold roundHalfEven
        split <;> omega
      exact lt_of_le_of_lt hle (by omega)
    have hdigits := digitCount_le (by norm_num) hrounded
    have hexponent : (scaledOf (amountParts n.toNat d) d).2 ≤ 38 := by
      change (amountParts n.toNat d).scale + (excess precision _ : ℕ) ≤ 38
      rw [hscale, excess]
      omega
    rw [overflows, Bool.and_eq_false_iff]
    refine .inr (decide_eq_false ?_)
    unfold emax
    omega

/-- The amount of a formatted word is an integer after the rounding. -/
theorem amountParts_integral (n : UInt64) {d : ℕ} (hd : d ≤ 18) :
    isIntegral (scaledOf (amountParts n.toNat d) d) = true := by
  have hfits : Fits precision (amountParts n.toNat d).coefficient :=
    fits_of_lt (lt_of_lt_of_le (amountParts_bounds n hd).1
      (Nat.pow_le_pow_right (by norm_num) (by decide)))
  have hback := amountParts_coefficient n.toNat d
  have hlength := length_fractionOf n.toNat d
  set c := (amountParts n.toNat d).coefficient
  set k := excess precision (c * 10 ^ d) with hk
  set len := (fractionOf n.toNat d).length with hlen
  -- what was cut off and what is left make the amount with as many zeros as it has decimals
  have hround : roundHalfEven (c * 10 ^ d) (10 ^ k) * 10 ^ k = n.toNat * 10 ^ len := by
    have hexact := (roundTo_exact_iff precision).mpr ((fits_mul_pow (d := d) precision).mpr hfits)
    have hsplit : 10 ^ d = 10 ^ (d - len) * 10 ^ len := by rw [← Nat.pow_add]; congr 1; omega
    rw [hexact, hsplit, ← Nat.mul_assoc, Nat.mul_comm c, hback]
  have hexponent : (scaledOf (amountParts n.toNat d) d).2 = -(len : ℤ) + k := by
    change (0 - (len : ℤ)) + k = _
    rw [zero_sub]
  rw [isIntegral, Bool.or_eq_true, decide_eq_true_eq, decide_eq_true_eq, hexponent]
  rcases Nat.le_total len k with hle | hle
  · exact .inl (by omega)
  · right
    have hnat : (-(len : ℤ) + k).natAbs = len - k := by omega
    have hquotient : roundHalfEven (c * 10 ^ d) (10 ^ k) = n.toNat * 10 ^ (len - k) := by
      refine Nat.eq_of_mul_eq_mul_right (Nat.pow_pos (n := k) (show 0 < 10 by norm_num)) ?_
      rw [hround, Nat.mul_assoc, ← Nat.pow_add, Nat.sub_add_cancel hle]
    rw [hnat]
    change roundHalfEven (c * 10 ^ d) (10 ^ k) % 10 ^ (len - k) = 0
    rw [hquotient, Nat.mul_mod_left]

/-- A formatted amount is read back. -/
theorem parse_format (P : Python) (n : UInt64) {d : ℕ} (hd : d ≤ 18) :
    parseUnits P (formatUnits (n.toNat : ℤ) d) d = ok (n.toNat : ℤ) := by
  have htrim : Text.trimBy isSpace (formatUnits (n.toNat : ℤ) d).toList = amountText n.toNat d := by
    rw [formatUnits_natCast, String.toList_ofList]
    exact trimBy_amountText (fun _ hc => (isSpace_digit hc).2) rfl n.toNat d
  have hascii : toAscii P (amountText n.toNat d) = amountText n.toNat d :=
    toAscii_eq_self fun c hc => mem_amountText hc
  have hintegral := amountParts_integral n hd
  have hfits : Fits precision (amountParts n.toNat d).coefficient :=
    fits_of_lt (lt_of_lt_of_le (amountParts_bounds n hd).1
      (Nat.pow_le_pow_right (by norm_num) (by decide)))
  refine (parseUnits_eq_ok htrim (amountText_ne_nil _ d)).mpr ⟨head_amountText_ne n.toNat d,
    amountParts n.toNat d, ?_, amountParts_scalable n hd, hintegral, ?_⟩
  · rw [hascii]
    exact amountText_numeral n.toNat d
  · have hvalue := (scaled_exact_iff hintegral).mpr hfits
    have hunits : ((signed false n.toNat : ℤ) : ℚ) = (amountParts n.toNat d).value * 10 ^ d := by
      conv_lhs => rw [← amountParts_coefficient n.toNat d]
      exact units_value (length_fractionOf n.toNat d)
    exact Int.cast_injective (hunits.trans hvalue.symm)

end PythonSdk

/-! ## Both clients -/

/-- Every word is formatted to one text and read back by both clients; blank texts are the amount
zero; and any other text that a client accepts denotes the amount it gives, where it has a digit and
no more significant digits than a decimal keeps. -/
theorem amounts_exact (P : Python) (n : UInt64) (input : String) {d : ℕ} (hd : d ≤ 18) :
    (Sdk.formatUnits n.toNat d = PythonSdk.formatUnits n.toNat d ∧
      Sdk.parseUnits (Sdk.formatUnits n.toNat d) d = ok (n.toNat : ℤ) ∧
      PythonSdk.parseUnits P (PythonSdk.formatUnits n.toNat d) d = ok (n.toNat : ℤ)) ∧
    (∀ text, Text.trimBy Javascript.isSpace input.toList = text →
      (text = [] → Sdk.parseUnits input d = ok 0) ∧
      (text ≠ [] → text ≠ ['-', '.'] →
        ∀ units, Sdk.parseUnits input d = ok units → Denotes text d units)) ∧
    (∀ text, Text.trimBy PythonSdk.isSpace input.toList = text →
      (text = [] → PythonSdk.parseUnits P input d = ok 0) ∧
      (text ≠ [] → PythonSdk.KeepsPrecision P text d →
        ∀ units, PythonSdk.parseUnits P input d = ok units →
          Denotes (PythonSdk.toAscii P text) d units)) := by
  refine ⟨⟨?_, Sdk.parse_format n.toNat d, PythonSdk.parse_format P n hd⟩, ?_, ?_⟩
  · rw [Sdk.formatUnits_natCast, PythonSdk.formatUnits_natCast]
  · rintro text rfl
    exact ⟨Sdk.parseUnits_blank d,
      fun hne hlone => (Sdk.parseUnits_exact_iff input d).mpr ⟨hne, hlone⟩⟩
  · rintro text rfl
    exact ⟨PythonSdk.parseUnits_blank d,
      fun hne hkeeps => (PythonSdk.parseUnits_exact_iff P input d).mpr ⟨hne, hkeeps⟩⟩

/-- An interpreter that knows the digits of ASCII only. -/
def asciiPython : Python := ⟨fun _ => none, id, nofun⟩

theorem amounts_exact_sample :
    PythonSdk.parseUnits asciiPython (PythonSdk.formatUnits (1500000 : UInt64).toNat 6) 6 =
        ok 1500000 ∧ Denotes ['1', '.', '5'] 6 1500000 :=
  have h := amounts_exact asciiPython 1500000 "1.5" (d := 6) (by decide)
  ⟨h.1.2.2, (h.2.1 ['1', '.', '5'] rfl).2 (by decide) (by decide) 1500000 rfl⟩

/-- A blank text is no numeral, and both clients read it as the amount zero. -/
theorem amounts_blank : Sdk.parseUnits "" 6 = ok 0 ∧ PythonSdk.parseUnits asciiPython "" 6 = ok 0 ∧
    ∀ d units, ¬ Denotes [] d units :=
  ⟨rfl, rfl, fun _ _ => not_denotes rfl⟩
