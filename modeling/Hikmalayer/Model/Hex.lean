/-
# Hexadecimal text

Encoding is a section of decoding.  Decoding accepts both letter cases, so a byte string has
many texts; two texts of the same bytes are equal exactly when they use the same case
letter by letter.
-/
import Mathlib.Tactic
import Hikmalayer.Foundations.Text
import Hikmalayer.Model.Env

/-! ## Encoding and decoding back -/

theorem hexValue_digitChar {d : ℕ} (h : d < 16) : hexValue (Nat.digitChar d) = some d := by
  interval_cases d <;> rfl

/-- The digits of a byte string. -/
def hexChars (bytes : List UInt8) : List Char :=
  bytes.flatMap fun b => [Nat.digitChar (b.toNat / 16), Nat.digitChar (b.toNat % 16)]

theorem hexChars_cons (b : UInt8) (rest : List UInt8) :
    hexChars (b :: rest) =
      Nat.digitChar (b.toNat / 16) :: Nat.digitChar (b.toNat % 16) :: hexChars rest := rfl

theorem hexDecodeChars_hexChars (bytes : List UInt8) :
    hexDecodeChars (hexChars bytes) = some bytes := by
  induction bytes with
  | nil => rfl
  | cons b rest ih =>
    have hb := b.toNat_lt
    have hdiv : b.toNat / 16 < 16 := by omega
    have hmod : b.toNat % 16 < 16 := by omega
    have hval : 16 * (b.toNat / 16) + b.toNat % 16 = b.toNat := by omega
    rw [hexChars_cons, hexDecodeChars, hexValue_digitChar hdiv, hexValue_digitChar hmod, ih]
    simp only [hval, UInt8.ofNat_toNat]

@[simp] theorem toList_hexEncode (bytes : List UInt8) :
    (hexEncode bytes).toList = hexChars bytes := String.toList_ofList

@[simp] theorem hexDecode_hexEncode (bytes : List UInt8) :
    hexDecode (hexEncode bytes) = some bytes := by
  rw [hexDecode, toList_hexEncode, hexDecodeChars_hexChars]

theorem hexEncode_injective {a b : List UInt8} (h : hexEncode a = hexEncode b) : a = b := by
  have ha := hexDecode_hexEncode a
  rw [h, hexDecode_hexEncode, Option.some.injEq] at ha
  exact ha.symm

theorem length_hexChars (bytes : List UInt8) : (hexChars bytes).length = 2 * bytes.length := by
  induction bytes with
  | nil => rfl
  | cons b rest ih =>
    rw [hexChars_cons, List.length_cons, List.length_cons, ih, List.length_cons]
    omega

/-- A text without whitespace is not changed by trimming. -/
theorem trim_of_no_whitespace {s : String} (h : ∀ c ∈ s.toList, isWhitespace c = false) :
    trim s = s := by
  have htrim : Text.trimBy isWhitespace s.toList = s.toList := Text.trimBy_eq_self h
  rw [Text.trimBy] at htrim
  rw [trim, htrim, String.ofList_toList]

theorem isWhitespace_digitChar {d : ℕ} (h : d < 16) : isWhitespace (Nat.digitChar d) = false := by
  interval_cases d <;> rfl

/-- The digits of a byte string are not whitespace. -/
theorem hexChars_no_whitespace (bytes : List UInt8) :
    ∀ c ∈ hexChars bytes, isWhitespace c = false := by
  induction bytes with
  | nil => exact nofun
  | cons b rest ih =>
    have hb := b.toNat_lt
    intro c hc
    rw [hexChars_cons, List.mem_cons, List.mem_cons] at hc
    rcases hc with rfl | rfl | hc
    · exact isWhitespace_digitChar (by omega)
    · exact isWhitespace_digitChar (by omega)
    · exact ih c hc

@[simp] theorem trim_hexEncode (bytes : List UInt8) : trim (hexEncode bytes) = hexEncode bytes :=
  trim_of_no_whitespace (by rw [toList_hexEncode]; exact hexChars_no_whitespace bytes)

/-! ## Letter case -/

/-- Which characters of a text are capital letters. -/
def casePattern (s : String) : List Bool := s.toList.map Char.isUpper

/-- The three ranges of hexadecimal digits: values and case. -/
theorem hexValue_cases {c : Char} {v : ℕ} (h : hexValue c = some v) :
    (48 ≤ c.toNat ∧ c.toNat ≤ 57 ∧ v = c.toNat - 48 ∧ c.isUpper = false) ∨
    (97 ≤ c.toNat ∧ c.toNat ≤ 102 ∧ v = c.toNat - 87 ∧ c.isUpper = false) ∨
    (65 ≤ c.toNat ∧ c.toNat ≤ 70 ∧ v = c.toNat - 55 ∧ c.isUpper = true) := by
  have hle : ∀ x y : Char, x ≤ y ↔ x.toNat ≤ y.toNat := fun x y => Iff.rfl
  have hupper : c.isUpper = true ↔ 65 ≤ c.toNat ∧ c.toNat ≤ 90 := by
    show decide (c.val ≥ 'A'.val ∧ c.val ≤ 'Z'.val) = true ↔ _
    rw [decide_eq_true_eq, ge_iff_le, UInt32.le_iff_toNat_le, UInt32.le_iff_toNat_le]
    rfl
  have h0 : '0'.toNat = 48 := rfl
  have h9 : '9'.toNat = 57 := rfl
  have ha : 'a'.toNat = 97 := rfl
  have hf : 'f'.toNat = 102 := rfl
  have hA : 'A'.toNat = 65 := rfl
  have hF : 'F'.toNat = 70 := rfl
  unfold hexValue at h
  simp only [hle] at h
  rw [h0, h9, ha, hf, hA, hF] at h
  split_ifs at h with h₁ h₂ h₃
  · refine Or.inl ⟨h₁.1, h₁.2, (Option.some.inj h).symm, ?_⟩
    rw [← Bool.not_eq_true, hupper]
    omega
  · refine Or.inr (Or.inl ⟨h₂.1, h₂.2, (Option.some.inj h).symm, ?_⟩)
    rw [← Bool.not_eq_true, hupper]
    omega
  · refine Or.inr (Or.inr ⟨h₃.1, h₃.2, (Option.some.inj h).symm, ?_⟩)
    rw [hupper]
    omega

theorem hexValue_lt {c : Char} {v : ℕ} (h : hexValue c = some v) : v < 16 := by
  rcases hexValue_cases h with h | h | h <;> omega

/-- A digit's value and case determine it. -/
theorem hexValue_inj {a b : Char} {v : ℕ} (ha : hexValue a = some v) (hb : hexValue b = some v)
    (hcase : a.isUpper = b.isUpper) : a = b := by
  refine Char.ext (UInt32.toNat_inj.mp ?_)
  change a.toNat = b.toNat
  rcases hexValue_cases ha with h | h | h <;> rcases hexValue_cases hb with h' | h' | h' <;>
    first
      | omega
      | (rw [h.2.2.2, h'.2.2.2] at hcase; cases hcase)

/-- Decoding a pair of digits and the rest. -/
theorem hexDecodeChars_pair {a b : Char} {rest : List Char} {bytes : List UInt8}
    (h : hexDecodeChars (a :: b :: rest) = some bytes) :
    ∃ x y tail, hexValue a = some x ∧ hexValue b = some y ∧ hexDecodeChars rest = some tail ∧
      bytes = UInt8.ofNat (16 * x + y) :: tail := by
  rw [hexDecodeChars] at h
  split at h
  · rename_i x y tail hx hy ht
    exact ⟨x, y, tail, hx, hy, ht, (Option.some.inj h).symm⟩
  · cases h

/-- Texts of the same bytes with the same letter case are equal. -/
theorem hexDecodeChars_inj : ∀ (l₁ l₂ : List Char) {bytes : List UInt8},
    hexDecodeChars l₁ = some bytes → hexDecodeChars l₂ = some bytes →
      l₁.map Char.isUpper = l₂.map Char.isUpper → l₁ = l₂
  | [], l₂, _, _, _, hcase => (List.map_eq_nil_iff.mp hcase.symm).symm
  | [_], _, _, h, _, _ => by cases h
  | a :: b :: rest, l₂, bytes, h₁, h₂, hcase => by
    obtain ⟨a', b', rest', rfl⟩ : ∃ a' b' rest', l₂ = a' :: b' :: rest' := by
      match l₂, hcase with
      | a' :: b' :: rest', _ => exact ⟨a', b', rest', rfl⟩
    obtain ⟨x, y, tail, hx, hy, ht, rfl⟩ := hexDecodeChars_pair h₁
    obtain ⟨x', y', tail', hx', hy', ht', heq⟩ := hexDecodeChars_pair h₂
    simp only [List.map_cons, List.cons.injEq] at hcase
    obtain ⟨hbyte, rfl⟩ := List.cons.inj heq
    have hbyte' := congrArg UInt8.toNat hbyte
    rw [UInt8.toNat_ofNat', UInt8.toNat_ofNat'] at hbyte'
    have := hexValue_lt hx
    have := hexValue_lt hy
    have := hexValue_lt hx'
    have := hexValue_lt hy'
    obtain rfl : x = x' := by omega
    obtain rfl : y = y' := by omega
    rw [hexValue_inj hx hx' hcase.1, hexValue_inj hy hy' hcase.2.1,
      hexDecodeChars_inj rest rest' ht ht' hcase.2.2]

/-- Texts of the same bytes are equal exactly when their letter case agrees. -/
theorem hexDecode_inj_iff {a b : String} {bytes : List UInt8} (ha : hexDecode a = some bytes)
    (hb : hexDecode b = some bytes) : a = b ↔ casePattern a = casePattern b := by
  refine ⟨fun h => by rw [h], fun h => ?_⟩
  exact String.toList_inj.mp (hexDecodeChars_inj _ _ ha hb h)

/-! ## Digits and whitespace -/

/-- No digit is whitespace. -/
theorem isWhitespace_of_hexValue {c : Char} {v : ℕ} (h : hexValue c = some v) :
    isWhitespace c = false := by
  rw [isWhitespace, decide_eq_false_iff_not]
  simp only [List.mem_cons, List.not_mem_nil, or_false]
  rcases hexValue_cases h with h | h | h <;> omega

/-- What decodes holds digits only. -/
theorem hexDecodeChars_digits : ∀ (l : List Char) {bytes : List UInt8},
    hexDecodeChars l = some bytes → ∀ c ∈ l, ∃ v, hexValue c = some v
  | [], _, _ => nofun
  | [_], _, h => by cases h
  | a :: b :: rest, _, h => by
    obtain ⟨x, y, tail, hx, hy, ht, -⟩ := hexDecodeChars_pair h
    intro c hc
    rcases List.mem_cons.mp hc with rfl | hc
    · exact ⟨x, hx⟩
    rcases List.mem_cons.mp hc with rfl | hc
    · exact ⟨y, hy⟩
    · exact hexDecodeChars_digits rest ht c hc

theorem hexDecodeChars_no_whitespace (l : List Char) {bytes : List UInt8}
    (h : hexDecodeChars l = some bytes) : ∀ c ∈ l, isWhitespace c = false := fun c hc =>
  (hexDecodeChars_digits l h c hc).elim fun _ hv => isWhitespace_of_hexValue hv

/-- A text that decodes has nothing to trim. -/
theorem trim_of_hexDecode {s : String} {bytes : List UInt8} (h : hexDecode s = some bytes) :
    trim s = s :=
  trim_of_no_whitespace (hexDecodeChars_no_whitespace s.toList h)
