/-
# Decimal numbers and separated texts

The decimal text of a machine integer: it is not empty, it consists of digits, and it
determines the integer.  Texts joined by a separator split in one way as long as the
parts in front of it do not contain it.
-/
import Mathlib.Tactic

namespace Text

/-! ## Decimal numbers -/

/-- The decimal text of a word. -/
theorem toList_toString (n : UInt64) : (toString n).toList = Nat.toDigits 10 n.toNat :=
  Nat.toList_repr

theorem toString_ne_nil (n : UInt64) : (toString n).toList ≠ [] := by
  rw [toList_toString]
  exact Nat.toDigits_ne_nil

theorem isDigit_of_mem {n : UInt64} {c : Char} (h : c ∈ (toString n).toList) :
    c.isDigit = true := by
  rw [toList_toString] at h
  exact Nat.isDigit_of_mem_toDigits (by decide) (by decide) h

/-- The decimal text determines the number. -/
theorem toString_injective : Function.Injective (toString : UInt64 → String) := by
  intro m n h
  have hdigits := congrArg String.toList h
  rw [toList_toString, toList_toString] at hdigits
  have hnat : m.toNat = n.toNat := by
    rw [← Nat.ofDigitChars_ten_toDigits (n := m.toNat), hdigits, Nat.ofDigitChars_ten_toDigits]
  exact UInt64.toNat_inj.mp hnat

/-- Read a word: digits behind a plus or nothing. -/
def readWord (l : List Char) : Option UInt64 :=
  let digits := if l.head? = some '+' then l.tail else l
  if digits ≠ [] ∧ digits.all Char.isDigit ∧ Nat.ofDigitChars 10 digits 0 < 2 ^ 64 then
    some (UInt64.ofNat (Nat.ofDigitChars 10 digits 0))
  else none

theorem readWord_toString (n : UInt64) : readWord (toString n).toList = some n := by
  have hplus : (toString n).toList.head? ≠ some '+' := by
    intro hhead
    have hmem := List.mem_of_mem_head? (Option.mem_def.mpr hhead)
    exact absurd (isDigit_of_mem hmem) (by decide)
  have hvalue : Nat.ofDigitChars 10 (toString n).toList 0 = n.toNat := by
    rw [toList_toString, Nat.ofDigitChars_ten_toDigits]
  unfold readWord
  dsimp only
  rw [if_neg hplus, hvalue, UInt64.ofNat_toNat]
  exact if_pos ⟨toString_ne_nil n, List.all_eq_true.mpr fun _ hc => isDigit_of_mem hc, n.toNat_lt⟩

/-- A digit is the character of a number below ten. -/
theorem exists_of_isDigit {c : Char} (h : c.isDigit = true) : ∃ d < 10, c = Nat.digitChar d := by
  have hrange : 48 ≤ c.toNat ∧ c.toNat ≤ 57 := by
    simp only [Char.isDigit, Bool.and_eq_true, decide_eq_true_eq, ge_iff_le,
      UInt32.le_iff_toNat_le] at h
    exact h
  refine ⟨c.toNat - 48, by omega, ?_⟩
  apply Char.toNat_inj.mp
  rw [Nat.toNat_digitChar_of_lt_ten (by omega)]
  omega

/-- The decimal text of a single digit. -/
theorem toList_toString_digit {d : ℕ} (h : d < 10) :
    (toString (UInt64.ofNat d)).toList = [Nat.digitChar d] := by
  rw [toList_toString, UInt64.toNat_ofNat_of_lt' (by decide +revert), Nat.toDigits_of_lt_base h]

/-- The first digit of a decimal text. -/
theorem exists_head (n : UInt64) :
    ∃ d < 10, ∃ rest, (toString n).toList = Nat.digitChar d :: rest := by
  obtain ⟨c, rest, hc⟩ := List.exists_cons_of_ne_nil (toString_ne_nil n)
  obtain ⟨d, hd, rfl⟩ := exists_of_isDigit (isDigit_of_mem (n := n) (c := c) (by simp [hc]))
  exact ⟨d, hd, rest, hc⟩

/-- The last digit of a decimal text. -/
theorem exists_last (n : UInt64) :
    ∃ d < 10, ∃ front, (toString n).toList = front ++ [Nat.digitChar d] := by
  have hlast := List.dropLast_append_getLast (toString_ne_nil n)
  have hmem := List.getLast_mem (toString_ne_nil n)
  obtain ⟨d, hd, hc⟩ := exists_of_isDigit (isDigit_of_mem hmem)
  exact ⟨d, hd, _, by rw [← hc, hlast]⟩

/-! ## Separators -/

/-- A list splits in one way at its first element outside a class. -/
theorem append_cons_inj {α : Type} {p : α → Bool} {x x' : α} (hx : p x = false)
    (hx' : p x' = false) {a a' b b' : List α} (ha : ∀ y ∈ a, p y = true)
    (ha' : ∀ y ∈ a', p y = true) (h : a ++ x :: b = a' ++ x' :: b') :
    a = a' ∧ x = x' ∧ b = b' := by
  induction a generalizing a' with
  | nil =>
    cases a' with
    | nil =>
      simp only [List.nil_append, List.cons.injEq] at h
      exact ⟨rfl, h⟩
    | cons y rest =>
      simp only [List.nil_append, List.cons_append, List.cons.injEq] at h
      rw [h.1, ha' y List.mem_cons_self] at hx
      cases hx
  | cons y rest ih =>
    cases a' with
    | nil =>
      simp only [List.nil_append, List.cons_append, List.cons.injEq] at h
      rw [← h.1, ha y List.mem_cons_self] at hx'
      cases hx'
    | cons y' rest' =>
      simp only [List.cons_append, List.cons.injEq] at h
      obtain ⟨hrest, htail⟩ := ih (fun z hz => ha z (List.mem_cons_of_mem _ hz))
        (fun z hz => ha' z (List.mem_cons_of_mem _ hz)) h.2
      exact ⟨by rw [h.1, hrest], htail⟩

/-- The texts before and after the first separator. -/
def splitOnce (sep : Char) (l : List Char) : Option (List Char × List Char) :=
  if sep ∈ l then some (l.takeWhile (· ≠ sep), (l.dropWhile (· ≠ sep)).tail) else none

theorem splitOnce_append {sep : Char} {a : List Char} (h : sep ∉ a) (b : List Char) :
    splitOnce sep (a ++ sep :: b) = some (a, b) := by
  have hall : ∀ c ∈ a, decide (c ≠ sep) = true := by
    intro c hc
    exact decide_eq_true fun heq => h (heq ▸ hc)
  unfold splitOnce
  rw [if_pos (by simp), List.takeWhile_append_of_pos hall, List.dropWhile_append_of_pos hall]
  simp

/-- At most `n` texts, split at the first separators. -/
def splitN (sep : Char) : ℕ → List Char → List (List Char)
  | 0, _ => []
  | 1, l => [l]
  | n + 2, l =>
    match splitOnce sep l with
    | none => [l]
    | some (a, b) => a :: splitN sep (n + 1) b

/-! ## Trimming -/

/-- Take the characters of a class off both ends. -/
def trimBy (p : Char → Bool) (l : List Char) : List Char :=
  ((l.dropWhile p).reverse.dropWhile p).reverse

variable {p : Char → Bool}

theorem dropWhile_eq_self {l : List Char} (h : ∀ c ∈ l, p c = false) : l.dropWhile p = l := by
  cases l with
  | nil => rfl
  | cons c rest =>
    rw [List.dropWhile_cons, h c List.mem_cons_self]
    rfl

/-- Nothing is taken off a text without the class. -/
theorem trimBy_eq_self {l : List Char} (h : ∀ c ∈ l, p c = false) : trimBy p l = l := by
  have hrev : ∀ c ∈ l.reverse, p c = false := fun c hc => h c (List.mem_reverse.mp hc)
  rw [trimBy, dropWhile_eq_self h, dropWhile_eq_self hrev, List.reverse_reverse]

/-- A first character outside the class stays. -/
theorem trimBy_cons {c : Char} (h : p c = false) (l : List Char) :
    ∃ rest, trimBy p (c :: l) = c :: rest := by
  have hdrop : (c :: l).dropWhile p = c :: l := by
    rw [List.dropWhile_cons, h]
    rfl
  rw [trimBy, hdrop, List.reverse_cons, List.dropWhile_append]
  split
  · refine ⟨[], ?_⟩
    rw [List.dropWhile_cons, h]
    rfl
  · exact ⟨_, by rw [List.reverse_append, List.reverse_singleton, List.singleton_append]⟩

end Text
