/-
# What a header text determines

The header text of a block joins index, Merkle root, state root and timestamp without
separators.  When both roots are digests, the text still splits in one way: the first
character outside the hexadecimal digits sits in the timestamp, and what follows it tells
a year of four digits from a signed one.
-/
import Mathlib.Tactic
import Hikmalayer.Foundations.Text
import Hikmalayer.Model.Hex
import Hikmalayer.Model.Block

/-! ## Hexadecimal digits -/

/-- A hexadecimal digit of either case. -/
def isHex (c : Char) : Bool := (hexValue c).isSome

theorem isHex_of_isDigit {c : Char} (h : c.isDigit = true) : isHex c = true := by
  obtain ⟨d, hd, rfl⟩ := Text.exists_of_isDigit h
  rw [isHex, hexValue_digitChar (by omega)]
  rfl

theorem isHex_of_mem_hexChars {bytes : List UInt8} {c : Char} (h : c ∈ hexChars bytes) :
    isHex c = true := by
  rw [hexChars, List.mem_flatMap] at h
  obtain ⟨b, -, hc⟩ := h
  have hb := b.toNat_lt
  simp only [List.mem_cons, List.not_mem_nil, or_false] at hc
  rcases hc with rfl | rfl
  · rw [isHex, hexValue_digitChar (by omega)]
    rfl
  · rw [isHex, hexValue_digitChar (by omega)]
    rfl

/-- A text of 64 hexadecimal digits, as a digest is printed. -/
def IsDigestText (s : String) : Prop := s.toList.length = 64 ∧ ∀ c ∈ s.toList, isHex c = true

theorem isDigestText_sha256Hex (E : Env) (data : String) : IsDigestText (sha256Hex E data) := by
  rw [IsDigestText, sha256Hex, toList_hexEncode, length_hexChars, (E.sha256 _).length_bytes]
  exact ⟨rfl, fun c hc => isHex_of_mem_hexChars hc⟩

/-- Equal digests come from equal texts where the hash does not collide. -/
theorem sha256Hex_inj {E : Env} {inputs : Set (List UInt8)} (hfree : E.CollisionFree inputs)
    {x y : String} (hx : utf8 x ∈ inputs) (hy : utf8 y ∈ inputs)
    (h : sha256Hex E x = sha256Hex E y) : x = y := by
  refine utf8_injective (hfree hx hy ?_)
  exact Digest.ext (hexEncode_injective h)

/-! ## Timestamps -/

namespace DateTime

theorem toList_padded (width n : ℕ) :
    (padded width n).toList =
      List.replicate (width - (Nat.toDigits 10 n).length) '0' ++ Nat.toDigits 10 n := by
  have hpush : ∀ k : ℕ, ("".pushn '0' k).toList = List.replicate k '0' := by
    intro k
    rw [String.pushn_eq_repeat_push]
    induction k with
    | zero => rfl
    | succ k ih => rw [Nat.repeat, String.toList_push, ih, List.replicate_succ']
  have hdigits : (toString n).toList = Nat.toDigits 10 n := Nat.toList_repr
  have hlength : (toString n).length = (Nat.toDigits 10 n).length := by
    rw [← String.length_toList, hdigits]
  rw [padded, String.toList_append, hpush, hdigits, hlength]

theorem isDigit_of_mem_padded {width n : ℕ} {c : Char} (h : c ∈ (padded width n).toList) :
    c.isDigit = true := by
  rw [toList_padded] at h
  rcases List.mem_append.mp h with h | h
  · rw [List.eq_of_mem_replicate h]
    rfl
  · exact Nat.isDigit_of_mem_toDigits (by decide) (by decide) h

theorem length_padded (width n : ℕ) :
    (padded width n).toList.length = max width (Nat.toDigits 10 n).length := by
  rw [toList_padded, List.length_append, List.length_replicate]
  omega

/-- A number that fits is padded to exactly the width. -/
theorem length_padded_of_lt {width n : ℕ} (hwidth : 0 < width) (h : n < 10 ^ width) :
    (padded width n).toList.length = width := by
  rw [length_padded, max_eq_left ((Nat.length_toDigits_le_iff (by decide) hwidth).mpr h)]

theorem month_lt (day : ℤ) : (civil day).2.1 < 100 := by
  unfold civil
  simp only
  split <;> omega

theorem exists_three {α : Type} : ∀ {l : List α}, 4 ≤ l.length → ∃ a b c rest, l = a :: b :: c :: rest
  | a :: b :: c :: rest, _ => ⟨a, b, c, rest, rfl⟩

/-- The text starts with a year of four digits and a month of two, or with a sign and at
least three digits. -/
theorem debugText_shape (t : DateTime) :
    (∃ year m₁ m₂ tail, year.length = 4 ∧ (∀ c ∈ year, c.isDigit = true) ∧
      t.debugText.toList = year ++ '-' :: m₁ :: m₂ :: '-' :: tail) ∨
    ∃ sign d₁ d₂ d₃ tail, isHex sign = false ∧ d₃.isDigit = true ∧
      t.debugText.toList = sign :: d₁ :: d₂ :: d₃ :: tail := by
  have hmonth : (padded 2 (civil t.day).2.1).toList.length = 2 :=
    length_padded_of_lt (by decide) (month_lt t.day)
  obtain ⟨m₁, m₂, hm⟩ := List.length_eq_two.mp hmonth
  have htext : ∃ tail, t.debugText.toList =
      (yearText (civil t.day).1).toList ++ '-' :: m₁ :: m₂ :: '-' :: tail := by
    refine ⟨?tail, ?text⟩
    case text =>
      simp only [debugText, naiveText, String.toList_append, hm, List.append_assoc]
      rfl
  obtain ⟨tail, htext⟩ := htext
  by_cases hyear : 0 ≤ (civil t.day).1 ∧ (civil t.day).1 ≤ 9999
  · left
    refine ⟨(padded 4 (civil t.day).1.toNat).toList, m₁, m₂, tail,
      length_padded_of_lt (by decide) (by omega), fun c hc => isDigit_of_mem_padded hc, ?_⟩
    rw [htext, yearText, if_pos hyear]
  · right
    have hlong : 4 ≤ (padded 4 (civil t.day).1.natAbs).toList.length := by
      rw [length_padded]
      exact le_max_left _ _
    obtain ⟨d₁, d₂, d₃, rest, hdigits⟩ := exists_three hlong
    have hd₃ : d₃.isDigit = true :=
      isDigit_of_mem_padded (show d₃ ∈ (padded 4 (civil t.day).1.natAbs).toList by
        rw [hdigits]; simp)
    rw [yearText, if_neg hyear, String.toList_append, hdigits] at htext
    split at htext
    · exact ⟨'-', d₁, d₂, d₃, _, rfl, hd₃, htext⟩
    · exact ⟨'+', d₁, d₂, d₃, _, rfl, hd₃, htext⟩

/-- The text has digits and marks only. -/
theorem mem_naiveText {t : DateTime} {c : Char} (h : c ∈ (naiveText t).toList) :
    c.isDigit = true ∨ c ∈ ['-', '+', 'T', ':', '.'] := by
  have hpadded : ∀ {width n : ℕ}, c ∈ (padded width n).toList →
      c.isDigit = true ∨ c ∈ ['-', '+', 'T', ':', '.'] :=
    fun hc => Or.inl (isDigit_of_mem_padded hc)
  have hmark : ∀ {mark : Char}, mark ∈ ['-', '+', 'T', ':', '.'] → c ∈ [mark] →
      c.isDigit = true ∨ c ∈ ['-', '+', 'T', ':', '.'] := by
    intro mark hmem hc
    rw [List.mem_singleton.mp hc]
    exact Or.inr hmem
  have hyear : c ∈ (yearText (civil t.day).1).toList →
      c.isDigit = true ∨ c ∈ ['-', '+', 'T', ':', '.'] := by
    intro hc
    rw [yearText] at hc
    split at hc
    · exact hpadded hc
    · rw [String.toList_append, List.mem_append] at hc
      rcases hc with hc | hc
      · split at hc
        · exact hmark (by decide) hc
        · exact hmark (by decide) hc
      · exact hpadded hc
  have hfraction : ∀ {n : ℕ}, c ∈ (fractionText n).toList →
      c.isDigit = true ∨ c ∈ ['-', '+', 'T', ':', '.'] := by
    intro n hc
    rw [fractionText] at hc
    split_ifs at hc
    · cases hc
    all_goals
      rw [String.toList_append, List.mem_append] at hc
      rcases hc with hc | hc
      · exact hmark (by decide) hc
      · exact hpadded hc
  simp only [naiveText, String.toList_append, List.mem_append] at h
  rcases h with ((((((((((h | h) | h) | h) | h) | h) | h) | h) | h) | h) | h) | h
  · exact hyear h
  · exact hmark (by decide) h
  · exact hpadded h
  · exact hmark (by decide) h
  · exact hpadded h
  · exact hmark (by decide) h
  · exact hpadded h
  · exact hmark (by decide) h
  · exact hpadded h
  · exact hmark (by decide) h
  · exact hpadded h
  · exact hfraction h

/-- Only the last character of the text is a `Z`. -/
theorem ne_of_mem_naiveText {t : DateTime} {c : Char} (h : c ∈ (naiveText t).toList) : c ≠ 'Z' := by
  rintro rfl
  exact absurd (mem_naiveText h) (by decide)

/-- A padded number determines the number. -/
theorem padded_injective {width m n : ℕ} (h : (padded width m).toList = (padded width n).toList) :
    m = n := by
  have hvalue : ∀ k, Nat.ofDigitChars 10 (padded width k).toList 0 = k := by
    intro k
    rw [toList_padded, Nat.ofDigitChars_append, Nat.ofDigitChars_replicate_zero, Nat.mul_zero,
      Nat.ofDigitChars_ten_toDigits]
  rw [← hvalue m, h, hvalue]

/-- The calendar puts one day at the first of January 2026. -/
theorem day_of_civil {day : ℤ} (h : civil day = (2026, 1, 1)) : day = 20454 := by
  unfold civil at h
  simp only [Prod.mk.injEq] at h
  obtain ⟨hyear, hmonth, hday⟩ := h
  split at hmonth <;> split at hyear <;> omega

/-- Only the genesis timestamp is printed like it. -/
theorem eq_genesis_of_text {t : DateTime}
    (h : t.debugText = (ofTimestamp genesisTimestamp).debugText) :
    t = ofTimestamp genesisTimestamp := by
  have htext : (ofTimestamp genesisTimestamp).debugText.toList =
      "2026".toList ++ '-' :: ("01".toList ++ '-' :: ("01".toList ++ 'T' ::
        ("00".toList ++ ':' :: ("00".toList ++ ':' :: ("00".toList ++ 'Z' :: []))))) := by decide
  have hnumber : ∀ {width n : ℕ} {text : String}, (padded width n).toList = text.toList →
      ∀ m, (padded width m).toList = text.toList → n = m := fun hn m hm =>
    padded_injective (hn.trans hm.symm)
  have hdigit : ∀ {width n : ℕ}, ∀ c ∈ (padded width n).toList, c.isDigit = true :=
    fun c hc => isDigit_of_mem_padded hc
  have hdigits : ∀ text : String, text.toList.all Char.isDigit = true →
      ∀ c ∈ text.toList, c.isDigit = true := fun _ htext => List.all_eq_true.mp htext
  have hchars := congrArg String.toList h
  rw [htext] at hchars
  have hdash : "-".toList = ['-'] := rfl
  have hT : "T".toList = ['T'] := rfl
  have hcolon : ":".toList = [':'] := rfl
  have hZ : "Z".toList = ['Z'] := rfl
  simp only [debugText, naiveText, String.toList_append, List.append_assoc, hdash, hT, hcolon, hZ,
    List.cons_append, List.nil_append] at hchars
  have hyear : 0 ≤ (civil t.day).1 ∧ (civil t.day).1 ≤ 9999 := by
    by_contra hsigned
    rw [yearText, if_neg hsigned, String.toList_append, List.append_assoc] at hchars
    split at hchars <;> cases hchars
  rw [yearText, if_pos hyear] at hchars
  obtain ⟨hy, -, hchars⟩ := Text.append_cons_inj rfl rfl hdigit (hdigits _ (by decide)) hchars
  obtain ⟨hm, -, hchars⟩ := Text.append_cons_inj rfl rfl hdigit (hdigits _ (by decide)) hchars
  obtain ⟨hd, -, hchars⟩ := Text.append_cons_inj rfl rfl hdigit (hdigits _ (by decide)) hchars
  obtain ⟨hh, -, hchars⟩ := Text.append_cons_inj rfl rfl hdigit (hdigits _ (by decide)) hchars
  obtain ⟨hn, -, hchars⟩ := Text.append_cons_inj rfl rfl hdigit (hdigits _ (by decide)) hchars
  -- without a fraction the seconds are followed by the `Z` at once
  have hfraction : (if t.inLeapSecond then t.nano.val - 1000000000 else t.nano.val) = 0 := by
    by_contra hne
    have hdot : ∀ {width n : ℕ}, ("." ++ padded width n).toList = '.' :: (padded width n).toList :=
      fun {width n} => String.toList_append
    rw [fractionText, if_neg hne] at hchars
    split_ifs at hchars <;> rw [hdot, List.cons_append] at hchars <;>
      exact absurd (Text.append_cons_inj rfl rfl hdigit (hdigits _ (by decide)) hchars).2.1
        (by decide)
  rw [hfraction] at hchars
  obtain ⟨hs, -, -⟩ := Text.append_cons_inj rfl rfl hdigit (hdigits _ (by decide)) hchars
  have hday : t.day = 20454 := by
    refine day_of_civil (Prod.ext ?_ (Prod.ext ?_ ?_))
    · have hyear' : (civil t.day).1.toNat = 2026 := hnumber hy 2026 (by decide)
      show (civil t.day).1 = 2026
      omega
    · exact hnumber hm 1 (by decide)
    · exact hnumber hd 1 (by decide)
  have hhour := hnumber hh 0 (by decide)
  have hminute := hnumber hn 0 (by decide)
  have hsecond := hnumber hs 0 (by decide)
  have hleap : t.inLeapSecond = false := by
    by_contra hleap
    rw [Bool.not_eq_false] at hleap
    rw [if_pos hleap] at hsecond
    omega
  rw [if_neg (by rw [hleap]; exact Bool.false_ne_true)] at hsecond hfraction
  have hsec : t.sec = 0 := Fin.ext (show t.sec.val = 0 by omega)
  have hnano : t.nano = 0 := Fin.ext hfraction
  obtain ⟨day, sec, nano⟩ := t
  obtain rfl : day = 20454 := hday
  obtain rfl : sec = 0 := hsec
  obtain rfl : nano = 0 := hnano
  rfl

end DateTime

/-! ## Splitting the header text -/

namespace Block

variable {E : Env} {b c : Block}

/-- Three hexadecimal texts in front of a timestamp are told apart from it. -/
theorem split_timestamp {front front' after after' : List Char} (t t' : DateTime)
    (hfront : ∀ x ∈ front, isHex x = true) (hfront' : ∀ x ∈ front', isHex x = true)
    (h : front ++ (t.debugText.toList ++ after) = front' ++ (t'.debugText.toList ++ after')) :
    front = front' := by
  have hyear : ∀ {front year : List Char}, (∀ x ∈ front, isHex x = true) →
      (∀ x ∈ year, x.isDigit = true) → ∀ x ∈ front ++ year, isHex x = true := by
    intro front year hf hy x hx
    rcases List.mem_append.mp hx with hx | hx
    · exact hf x hx
    · exact isHex_of_isDigit (hy x hx)
  rcases t.debugText_shape with ⟨year, m₁, m₂, tail, hlen, hdigits, ht⟩ |
    ⟨sign, d₁, d₂, d₃, tail, hsign, hd₃, ht⟩ <;>
  rcases t'.debugText_shape with ⟨year', m₁', m₂', tail', hlen', hdigits', ht'⟩ |
    ⟨sign', d₁', d₂', d₃', tail', hsign', hd₃', ht'⟩
  · -- both years have four digits
    rw [ht, ht'] at h
    simp only [List.append_assoc, List.cons_append] at h
    rw [← List.append_assoc, ← List.append_assoc front'] at h
    have hsplit := (Text.append_cons_inj (p := isHex) rfl rfl (hyear hfront hdigits)
      (hyear hfront' hdigits') h).1
    exact (List.append_inj' hsplit (hlen.trans hlen'.symm)).1
  · -- the fourth character after the split is a dash on one side, a digit on the other
    rw [ht, ht'] at h
    simp only [List.append_assoc, List.cons_append] at h
    rw [← List.append_assoc] at h
    obtain ⟨-, -, htail⟩ := Text.append_cons_inj (p := isHex) rfl hsign' (hyear hfront hdigits)
      hfront' h
    simp only [List.cons.injEq] at htail
    rw [← htail.2.2.1] at hd₃'
    cases hd₃'
  · rw [ht, ht'] at h
    simp only [List.append_assoc, List.cons_append] at h
    rw [← List.append_assoc front'] at h
    obtain ⟨-, -, htail⟩ := Text.append_cons_inj (p := isHex) hsign rfl hfront
      (hyear hfront' hdigits') h
    simp only [List.cons.injEq] at htail
    rw [htail.2.2.1] at hd₃
    cases hd₃
  · -- both years are signed
    rw [ht, ht'] at h
    simp only [List.cons_append] at h
    exact (Text.append_cons_inj hsign hsign' hfront hfront' h).1

/-- The timestamp ends at its `Z`. -/
theorem split_after {t t' : DateTime} {after after' : List Char}
    (h : t.debugText.toList ++ after = t'.debugText.toList ++ after') :
    t.debugText = t'.debugText := by
  simp only [DateTime.debugText, String.toList_append] at h
  have hZ : "Z".toList = ['Z'] := rfl
  rw [hZ, List.append_assoc, List.append_assoc] at h
  have hsplit := (Text.append_cons_inj (p := fun x => decide (x ≠ 'Z')) (by decide) (by decide)
    (fun x hx => decide_eq_true (DateTime.ne_of_mem_naiveText hx))
    (fun x hx => decide_eq_true (DateTime.ne_of_mem_naiveText hx)) h).1
  rw [DateTime.debugText, DateTime.debugText, String.toList_inj.mp hsplit]

/-- A header text whose roots are digests determines index, roots and printed timestamp. -/
theorem header_determined (hmb : IsDigestText b.merkleRoot) (hsb : IsDigestText b.stateRoot)
    (hmc : IsDigestText c.merkleRoot) (hsc : IsDigestText c.stateRoot)
    (h : b.preimage E = c.preimage E) :
    b.index = c.index ∧ b.merkleRoot = c.merkleRoot ∧ b.stateRoot = c.stateRoot ∧
      b.timestamp.debugText = c.timestamp.debugText := by
  have hchars := congrArg String.toList h
  simp only [preimage, hashPayload, String.toList_append, List.append_assoc] at hchars
  have hhex : ∀ {x : Block}, IsDigestText x.merkleRoot → IsDigestText x.stateRoot →
      ∀ y ∈ (toString x.index).toList ++ (x.merkleRoot.toList ++ x.stateRoot.toList),
        isHex y = true := by
    intro x hm hs y hy
    rcases List.mem_append.mp hy with hy | hy
    · exact isHex_of_isDigit (Text.isDigit_of_mem hy)
    · rcases List.mem_append.mp hy with hy | hy
      · exact hm.2 y hy
      · exact hs.2 y hy
  have hfront : (toString b.index).toList ++ (b.merkleRoot.toList ++ b.stateRoot.toList) =
      (toString c.index).toList ++ (c.merkleRoot.toList ++ c.stateRoot.toList) :=
    split_timestamp b.timestamp c.timestamp (hhex hmb hsb) (hhex hmc hsc)
      (by simpa only [List.append_assoc] using hchars)
  have hroots : (b.merkleRoot.toList ++ b.stateRoot.toList).length =
      (c.merkleRoot.toList ++ c.stateRoot.toList).length := by
    rw [List.length_append, List.length_append, hmb.1, hsb.1, hmc.1, hsc.1]
  obtain ⟨hindex, hroot⟩ := List.append_inj' hfront hroots
  obtain ⟨hmerkle, hstate⟩ := List.append_inj hroot (hmb.1.trans hmc.1.symm)
  refine ⟨Text.toString_injective (String.toList_inj.mp hindex), String.toList_inj.mp hmerkle,
    String.toList_inj.mp hstate, ?_⟩
  rw [hindex, hmerkle, hstate, List.append_cancel_left_eq, List.append_cancel_left_eq,
    List.append_cancel_left_eq] at hchars
  exact split_after hchars

/-- Blocks that carry their own hashes have one header text when the hashes agree. -/
theorem preimage_eq_of_hash {inputs : Set (List UInt8)} (hfree : E.CollisionFree inputs)
    (hb : utf8 (b.preimage E) ∈ inputs) (hc : utf8 (c.preimage E) ∈ inputs)
    (hbhash : b.hash = b.calculateHash E) (hchash : c.hash = c.calculateHash E)
    (h : b.hash = c.hash) : b.preimage E = c.preimage E := by
  rw [hbhash, hchash, calculateHash, calculateHash] at h
  exact sha256Hex_inj hfree hb hc h

theorem hash_of_hasValidPow (h : b.hasValidPow E = true) : b.hash = b.calculateHash E := by
  rw [hasValidPow, Bool.and_eq_true, Bool.and_eq_true, decide_eq_true_eq] at h
  exact h.1.2

/-- A Merkle root is a digest. -/
theorem isDigestText_computeMerkleRoot (E : Env) (transactions : List String) :
    IsDigestText (computeMerkleRoot E transactions) := by
  have hlayer : ∀ layer : List String, ∀ x ∈ merkleLayer E layer, IsDigestText x := by
    intro layer
    induction layer using merkleLayer.induct with
    | case1 => intro x hx; cases hx
    | case2 left =>
      intro x hx
      rw [List.mem_singleton.mp hx]
      exact isDigestText_sha256Hex E _
    | case3 left right rest ih =>
      intro x hx
      rcases List.mem_cons.mp hx with rfl | hx
      · exact isDigestText_sha256Hex E _
      · exact ih x hx
  have hfold : ∀ layer : List String, layer ≠ [] → (∀ x ∈ layer, IsDigestText x) →
      IsDigestText (merkleFold E layer) := by
    intro layer
    induction layer using merkleFold.induct E with
    | case1 => intro h; exact absurd rfl h
    | case2 root =>
      intro _ h
      rw [merkleFold]
      exact h root List.mem_cons_self
    | case3 left right rest ih =>
      intro _ _
      rw [merkleFold]
      exact ih (List.cons_ne_nil _ _) (hlayer _)
  unfold computeMerkleRoot
  split
  · exact isDigestText_sha256Hex E _
  · rename_i hne
    refine hfold _ (fun h => hne (List.map_eq_nil_iff.mp h)) fun x hx => ?_
    obtain ⟨tx, -, rfl⟩ := List.mem_map.mp hx
    exact isDigestText_sha256Hex E tx

theorem isDigestText_merkleRoot (h : b.hasValidMerkleRoot E = true) :
    IsDigestText b.merkleRoot := by
  rw [of_decide_eq_true h]
  exact isDigestText_computeMerkleRoot E _

end Block
