/-
# Timestamps and their texts

The date library's timestamps: a leap second stands at the end of a minute.  The text of a
timestamp, of either kind, determines it.
-/
import Mathlib.Tactic
import Hikmalayer.Consensus.Header

namespace DateTime

/-- A timestamp that the date library can hold: its year is in range, and a leap second ends
a minute. -/
structure Representable (t : DateTime) : Prop where
  year : -262143 ≤ (civil t.day).1 ∧ (civil t.day).1 ≤ 262142
  leap : t.inLeapSecond = true → t.sec.val % 60 = 59

/-! ## The calendar -/

/-- The year of the era for a day of the era, as the calendar computes it. -/
def yearOfEra (doe : ℕ) : ℕ := (doe - doe / 1460 + doe / 36524 - doe / 146096) / 365

/-- The days of the era before a year of the era. -/
def daysBefore (yoe : ℕ) : ℕ := 365 * yoe + yoe / 4 - yoe / 100

/-- A day of the era falls into a century, a four-year cycle of it and a year of that. -/
theorem exists_cycles {doe : ℕ} (h : doe < 146097) : ∃ c q y doy, c ≤ 3 ∧ q ≤ 24 ∧ y ≤ 3 ∧
    doy ≤ 365 ∧ (doy = 365 → y = 3) ∧ (doy = 365 → q = 24 → c = 3) ∧
    doe = 36524 * c + 1461 * q + 365 * y + doy := by
  obtain ⟨c, hc⟩ : ∃ c, c = min (doe / 36524) 3 := ⟨_, rfl⟩
  obtain ⟨q, hq⟩ : ∃ q, q = (doe - 36524 * c) / 1461 := ⟨_, rfl⟩
  obtain ⟨y, hy⟩ : ∃ y, y = min ((doe - 36524 * c - 1461 * q) / 365) 3 := ⟨_, rfl⟩
  refine ⟨c, q, y, doe - 36524 * c - 1461 * q - 365 * y, ?_, ?_, ?_, ?_, ?_, ?_, ?_⟩ <;> omega

theorem yearOfEra_cycles {c q y doy : ℕ} (hc : c ≤ 3) (hq : q ≤ 24) (hy : y ≤ 3) (hdoy : doy ≤ 365)
    (hleap : doy = 365 → y = 3) (hcentury : doy = 365 → q = 24 → c = 3) :
    yearOfEra (36524 * c + 1461 * q + 365 * y + doy) = 100 * c + 4 * q + y := by
  unfold yearOfEra
  obtain ⟨doe, hdoe⟩ : ∃ doe, doe = 36524 * c + 1461 * q + 365 * y + doy := ⟨_, rfl⟩
  -- a further day is taken off from the last year of the four-year cycle on
  obtain ⟨k, hk, hfour⟩ : ∃ k, (k = if 1460 ≤ 24 * c + q + 365 * y + doy then 1 else 0) ∧
      doe / 1460 = 25 * c + q + k := by
    refine ⟨_, rfl, ?_⟩
    split <;> rw [Nat.div_eq_iff (by norm_num)] <;> omega
  -- only the last day of the era is in a century of its own
  obtain ⟨l, hl, hcenturies, hera⟩ : ∃ l, (l = if doe = 146096 then 1 else 0) ∧
      doe / 36524 = c + l ∧ doe / 146096 = l := by
    refine ⟨_, rfl, ?_⟩
    split <;> rw [Nat.div_eq_iff (by norm_num), Nat.div_eq_iff (by norm_num)] <;> omega
  rw [← hdoe, hfour, hcenturies, hera, Nat.div_eq_iff (by norm_num)]
  split at hk <;> omega

theorem daysBefore_cycles {c q y : ℕ} (hq : q ≤ 24) (hy : y ≤ 3) :
    daysBefore (100 * c + 4 * q + y) = 36524 * c + 1461 * q + 365 * y := by
  unfold daysBefore
  omega

/-- The day of the year that the calendar computes lies in its year. -/
theorem yearOfEra_spec {doe : ℕ} (h : doe < 146097) : yearOfEra doe < 400 ∧
    daysBefore (yearOfEra doe) ≤ doe ∧ doe ≤ daysBefore (yearOfEra doe) + 365 := by
  obtain ⟨c, q, y, doy, hc, hq, hy, hdoy, hleap, hcentury, rfl⟩ := exists_cycles h
  rw [yearOfEra_cycles hc hq hy hdoy hleap hcentury, daysBefore_cycles hq hy]
  omega

/-- Year, month and day of the month determine the day. -/
theorem civil_injective : Function.Injective civil := by
  intro a b h
  have hspec : ∀ day : ℤ, ((day + 719468) % 146097).toNat < 146097 := fun day => by omega
  obtain ⟨ha₁, ha₂, ha₃⟩ := yearOfEra_spec (hspec a)
  obtain ⟨hb₁, hb₂, hb₃⟩ := yearOfEra_spec (hspec b)
  unfold civil at h
  simp only [Prod.mk.injEq] at h
  have hfold : ∀ doe : ℕ, (doe - doe / 1460 + doe / 36524 - doe / 146096) / 365 = yearOfEra doe :=
    fun _ => rfl
  have hfold' : ∀ yoe : ℕ, 365 * yoe + yoe / 4 - yoe / 100 = daysBefore yoe := fun _ => rfl
  simp only [hfold, hfold'] at h
  obtain ⟨hyear, hmonth, hday⟩ := h
  generalize hda : ((a + 719468) % 146097).toNat = da at *
  generalize hdb : ((b + 719468) % 146097).toNat = db at *
  generalize hya : yearOfEra da = ya at *
  generalize hyb : yearOfEra db = yb at *
  have hmp : (5 * (da - daysBefore ya) + 2) / 153 = (5 * (db - daysBefore yb) + 2) / 153 := by
    split at hmonth <;> split at hmonth <;> omega
  rw [hmp] at hyear hday
  have hy : ya = yb ∧ (a + 719468) / 146097 = (b + 719468) / 146097 := by
    split at hyear <;> omega
  obtain ⟨rfl, hera⟩ := hy
  omega

/-! ## The text -/

/-- The digits of a year, then a dash: a sign is no digit. -/
theorem yearText_inj {y y' : ℤ} {rest rest' : List Char}
    (h : (yearText y).toList ++ '-' :: rest = (yearText y').toList ++ '-' :: rest') :
    y = y' ∧ rest = rest' := by
  have hdigit : ∀ {width n : ℕ}, ∀ c ∈ (padded width n).toList, c.isDigit = true :=
    fun c hc => isDigit_of_mem_padded hc
  have hlong : ∀ n : ℕ, (padded 4 n).toList ≠ [] := fun n hnil => by
    have hlength := length_padded 4 n
    rw [hnil, List.length_nil] at hlength
    omega
  -- a year of four digits against one with a sign
  have hmixed : ∀ {n : ℕ} {sign : Char} {l l' : List Char}, sign.isDigit = false →
      (padded 4 n).toList ++ '-' :: l ≠ sign :: l' := by
    intro n sign l l' hsign h
    have hempty : ∀ c ∈ ([] : List Char), c.isDigit = true := fun c hc => absurd hc List.not_mem_nil
    have h' : (padded 4 n).toList ++ '-' :: l = [] ++ sign :: l' := h
    exact hlong n (Text.append_cons_inj (p := Char.isDigit) rfl hsign hdigit hempty h').1
  have hsigned : ∀ {y : ℤ}, ¬ (0 ≤ y ∧ y ≤ 9999) → ∃ sign : Char, sign.isDigit = false ∧
      (sign = '-' ↔ y < 0) ∧ (yearText y).toList = sign :: (padded 4 y.natAbs).toList := by
    intro y hy
    rw [yearText, if_neg hy]
    by_cases hneg : y < 0
    · rw [if_pos hneg]
      exact ⟨'-', rfl, by simp [hneg], by rw [String.toList_append]; rfl⟩
    · rw [if_neg hneg]
      exact ⟨'+', rfl, by simp [hneg], by rw [String.toList_append]; rfl⟩
  by_cases hy : 0 ≤ y ∧ y ≤ 9999 <;> by_cases hy' : 0 ≤ y' ∧ y' ≤ 9999
  · rw [yearText, yearText, if_pos hy, if_pos hy'] at h
    obtain ⟨hpadded, -, hrest⟩ := Text.append_cons_inj rfl rfl hdigit hdigit h
    have hnat := padded_injective hpadded
    exact ⟨by omega, hrest⟩
  · obtain ⟨sign, hsign, -, htext⟩ := hsigned hy'
    rw [yearText, if_pos hy, htext, List.cons_append] at h
    exact absurd h (hmixed hsign)
  · obtain ⟨sign, hsign, -, htext⟩ := hsigned hy
    rw [htext, yearText, if_pos hy', List.cons_append] at h
    exact absurd h.symm (hmixed hsign)
  · obtain ⟨sign, -, hneg, htext⟩ := hsigned hy
    obtain ⟨sign', -, hneg', htext'⟩ := hsigned hy'
    rw [htext, htext', List.cons_append, List.cons_append, List.cons.injEq] at h
    obtain ⟨rfl, h⟩ := h
    obtain ⟨hpadded, -, hrest⟩ := Text.append_cons_inj rfl rfl hdigit hdigit h
    have hnat := padded_injective hpadded
    have hsame : y < 0 ↔ y' < 0 := hneg.symm.trans hneg'
    exact ⟨by omega, hrest⟩

/-- The digits of a fraction: none, or three, six or nine that give it. -/
theorem fractionText_digits {n : ℕ} (h : n < 1000000000) : fractionText n = "" ∧ n = 0 ∨
    ∃ unit width, (fractionText n).toList = '.' :: (padded width (n / unit)).toList ∧
      (padded width (n / unit)).toList.length = width ∧ n = n / unit * unit ∧
      (width = 3 ∧ unit = 1000000 ∨ width = 6 ∧ unit = 1000 ∨ width = 9 ∧ unit = 1) := by
  have hdot : ∀ {width n : ℕ}, ("." ++ padded width n).toList = '.' :: (padded width n).toList :=
    fun {width n} => String.toList_append
  unfold fractionText
  split_ifs with hzero hmilli hmicro
  · exact Or.inl ⟨rfl, hzero⟩
  · exact Or.inr ⟨1000000, 3, hdot, length_padded_of_lt (by norm_num) (by omega), by omega,
      Or.inl ⟨rfl, rfl⟩⟩
  · exact Or.inr ⟨1000, 6, hdot, length_padded_of_lt (by norm_num) (by omega), by omega,
      Or.inr (Or.inl ⟨rfl, rfl⟩)⟩
  · refine Or.inr ⟨1, 9, ?_, ?_, by omega, Or.inr (Or.inr ⟨rfl, rfl⟩)⟩
    · rw [Nat.div_one]
      exact hdot
    · rw [Nat.div_one]
      exact length_padded_of_lt (by norm_num) (by omega)

/-- Two digits, then a fraction up to the `Z`. -/
theorem seconds_inj {s s' n n' : ℕ} (hn : n < 1000000000) (hn' : n' < 1000000000)
    (h : (padded 2 s).toList ++ ((fractionText n).toList ++ ['Z']) =
      (padded 2 s').toList ++ ((fractionText n').toList ++ ['Z'])) : s = s' ∧ n = n' := by
  have hdigit : ∀ {width n : ℕ}, ∀ c ∈ (padded width n).toList, c.isDigit = true :=
    fun c hc => isDigit_of_mem_padded hc
  rcases fractionText_digits hn with ⟨hempty, rfl⟩ | ⟨unit, width, htext, hlength, hunit, hkind⟩ <;>
  rcases fractionText_digits hn' with ⟨hempty', rfl⟩ | ⟨unit', width', htext', hlength', hunit', hkind'⟩
  · rw [hempty] at h
    exact ⟨padded_injective (Text.append_cons_inj rfl rfl hdigit hdigit h).1, rfl⟩
  · rw [hempty, htext', List.cons_append] at h
    exact absurd (Text.append_cons_inj rfl rfl hdigit hdigit h).2.1 (by decide)
  · rw [hempty', htext, List.cons_append] at h
    exact absurd (Text.append_cons_inj rfl rfl hdigit hdigit h).2.1 (by decide)
  · rw [htext, htext', List.cons_append, List.cons_append] at h
    obtain ⟨hs, -, h⟩ := Text.append_cons_inj rfl rfl hdigit hdigit h
    obtain ⟨hfraction, -, -⟩ := Text.append_cons_inj rfl rfl hdigit hdigit h
    refine ⟨padded_injective hs, ?_⟩
    have hwidth : width = width' := by rw [← hlength, hfraction, hlength']
    have hsame : unit = unit' := by omega
    subst hwidth hsame
    rw [hunit, padded_injective hfraction, ← hunit']

/-- The text of a timestamp determines it. -/
theorem debugText_injective {t t' : DateTime} (ht : t.Representable) (ht' : t'.Representable)
    (h : t.debugText = t'.debugText) : t = t' := by
  have hdigit : ∀ {width n : ℕ}, ∀ c ∈ (padded width n).toList, c.isDigit = true :=
    fun c hc => isDigit_of_mem_padded hc
  have hdash : "-".toList = ['-'] := rfl
  have hT : "T".toList = ['T'] := rfl
  have hcolon : ":".toList = [':'] := rfl
  have hZ : "Z".toList = ['Z'] := rfl
  have hchars := congrArg String.toList h
  simp only [debugText, naiveText, String.toList_append, List.append_assoc, hdash, hT, hcolon, hZ,
    List.cons_append, List.nil_append] at hchars
  obtain ⟨hyear, hchars⟩ := yearText_inj hchars
  obtain ⟨hmonth, -, hchars⟩ := Text.append_cons_inj rfl rfl hdigit hdigit hchars
  obtain ⟨hday, -, hchars⟩ := Text.append_cons_inj rfl rfl hdigit hdigit hchars
  obtain ⟨hhour, -, hchars⟩ := Text.append_cons_inj rfl rfl hdigit hdigit hchars
  obtain ⟨hminute, -, hchars⟩ := Text.append_cons_inj rfl rfl hdigit hdigit hchars
  have hdays : t.day = t'.day := civil_injective (Prod.ext hyear (Prod.ext
    (padded_injective hmonth) (padded_injective hday)))
  have hhours := padded_injective hhour
  have hnano : ∀ t : DateTime, (if t.inLeapSecond then t.nano.val - 1000000000 else t.nano.val) <
      1000000000 := by
    intro t
    have hlt := t.nano.isLt
    split
    · omega
    · next hleap => simpa [inLeapSecond] using hleap
  obtain ⟨hseconds, hfraction⟩ := seconds_inj (hnano t) (hnano t') hchars
  -- the second sixty is a leap second, which ends its minute
  have hleap := ht.leap
  have hleap' := ht'.leap
  have hiff : ∀ t : DateTime, t.inLeapSecond = true ↔ 1000000000 ≤ t.nano.val := fun t =>
    decide_eq_true_iff
  simp only [hiff] at hleap hleap' hseconds hfraction
  have hsec : t.sec.val = t'.sec.val ∧ t.nano.val = t'.nano.val := by
    have hmod := padded_injective hminute
    split_ifs at hseconds hfraction <;> omega
  obtain ⟨day, sec, nano⟩ := t
  obtain ⟨day', sec', nano'⟩ := t'
  obtain rfl : day = day' := hdays
  obtain rfl : sec = sec' := Fin.ext hsec.1
  obtain rfl : nano = nano' := Fin.ext hsec.2
  rfl

end DateTime
