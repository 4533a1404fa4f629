/-
# Totals over ordered maps

A map from keys to values that a program keeps sorted by key is an
`ExtTreeMap`: two maps with the same lookups are equal.  `total f m` adds up
`f key value` over the entries of `m`.  The lemmas say how a total moves when one
entry is written or removed, in subtraction-free form:

* `total_insert` : new total + old contribution = old total + new contribution;
* `total_erase`  : new total + old contribution = old total;
* `share_le_total` : one entry contributes at most the total.
-/
import Mathlib.Tactic

namespace OrderedMap

open Std

variable {α β : Type} {cmp : α → α → Ordering} [TransCmp cmp] [LawfulEqCmp cmp]

/-! ## Lookups -/

theorem lookup_insert (m : ExtTreeMap α β cmp) (k a : α) (v : β) [DecidableEq α] :
    (m.insert k v)[a]? = if k = a then some v else m[a]? := by
  rw [ExtTreeMap.getElem?_insert]
  simp only [LawfulEqCmp.compare_eq_iff_eq]

theorem lookup_insert_self (m : ExtTreeMap α β cmp) (k : α) (v : β) :
    (m.insert k v)[k]? = some v := by
  rw [ExtTreeMap.getElem?_insert, if_pos ReflCmp.compare_self]

theorem lookup_insert_of_ne (m : ExtTreeMap α β cmp) {k a : α} (v : β) (h : k ≠ a) :
    (m.insert k v)[a]? = m[a]? := by
  rw [ExtTreeMap.getElem?_insert, if_neg (by simpa using h)]

theorem lookup_erase (m : ExtTreeMap α β cmp) (k a : α) [DecidableEq α] :
    (m.erase k)[a]? = if k = a then none else m[a]? := by
  rw [ExtTreeMap.getElem?_erase]
  simp only [LawfulEqCmp.compare_eq_iff_eq]

/-- Writing back the value that is there changes nothing. -/
theorem insert_of_lookup (m : ExtTreeMap α β cmp) {k : α} {v : β} (h : m[k]? = some v) :
    m.insert k v = m := by
  classical
  refine ExtTreeMap.ext_getElem? fun a => ?_
  rw [lookup_insert]
  split
  · rename_i hk
    rw [← hk, h]
  · rfl

/-- The last write to a key wins. -/
theorem insert_insert (m : ExtTreeMap α β cmp) (k : α) (v w : β) :
    (m.insert k v).insert k w = m.insert k w := by
  classical
  refine ExtTreeMap.ext_getElem? fun a => ?_
  rw [lookup_insert, lookup_insert, lookup_insert]
  split <;> rfl

/-! ## Entries -/

/-- Every entry of a map satisfies `P`. -/
def All (P : α → β → Prop) (m : ExtTreeMap α β cmp) : Prop := ∀ k v, m[k]? = some v → P k v

theorem All.empty (P : α → β → Prop) : All P (∅ : ExtTreeMap α β cmp) := by
  intro k v h
  simp at h

/-- Writing an entry that satisfies `P`. -/
theorem All.insert {P : α → β → Prop} {m : ExtTreeMap α β cmp} (h : All P m) {k : α} {v : β}
    (hv : P k v) : All P (m.insert k v) := by
  classical
  intro a w ha
  rw [lookup_insert] at ha
  split at ha
  · rename_i hk
    rw [Option.some.injEq] at ha
    exact hk ▸ ha ▸ hv
  · exact h a w ha

theorem All.insert_iff {P : α → β → Prop} {m : ExtTreeMap α β cmp} (h : All P m) {k : α} {v : β} :
    All P (m.insert k v) ↔ P k v :=
  ⟨fun h' => h' k v (lookup_insert_self m k v), h.insert⟩

/-- Two maps that differ under one key at most. -/
def DifferOnce (m m' : ExtTreeMap α β cmp) : Prop := ∃ k : α, ∀ a : α, k ≠ a → m'[a]? = m[a]?

theorem DifferOnce.refl (m : ExtTreeMap α β cmp) [Inhabited α] : DifferOnce m m :=
  ⟨default, fun _ _ => rfl⟩

theorem DifferOnce.insert (m : ExtTreeMap α β cmp) (k : α) (v : β) : DifferOnce m (m.insert k v) :=
  ⟨k, fun _ ha => lookup_insert_of_ne m v ha⟩

/-! ## Totals -/

/-- The entries of a map carry no duplicates. -/
theorem nodup_toList (m : ExtTreeMap α β cmp) : m.toList.Nodup := by
  refine m.distinct_keys_toList.imp ?_
  rintro a b hne rfl
  exact hne ReflCmp.compare_self

/-- The sum of `f key value` over the entries. -/
def total (f : α → β → ℕ) (m : ExtTreeMap α β cmp) : ℕ :=
  (m.toList.map fun e => f e.1 e.2).sum

/-- What the entry at `k` contributes to a total; nothing if there is none. -/
def share (f : α → β → ℕ) (m : ExtTreeMap α β cmp) (k : α) : ℕ :=
  (m[k]?).elim 0 (f k)

omit [LawfulEqCmp cmp] in
theorem share_of_lookup {f : α → β → ℕ} {m : ExtTreeMap α β cmp} {k : α} {v : β}
    (h : m[k]? = some v) : share f m k = f k v := by
  rw [share, h, Option.elim_some]

omit [LawfulEqCmp cmp] in
theorem share_of_none {f : α → β → ℕ} {m : ExtTreeMap α β cmp} {k : α}
    (h : m[k]? = none) : share f m k = 0 := by
  rw [share, h, Option.elim_none]

omit [LawfulEqCmp cmp] in
@[simp] theorem total_empty (f : α → β → ℕ) : total f (∅ : ExtTreeMap α β cmp) = 0 := by
  have h : (∅ : ExtTreeMap α β cmp).toList = [] := ExtTreeMap.toList_eq_nil_iff.mpr rfl
  rw [total, h, List.map_nil, List.sum_nil]

/-- Taking an entry out of a map splits its list of entries. -/
theorem toList_perm_cons_erase (m : ExtTreeMap α β cmp) {k : α} {v : β}
    (h : m[k]? = some v) : m.toList.Perm ((k, v) :: (m.erase k).toList) := by
  classical
  refine (List.perm_ext_iff_of_nodup (nodup_toList m) ?_).mpr ?_
  · refine List.nodup_cons.mpr ⟨?_, nodup_toList _⟩
    rw [ExtTreeMap.mem_toList_iff_getElem?_eq_some, lookup_erase, if_pos rfl]
    simp
  · rintro ⟨a, b⟩
    rw [List.mem_cons, ExtTreeMap.mem_toList_iff_getElem?_eq_some,
      ExtTreeMap.mem_toList_iff_getElem?_eq_some, lookup_erase]
    by_cases ha : k = a
    · subst ha
      simp [h, eq_comm]
    · simp [ha, Ne.symm ha]

/-- Erasing an entry takes its contribution out of the total. -/
theorem total_erase (f : α → β → ℕ) (m : ExtTreeMap α β cmp) (k : α) :
    total f (m.erase k) + share f m k = total f m := by
  classical
  cases h : m[k]? with
  | none =>
    have hm : m.erase k = m := by
      refine ExtTreeMap.ext_getElem? fun a => ?_
      rw [lookup_erase]
      split
      · rename_i hk
        rw [← hk, h]
      · rfl
    rw [hm, share_of_none h, Nat.add_zero]
  | some v =>
    have hp := ((toList_perm_cons_erase m h).map fun e => f e.1 e.2).sum_eq
    rw [List.map_cons, List.sum_cons] at hp
    rw [share_of_lookup h, total, total, hp, Nat.add_comm]

/-- Writing an entry exchanges its old contribution for the new one. -/
theorem total_insert (f : α → β → ℕ) (m : ExtTreeMap α β cmp) (k : α) (v : β) :
    total f (m.insert k v) + share f m k = total f m + f k v := by
  classical
  have he : (m.insert k v).erase k = m.erase k := by
    refine ExtTreeMap.ext_getElem? fun a => ?_
    rw [lookup_erase, lookup_erase, lookup_insert]
    split <;> rfl
  have h₁ := total_erase f (m.insert k v) k
  have h₂ := total_erase f m k
  rw [he, share_of_lookup (lookup_insert_self m k v)] at h₁
  omega

/-- A single entry contributes at most the total. -/
theorem share_le_total (f : α → β → ℕ) (m : ExtTreeMap α β cmp) (k : α) :
    share f m k ≤ total f m := by
  have h := total_erase f m k
  omega

/-- Two different entries together contribute at most the total. -/
theorem share_add_share_le_total (f : α → β → ℕ) (m : ExtTreeMap α β cmp) {k k' : α}
    (h : k ≠ k') : share f m k + share f m k' ≤ total f m := by
  classical
  have h₁ := total_erase f m k
  have h₂ := share_le_total f (m.erase k) k'
  have h₃ : share f (m.erase k) k' = share f m k' := by
    rw [share, share, lookup_erase, if_neg h]
  omega

/-- Totals of functions that agree on the entries agree. -/
theorem total_congr {f g : α → β → ℕ} {m : ExtTreeMap α β cmp}
    (h : ∀ k v, m[k]? = some v → f k v = g k v) : total f m = total g m := by
  unfold total
  congr 1
  refine List.map_congr_left fun e he => ?_
  exact h e.1 e.2 (ExtTreeMap.mem_toList_iff_getElem?_eq_some.mp he)

end OrderedMap
