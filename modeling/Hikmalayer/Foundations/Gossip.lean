/-
# Keeping the best of what is heard

Nodes hear each other's values in any order, and each keeps the better of its own and the one it
hears.  What a node has heard of, directly or through others, ranks no higher than what it ends with,
so nodes that have heard of everything agree on the rank.
-/
import Mathlib.Tactic

namespace Gossip

variable {ι α β : Type*}

/-! ## Who has heard of whom -/

/-- The first node has heard, directly or through others, of what the second one had. -/
def Informed : List (ι × ι) → ι → ι → Prop
  | [], i, j => i = j
  | (hearer, source) :: rest, i, j =>
    ∃ k, Informed rest i k ∧ (k = j ∨ k = hearer ∧ j = source)

/-- A node always counts as informed of its own value. -/
theorem informed_self (hearings : List (ι × ι)) (i : ι) : Informed hearings i i := by
  induction hearings with
  | nil => rfl
  | cons _ rest ih => exact ⟨i, ih, .inl rfl⟩

/-- A node that hears another one directly is informed. -/
theorem informed_of_mem {hearings : List (ι × ι)} {i j : ι} (h : (i, j) ∈ hearings) :
    Informed hearings i j := by
  induction hearings with
  | nil => cases h
  | cons hearing rest ih =>
    rcases List.mem_cons.mp h with h | h
    · subst h
      exact ⟨i, informed_self rest i, .inr ⟨rfl, rfl⟩⟩
    · exact ⟨j, ih h, .inl rfl⟩

/-! ## What the nodes end with -/

variable [DecidableEq ι] [LinearOrder β] (rank : α → β)

/-- The better of two values, the first one on a tie. -/
def better (a b : α) : α := if rank a < rank b then b else a

/-- One after the other, nodes hear what another one has at that time. -/
def gossip (nodes : ι → α) : List (ι × ι) → ι → α
  | [] => nodes
  | (i, j) :: rest => gossip (Function.update nodes i (better rank (nodes i) (nodes j))) rest

theorem rank_better (a b : α) : rank (better rank a b) = max (rank a) (rank b) := by
  unfold better
  split_ifs with h
  · exact (max_eq_right h.le).symm
  · exact (max_eq_left (not_lt.mp h)).symm

theorem better_eq_or (a b : α) : better rank a b = a ∨ better rank a b = b := by
  unfold better
  split_ifs
  · exact .inr rfl
  · exact .inl rfl

/-- A node ends at least as high as everything it is informed of. -/
theorem rank_le_gossip (hearings : List (ι × ι)) : ∀ (nodes : ι → α) {i j : ι},
    Informed hearings i j → rank (nodes j) ≤ rank (gossip rank nodes hearings i) := by
  induction hearings with
  | nil =>
    intro nodes i j h
    cases h
    exact le_rfl
  | cons hearing rest ih =>
    intro nodes i j h
    obtain ⟨hearer, source⟩ := hearing
    obtain ⟨k, hk, hj⟩ := h
    refine le_trans ?_ (ih (Function.update nodes hearer _) hk)
    by_cases hkh : k = hearer
    · subst hkh
      rw [Function.update_self, rank_better rank]
      rcases hj with rfl | ⟨-, rfl⟩
      · exact le_max_left _ _
      · exact le_max_right _ _
    · rw [Function.update_of_ne hkh]
      rcases hj with rfl | ⟨rfl, -⟩
      · exact le_rfl
      · exact absurd rfl hkh

/-- A node ends with what some node had. -/
theorem exists_gossip_eq (hearings : List (ι × ι)) : ∀ (nodes : ι → α) (i : ι),
    ∃ j, gossip rank nodes hearings i = nodes j := by
  induction hearings with
  | nil => exact fun _ i => ⟨i, rfl⟩
  | cons hearing rest ih =>
    intro nodes i
    obtain ⟨hearer, source⟩ := hearing
    obtain ⟨j, hj⟩ := ih (Function.update nodes hearer (better rank (nodes hearer) (nodes source))) i
    rw [gossip, hj]
    by_cases hjh : j = hearer
    · subst hjh
      rw [Function.update_self]
      rcases better_eq_or rank (nodes j) (nodes source) with h | h
      · exact ⟨j, h⟩
      · exact ⟨source, h⟩
    · exact ⟨j, Function.update_of_ne hjh _ _⟩

/-- When all are informed of what each had, every node ends with one of the best. -/
theorem gossip_best (nodes : ι → α) {hearings : List (ι × ι)}
    (hall : ∀ i j, Informed hearings i j) (i : ι) :
    ∃ j, gossip rank nodes hearings i = nodes j ∧ ∀ k, rank (nodes k) ≤ rank (nodes j) := by
  obtain ⟨j, hj⟩ := exists_gossip_eq rank hearings nodes i
  refine ⟨j, hj, fun k => ?_⟩
  rw [← hj]
  exact rank_le_gossip rank hearings nodes (hall i k)

end Gossip
