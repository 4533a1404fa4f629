/-
# Draws in rounds

A draw names a candidate, or nobody, for every round.  Searching the rounds for one candidate and
listing all candidates at the rounds that name them first are two readings of the same draw: the
listing has a candidate exactly when the search finds it, at the round that the search finds.

A single draw by weight walks a list of candidates until a ticket falls inside a weight, so each
candidate holds the tickets of one interval.
-/
import Mathlib.Tactic

namespace Rotation

variable {ρ α : Type}

section Draws

variable [DecidableEq α] {draw : ρ → Option α} {a : α} {r : ρ} {rounds : List ρ}
  {listed : List (ρ × α)}

/-! ## Searching -/

/-- The first of the rounds that draws `a`. -/
def first (draw : ρ → Option α) (a : α) (rounds : List ρ) : Option ρ :=
  rounds.find? fun r => draw r = some a

@[simp] theorem first_nil : first draw a [] = none := rfl

theorem first_cons (r : ρ) (rest : List ρ) :
    first draw a (r :: rest) = if draw r = some a then some r else first draw a rest := by
  rw [first, List.find?_cons]
  by_cases h : draw r = some a
  · rw [if_pos h, decide_eq_true h]
  · rw [if_neg h, decide_eq_false h]
    rfl

theorem first_eq_none : first draw a rounds = none ↔ ∀ r ∈ rounds, draw r ≠ some a := by
  simp [first]

/-- In increasing rounds the first one is the smallest. -/
theorem first_eq_some [LT ρ] [Std.Asymm (fun q r : ρ => q < r)] (hsorted : rounds.Pairwise (· < ·)) :
    first draw a rounds = some r ↔
      r ∈ rounds ∧ draw r = some a ∧ ∀ q ∈ rounds, q < r → draw q ≠ some a := by
  induction rounds with
  | nil => simp
  | cons q rest ih =>
    obtain ⟨hlater, hrest⟩ := List.pairwise_cons.mp hsorted
    rw [first_cons]
    by_cases hq : draw q = some a
    · rw [if_pos hq, Option.some.injEq]
      constructor
      · rintro rfl
        refine ⟨List.mem_cons_self, hq, fun p hp hlt => ?_⟩
        rcases List.mem_cons.mp hp with rfl | hp
        · exact absurd hlt (Std.Asymm.asymm _ _ hlt)
        · exact absurd hlt (Std.Asymm.asymm _ _ (hlater p hp))
      · rintro ⟨hmem, -, hleast⟩
        rcases List.mem_cons.mp hmem with rfl | hmem
        · rfl
        · exact absurd hq (hleast q List.mem_cons_self (hlater r hmem))
    · rw [if_neg hq, ih hrest]
      constructor
      · rintro ⟨hmem, hdraw, hleast⟩
        refine ⟨List.mem_cons_of_mem _ hmem, hdraw, fun p hp hlt => ?_⟩
        rcases List.mem_cons.mp hp with rfl | hp
        · exact hq
        · exact hleast p hp hlt
      · rintro ⟨hmem, hdraw, hleast⟩
        rcases List.mem_cons.mp hmem with rfl | hmem
        · exact absurd hdraw hq
        · exact ⟨hmem, hdraw, fun p hp => hleast p (List.mem_cons_of_mem _ hp)⟩

/-! ## Listing -/

/-- The candidates that the rounds draw, after those already listed, each once and at the first
round that draws it. -/
def listing (draw : ρ → Option α) : List (ρ × α) → List ρ → List (ρ × α)
  | listed, [] => listed
  | listed, r :: rest =>
    match draw r with
    | some a =>
      listing draw (if listed.any fun l => l.2 = a then listed else listed ++ [(r, a)]) rest
    | none => listing draw listed rest

theorem any_listed : (listed.any fun l => l.2 = a) = true ↔ a ∈ listed.map Prod.snd := by
  rw [List.any_eq_true, List.mem_map]
  exact exists_congr fun l => and_congr_right fun _ => decide_eq_true_iff

/-- A candidate is listed at a round when it was so before, or was not listed and is drawn there
first. -/
theorem mem_listing : (r, a) ∈ listing draw listed rounds ↔
    (r, a) ∈ listed ∨ a ∉ listed.map Prod.snd ∧ first draw a rounds = some r := by
  induction rounds generalizing listed with
  | nil => simp [listing]
  | cons q rest ih =>
    rw [listing, first_cons]
    cases hdraw : draw q with
    | none =>
      dsimp only
      rw [ih, if_neg (by exact nofun)]
    | some b =>
      dsimp only
      by_cases hin : b ∈ listed.map Prod.snd
      · rw [if_pos (any_listed.mpr hin), ih]
        by_cases hba : b = a
        · -- the candidate is there already
          subst hba
          simp [hin]
        · rw [if_neg (by simpa using hba)]
      · rw [if_neg (mt any_listed.mp hin), ih, List.mem_append, List.mem_singleton, Prod.mk.injEq,
          List.map_append, List.mem_append]
        by_cases hba : b = a
        · subst hba
          simp [hin, eq_comm]
        · have hab : ¬ a = b := fun h => hba h.symm
          rw [if_neg (by simpa using hba)]
          simp [hab]

/-- No candidate is listed twice. -/
theorem nodup_listing (h : (listed.map Prod.snd).Nodup) :
    ((listing draw listed rounds).map Prod.snd).Nodup := by
  induction rounds generalizing listed with
  | nil => exact h
  | cons q rest ih =>
    rw [listing]
    cases draw q with
    | none => exact ih h
    | some b =>
      apply ih
      split
      · exact h
      · rename_i hin
        rw [List.map_append, List.nodup_append]
        refine ⟨h, List.nodup_singleton b, ?_⟩
        intro x hx y hy hxy
        have hy' : y = b := List.mem_singleton.mp hy
        exact hin (any_listed.mpr (hy' ▸ hxy ▸ hx))

/-- The listing of increasing rounds increases. -/
theorem sorted_listing [LT ρ] (hsorted : rounds.Pairwise (· < ·))
    (hlisted : (listed.map Prod.fst).Pairwise (· < ·))
    (hbelow : ∀ l ∈ listed, ∀ r ∈ rounds, l.1 < r) :
    ((listing draw listed rounds).map Prod.fst).Pairwise (· < ·) := by
  induction rounds generalizing listed with
  | nil => exact hlisted
  | cons q rest ih =>
    obtain ⟨hlater, hrest⟩ := List.pairwise_cons.mp hsorted
    have hkeep : ∀ l ∈ listed, ∀ r ∈ rest, l.1 < r :=
      fun l hl r hr => hbelow l hl r (List.mem_cons_of_mem _ hr)
    rw [listing]
    cases draw q with
    | none => exact ih hrest hlisted hkeep
    | some b =>
      dsimp only
      split
      · exact ih hrest hlisted hkeep
      · refine ih hrest ?_ ?_
        · rw [List.map_append, List.pairwise_append]
          refine ⟨hlisted, List.pairwise_singleton _ _, ?_⟩
          intro p hp s hs
          obtain ⟨l, hl, rfl⟩ := List.mem_map.mp hp
          have hs' : s = q := List.mem_singleton.mp hs
          exact hs' ▸ hbelow l hl q List.mem_cons_self
        · intro l hl s hs
          rcases List.mem_append.mp hl with hl | hl
          · exact hkeep l hl s hs
          · rw [List.mem_singleton.mp hl]
            exact hlater s hs

end Draws

/-! ## Drawing by weight -/

/-- The candidate in whose weight a ticket falls. -/
def holder : ℕ → List (α × ℕ) → Option α
  | _, [] => none
  | ticket, (a, weight) :: rest =>
    if ticket < weight then some a else holder (ticket - weight) rest

/-- The weight of a list. -/
def weightOf (l : List (α × ℕ)) : ℕ := (l.map Prod.snd).sum

@[simp] theorem weightOf_nil : weightOf ([] : List (α × ℕ)) = 0 := rfl

@[simp] theorem weightOf_cons (a : α) (weight : ℕ) (l : List (α × ℕ)) :
    weightOf ((a, weight) :: l) = weight + weightOf l := by
  simp [weightOf]

theorem weightOf_append (l l' : List (α × ℕ)) : weightOf (l ++ l') = weightOf l + weightOf l' := by
  simp [weightOf]

/-- Every ticket below the weight of the list has a holder in it. -/
theorem holder_of_lt {l : List (α × ℕ)} :
    ∀ {ticket : ℕ}, ticket < weightOf l → ∃ a ∈ l.map Prod.fst, holder ticket l = some a := by
  induction l with
  | nil => exact fun h => absurd h (Nat.not_lt_zero _)
  | cons head rest ih =>
    obtain ⟨a, weight⟩ := head
    intro ticket h
    rw [holder]
    split
    · exact ⟨a, List.mem_cons_self, rfl⟩
    · rw [weightOf_cons] at h
      obtain ⟨b, hb, hholder⟩ := @ih (ticket - weight) (by omega)
      exact ⟨b, List.mem_cons_of_mem _ hb, hholder⟩

/-- A holder is a candidate with a weight. -/
theorem weighs_of_holder {l : List (α × ℕ)} {a : α} :
    ∀ {ticket : ℕ}, holder ticket l = some a → ∃ weight, (a, weight) ∈ l ∧ 0 < weight := by
  induction l with
  | nil => exact fun h => nomatch h
  | cons head rest ih =>
    obtain ⟨b, weight⟩ := head
    intro ticket h
    rw [holder] at h
    split at h
    · rename_i hlt
      rw [Option.some.injEq] at h
      exact ⟨weight, h ▸ List.mem_cons_self, Nat.zero_lt_of_lt hlt⟩
    · obtain ⟨w, hw, hpos⟩ := ih h
      exact ⟨w, List.mem_cons_of_mem _ hw, hpos⟩

theorem mem_of_holder {l : List (α × ℕ)} {a : α} {ticket : ℕ} (h : holder ticket l = some a) :
    a ∈ l.map Prod.fst := by
  obtain ⟨weight, hmem, -⟩ := weighs_of_holder h
  exact List.mem_map.mpr ⟨_, hmem, rfl⟩

/-- Among different candidates, one holds the tickets from the weight before it on, as many as its
own weight. -/
theorem holder_eq_iff {before after : List (α × ℕ)} {a : α} {weight : ℕ}
    (hnodup : ((before ++ (a, weight) :: after).map Prod.fst).Nodup) :
    ∀ {ticket : ℕ}, holder ticket (before ++ (a, weight) :: after) = some a ↔
      weightOf before ≤ ticket ∧ ticket < weightOf before + weight := by
  induction before with
  | nil =>
    intro ticket
    rw [List.nil_append, holder, weightOf_nil]
    split
    · rename_i hlt
      exact iff_of_true rfl ⟨Nat.zero_le _, by omega⟩
    · rename_i hge
      refine iff_of_false (fun h => ?_) (by omega)
      exact (List.nodup_cons.mp hnodup).1 (mem_of_holder h)
  | cons head rest ih =>
    obtain ⟨b, w⟩ := head
    intro ticket
    obtain ⟨hnew, hrest⟩ := List.nodup_cons.mp hnodup
    rw [List.cons_append, holder, weightOf_cons]
    split
    · rename_i hlt
      refine iff_of_false (fun h => ?_) (by omega)
      rw [Option.some.injEq] at h
      subst h
      exact hnew (by simp)
    · rename_i hge
      rw [ih hrest]
      omega

/-- Among different candidates, one holds as many of the tickets as its weight. -/
theorem ncard_holder {l : List (α × ℕ)} {a : α} {weight : ℕ} (hmem : (a, weight) ∈ l)
    (hnodup : (l.map Prod.fst).Nodup) :
    {ticket : ℕ | ticket < weightOf l ∧ holder ticket l = some a}.ncard = weight := by
  obtain ⟨before, after, rfl⟩ := List.append_of_mem hmem
  have hinterval : {ticket : ℕ | ticket < weightOf (before ++ (a, weight) :: after) ∧
      holder ticket (before ++ (a, weight) :: after) = some a} =
        ↑(Finset.Ico (weightOf before) (weightOf before + weight)) := by
    ext ticket
    rw [Set.mem_setOf_eq, holder_eq_iff hnodup, weightOf_append, weightOf_cons, Finset.mem_coe,
      Finset.mem_Ico]
    omega
  rw [hinterval, Set.ncard_coe_finset, Nat.card_Ico, Nat.add_sub_cancel_left]

/-- Of more totals than tickets, one is not the successor of a ticket. -/
theorem exists_total_avoiding (tickets : List ℕ) {bound : ℕ} (hbound : tickets.length ≤ bound) :
    ∃ total ≤ bound, bound ≤ total + tickets.length ∧ ∀ ticket ∈ tickets, ticket + 1 ≠ total := by
  have hcard : ((tickets.map (· + 1)).toFinset).card <
      (Finset.Icc (bound - tickets.length) bound).card := by
    calc ((tickets.map (· + 1)).toFinset).card ≤ (tickets.map (· + 1)).length :=
          List.toFinset_card_le _
      _ = tickets.length := List.length_map _
      _ < (Finset.Icc (bound - tickets.length) bound).card := by
          rw [Nat.card_Icc]
          omega
  obtain ⟨total, htotal, havoids⟩ := Finset.exists_mem_notMem_of_card_lt_card hcard
  rw [Finset.mem_Icc] at htotal
  refine ⟨total, htotal.2, by omega, fun ticket hticket hsucc => havoids ?_⟩
  rw [List.mem_toFinset, List.mem_map]
  exact ⟨ticket, hticket, hsucc⟩

end Rotation
