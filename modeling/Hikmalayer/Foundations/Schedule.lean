/-
# Linear schedules with a cliff

An amount that vests linearly between two heights, in whole units, with nothing before a cliff.
What has vested never goes back and ends at the total, so paying the differences at any
increasing heights, and forgetting what has been paid in full, pays what has vested.
-/
import Mathlib.Tactic

namespace Schedule

variable {total start cliff stop height height' : ℕ}

/-- What has vested at a height. -/
def vested (total start cliff stop height : ℕ) : ℕ :=
  if height < cliff then 0
  else if stop ≤ height then total
  else total * (height - start) / (stop - start)

theorem vested_before (h : height < cliff) : vested total start cliff stop height = 0 := if_pos h

theorem vested_after (hcliff : cliff ≤ stop) (h : stop ≤ height) :
    vested total start cliff stop height = total := by
  rw [vested, if_neg (by omega), if_pos h]

/-- Before the end less than everything has vested. -/
theorem vested_lt (hpos : 0 < total) (hstop : start < stop) (h : height < stop) :
    vested total start cliff stop height < total := by
  unfold vested
  split
  · exact hpos
  · rw [if_neg (by omega), Nat.div_lt_iff_lt_mul (by omega)]
    exact Nat.mul_lt_mul_of_pos_left (by omega) hpos

theorem vested_le (hstop : start < stop) : vested total start cliff stop height ≤ total := by
  unfold vested
  split
  · exact Nat.zero_le total
  · split
    · exact le_rfl
    · refine Nat.div_le_of_le_mul ?_
      rw [Nat.mul_comm]
      exact Nat.mul_le_mul_right total (by omega)

theorem vested_mono (hstop : start < stop) (h : height ≤ height') :
    vested total start cliff stop height ≤ vested total start cliff stop height' := by
  by_cases hcliff : height < cliff
  · rw [vested_before hcliff]
    exact Nat.zero_le _
  · by_cases hdone : stop ≤ height'
    · have hall : vested total start cliff stop height' = total := by
        rw [vested, if_neg (by omega), if_pos hdone]
      rw [hall]
      exact vested_le hstop
    · rw [vested, vested, if_neg hcliff, if_neg (by omega), if_neg (by omega), if_neg hdone]
      exact Nat.div_le_div_right (Nat.mul_le_mul_left total (by omega))

/-- What is gained on the items that were not complete is all that is gained. -/
theorem sum_gain {α : Type*} (full before after : α → ℕ) : ∀ l : List α,
    (∀ x ∈ l, before x ≤ after x ∧ after x ≤ full x) →
      ((l.filter fun x => before x < full x).map fun x => after x - before x).sum +
        (l.map before).sum = (l.map after).sum
  | [], _ => rfl
  | x :: rest, h => by
    obtain ⟨hgain, hfull⟩ := h x List.mem_cons_self
    have ih := sum_gain full before after rest fun y hy => h y (List.mem_cons_of_mem x hy)
    rw [List.filter_cons]
    split
    · rw [List.map_cons, List.map_cons, List.map_cons, List.sum_cons, List.sum_cons, List.sum_cons]
      omega
    · rename_i hopen
      rw [decide_eq_true_eq] at hopen
      rw [List.map_cons, List.map_cons, List.sum_cons, List.sum_cons]
      omega

/-- What is open after has been open before. -/
theorem filter_filter_open {α : Type*} (full before after : α → ℕ) (l : List α)
    (h : ∀ x ∈ l, before x ≤ after x) :
    (l.filter fun x => before x < full x).filter (fun x => after x < full x) =
      l.filter fun x => after x < full x := by
  rw [List.filter_filter]
  refine List.filter_congr fun x hx => ?_
  have hle := h x hx
  by_cases hopen : after x < full x
  · rw [decide_eq_true hopen, decide_eq_true (by omega)]
    rfl
  · rw [decide_eq_false hopen]
    rfl

end Schedule
