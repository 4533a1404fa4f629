/-
# Hash trees over a list

The texts of a level are hashed and neighbours are glued to the texts of the next level, an odd
last one with itself, until one text is left.  Padding a list that way, block by block, gives the
leaves of a full binary tree.  Where the hash does not collide on the texts it is applied to, two
lists end in the same text exactly when one, padded, is a level of the other, padded.
-/
import Mathlib.Tactic

namespace PairTree

variable {α β γ τ δ : Type}

/-! ## Neighbours -/

/-- Combine neighbours; an odd last element is combined with itself. -/
def pairUp (g : α → α → β) : List α → List β
  | [] => []
  | [x] => [g x x]
  | x :: y :: rest => g x y :: pairUp g rest

theorem length_pairUp (g : α → α → β) (l : List α) :
    (pairUp g l).length = (l.length + 1) / 2 := by
  induction l using pairUp.induct with
  | case1 => simp [pairUp]
  | case2 x => simp [pairUp]
  | case3 x y rest ih =>
    rw [pairUp, List.length_cons, ih, List.length_cons, List.length_cons]
    omega

theorem pairUp_ne_nil (g : α → α → β) {l : List α} (h : l ≠ []) : pairUp g l ≠ [] := by
  match l, h with
  | [_], _ => exact List.cons_ne_nil _ _
  | _ :: _ :: _, _ => exact List.cons_ne_nil _ _

/-- What combining keeps of related elements. -/
theorem forall₂_pairUp {α' β' : Type} {g : α → α → β} {g' : α' → α' → β'} {R : α → α' → Prop}
    {S : β → β' → Prop}
    (hg : ∀ x x' y y', R x x' → R y y' → S (g x y) (g' x' y')) {l : List α} :
    ∀ {l' : List α'}, List.Forall₂ R l l' → List.Forall₂ S (pairUp g l) (pairUp g' l') := by
  induction l using pairUp.induct with
  | case1 =>
    rintro _ ⟨⟩
    exact .nil
  | case2 x =>
    rintro _ (_ | ⟨hx, ⟨⟩⟩)
    exact .cons (hg _ _ _ _ hx hx) .nil
  | case3 x y rest ih =>
    rintro _ (_ | ⟨hx, _ | ⟨hy, hrest⟩⟩)
    exact .cons (hg _ _ _ _ hx hy) (ih hrest)

/-! ## Levels -/

/-- The number of levels above a list of this length. -/
def depth (n : ℕ) : ℕ := if n ≤ 1 then 0 else Nat.log2 (n - 1) + 1

theorem depth_of_le {n : ℕ} (h : n ≤ 1) : depth n = 0 := if_pos h

/-- A level takes one off the depth. -/
theorem depth_half {n : ℕ} (h : 2 ≤ n) : depth n = depth ((n + 1) / 2) + 1 := by
  unfold depth
  rw [if_neg (by omega)]
  by_cases h3 : 3 ≤ n
  · rw [if_neg (by omega), Nat.log2_def, if_pos (by omega)]
    have hsame : (n - 1) / 2 = (n + 1) / 2 - 1 := by omega
    rw [hsame]
  · have htwo : n = 2 := by omega
    subst htwo
    rw [if_pos (by omega)]
    decide

section Levels

variable (hash : τ → δ) (glue : δ → δ → τ)

/-- The texts of the next level. -/
def next (l : List τ) : List τ := pairUp glue (l.map hash)

theorem length_next (l : List τ) : (next hash glue l).length = (l.length + 1) / 2 := by
  rw [next, length_pairUp, List.length_map]

theorem next_ne_nil {l : List τ} (h : l ≠ []) : next hash glue l ≠ [] :=
  pairUp_ne_nil glue (by simpa using h)

theorem iterate_next_ne_nil {l : List τ} (h : l ≠ []) (k : ℕ) : (next hash glue)^[k] l ≠ [] := by
  induction k with
  | zero => exact h
  | succ k ih =>
    rw [Function.iterate_succ_apply']
    exact next_ne_nil hash glue ih

/-- Levels further up are less deep. -/
theorem depth_iterate_next (l : List τ) (k : ℕ) :
    depth ((next hash glue)^[k] l).length = depth l.length - k := by
  induction k with
  | zero => rfl
  | succ k ih =>
    rw [Function.iterate_succ_apply', length_next]
    by_cases h : 2 ≤ ((next hash glue)^[k] l).length
    · have hstep := depth_half h
      omega
    · rw [depth_of_le (by omega)]
      rw [depth_of_le (by omega)] at ih
      omega

/-- One text is left. -/
theorem exists_top {l : List τ} (h : l ≠ []) :
    ∃ t, (next hash glue)^[depth l.length] l = [t] := by
  have hdepth := depth_iterate_next hash glue l (depth l.length)
  rw [Nat.sub_self] at hdepth
  have hne := iterate_next_ne_nil hash glue h (depth l.length)
  match hl : (next hash glue)^[depth l.length] l with
  | [] => exact absurd hl hne
  | [t] => exact ⟨t, rfl⟩
  | x :: y :: rest =>
    rw [hl, depth_half (by simp)] at hdepth
    omega

/-- All texts that are hashed. -/
def levels (l : List τ) : List τ :=
  (List.range (depth l.length + 1)).flatMap fun k => (next hash glue)^[k] l

theorem mem_levels {l : List τ} {x : τ} :
    x ∈ levels hash glue l ↔ ∃ k ≤ depth l.length, x ∈ (next hash glue)^[k] l := by
  simp only [levels, List.mem_flatMap, List.mem_range, Nat.lt_succ_iff]

/-- The texts of the levels above a level. -/
theorem levels_iterate_next {l : List τ} {k : ℕ} (hk : k ≤ depth l.length) :
    levels hash glue ((next hash glue)^[k] l) ⊆ levels hash glue l := by
  intro x hx
  obtain ⟨j, hj, hx⟩ := (mem_levels hash glue).mp hx
  rw [depth_iterate_next] at hj
  rw [← Function.iterate_add_apply] at hx
  exact (mem_levels hash glue).mpr ⟨j + k, by omega, hx⟩

/-! ## Padding -/

/-- The list as one block, each odd last block repeated. -/
def padded (l : List α) : List α :=
  ((pairUp (· ++ ·))^[depth l.length] (l.map fun x => [x])).flatten

/-- A block of leaves and the text their tree ends in; what is hashed on the way is in `A`. -/
inductive Carries (A : Set τ) : ℕ → List τ → τ → Prop
  | leaf {t : τ} : Carries A 0 [t] t
  | node {k : ℕ} {b b' : List τ} {x y : τ} (hx : x ∈ A) (hy : y ∈ A) (h : Carries A k b x)
      (h' : Carries A k b' y) : Carries A (k + 1) (b ++ b') (glue (hash x) (hash y))

variable {hash glue} {A : Set τ} {k : ℕ} {b b' : List τ} {x x' t t' : τ} {l l' : List τ}

theorem Carries.length (h : Carries hash glue A k b x) : b.length = 2 ^ k := by
  induction h with
  | leaf => rfl
  | node _ _ _ _ ih ih' =>
    rw [List.length_append, ih, ih', pow_succ]
    omega

/-- A block ends in one text. -/
theorem Carries.text_unique (h : Carries hash glue A k b x) :
    ∀ {x'}, Carries hash glue A k b x' → x = x' := by
  induction h with
  | leaf =>
    rintro x' ⟨⟩
    rfl
  | @node k b₁ b₂ x y _ _ h₁ h₂ ih₁ ih₂ =>
    intro x' h'
    generalize hb : b₁ ++ b₂ = b at h'
    cases h' with
    | @node _ b₃ b₄ x₃ x₄ _ _ h₃ h₄ =>
      obtain ⟨rfl, rfl⟩ := List.append_inj hb (h₁.length.trans h₃.length.symm)
      rw [ih₁ h₃, ih₂ h₄]

/-- Where the hash does not collide, a text comes from one block. -/
theorem Carries.block_unique (hfree : Set.InjOn hash A)
    (hglue : ∀ x y x' y', glue (hash x) (hash y) = glue (hash x') (hash y') →
      hash x = hash x' ∧ hash y = hash y') (h : Carries hash glue A k b x) :
    ∀ {b'}, Carries hash glue A k b' x → b = b' := by
  induction h with
  | leaf =>
    rintro b' ⟨⟩
    rfl
  | @node k b₁ b₂ x y hx hy h₁ h₂ ih₁ ih₂ =>
    intro b' h'
    generalize ht : glue (hash x) (hash y) = t at h'
    cases h' with
    | @node _ b₃ b₄ x₃ x₄ hx₃ hx₄ h₃ h₄ =>
      obtain ⟨hleft, hright⟩ := hglue _ _ _ _ ht
      obtain rfl := hfree hx hx₃ hleft
      obtain rfl := hfree hy hx₄ hright
      rw [ih₁ h₃, ih₂ h₄]

/-- The blocks of a level and its texts. -/
theorem carries_blocks (hA : ∀ j < k, ∀ x ∈ (next hash glue)^[j] l, x ∈ A) :
    List.Forall₂ (Carries hash glue A k) ((pairUp (· ++ ·))^[k] (l.map fun x => [x]))
      ((next hash glue)^[k] l) := by
  induction k with
  | zero =>
    change List.Forall₂ _ (l.map fun x => [x]) l
    rw [List.forall₂_map_left_iff, List.forall₂_same]
    exact fun x _ => .leaf
  | succ k ih =>
    rw [Function.iterate_succ_apply', Function.iterate_succ_apply', next]
    have hblocks := ih fun j hj => hA j (hj.trans (Nat.lt_succ_self k))
    have hmem : List.Forall₂ (fun b y => ∃ x ∈ A, y = hash x ∧ Carries hash glue A k b x)
        ((pairUp (· ++ ·))^[k] (l.map fun x => [x])) (((next hash glue)^[k] l).map hash) := by
      have hboth := ((List.forall₂_and_left _ _).mpr ⟨hA k (Nat.lt_succ_self k), hblocks.flip⟩).flip
      refine List.forall₂_map_right_iff.mpr (hboth.imp ?_)
      rintro b x ⟨hx, h⟩
      exact ⟨x, hx, rfl, h⟩
    refine forall₂_pairUp ?_ hmem
    rintro b y b' y' ⟨x, hx, rfl, h⟩ ⟨x', hx', rfl, h'⟩
    exact .node hx hx' h h'

/-- The padded list and the text the list ends in. -/
theorem carries_padded (ht : (next hash glue)^[depth l.length] l = [t])
    (hA : ∀ x ∈ levels hash glue l, x ∈ A) :
    Carries hash glue A (depth l.length) (padded l) t := by
  have hblocks := carries_blocks (A := A) (k := depth l.length) (l := l) fun j hj x hx =>
    hA x ((mem_levels hash glue).mpr ⟨j, hj.le, hx⟩)
  rw [ht] at hblocks
  rcases hl : (pairUp (· ++ ·))^[depth l.length] (l.map fun x => [x]) with _ | ⟨b, _ | ⟨b', rest⟩⟩
  · rw [hl] at hblocks
    cases hblocks
  · rw [hl] at hblocks
    obtain ⟨hb, -⟩ := List.forall₂_cons.mp hblocks
    rw [padded, hl, List.flatten_singleton]
    exact hb
  · rw [hl] at hblocks
    obtain ⟨-, hrest⟩ := List.forall₂_cons.mp hblocks
    cases hrest

theorem length_padded (ht : (next hash glue)^[depth l.length] l = [t]) :
    (padded l).length = 2 ^ depth l.length :=
  (carries_padded (A := Set.univ) ht fun _ _ => trivial).length

variable (hash glue) in
/-- The first list, padded, is a level of the second one, padded. -/
def Below (l l' : List τ) : Prop :=
  ∃ k ≤ depth l'.length, padded l = padded ((next hash glue)^[k] l')

/-- A list that is a level of another one ends in the same text. -/
theorem top_eq_of_below (ht : (next hash glue)^[depth l.length] l = [t])
    (ht' : (next hash glue)^[depth l'.length] l' = [t']) (h : Below hash glue l l') : t = t' := by
  obtain ⟨k, hk, hpad⟩ := h
  have hdepth := depth_iterate_next hash glue l' k
  have htop : (next hash glue)^[depth ((next hash glue)^[k] l').length]
      ((next hash glue)^[k] l') = [t'] := by
    rw [← Function.iterate_add_apply, hdepth, Nat.sub_add_cancel hk, ht']
  have hlen := length_padded ht
  rw [hpad, length_padded htop] at hlen
  have hsame := Nat.pow_right_injective le_rfl hlen
  have hfirst := carries_padded (A := Set.univ) ht fun _ _ => trivial
  have hsecond := carries_padded (A := Set.univ) htop fun _ _ => trivial
  rw [hpad, ← hsame] at hfirst
  exact hfirst.text_unique hsecond

/-- Of two lists that end in the same text, the one that is no deeper is a level of the other. -/
theorem below_of_top_eq (hA : ∀ x, x ∈ levels hash glue l ∨ x ∈ levels hash glue l' → x ∈ A)
    (hfree : Set.InjOn hash A)
    (hglue : ∀ x y x' y', glue (hash x) (hash y) = glue (hash x') (hash y') →
      hash x = hash x' ∧ hash y = hash y')
    (ht : (next hash glue)^[depth l.length] l = [t])
    (ht' : (next hash glue)^[depth l'.length] l' = [t]) (hle : depth l.length ≤ depth l'.length) :
    Below hash glue l l' := by
  have hk : depth l'.length - depth l.length ≤ depth l'.length := Nat.sub_le _ _
  refine ⟨depth l'.length - depth l.length, hk, ?_⟩
  have hdepth := depth_iterate_next hash glue l' (depth l'.length - depth l.length)
  rw [Nat.sub_sub_self hle] at hdepth
  have htop : (next hash glue)^[depth ((next hash glue)^[depth l'.length - depth l.length] l').length]
      ((next hash glue)^[depth l'.length - depth l.length] l') = [t] := by
    rw [← Function.iterate_add_apply, hdepth, Nat.add_sub_cancel' hle, ht']
  have hfirst := carries_padded ht fun x hx => hA x (Or.inl hx)
  have hsecond := carries_padded htop fun x hx =>
    hA x (Or.inr (levels_iterate_next hash glue hk hx))
  rw [hdepth] at hsecond
  exact hfirst.block_unique hfree hglue hsecond

/-- Two lists end in the same text exactly when one is a level of the other. -/
theorem top_eq_iff (hA : ∀ x, x ∈ levels hash glue l ∨ x ∈ levels hash glue l' → x ∈ A)
    (hfree : Set.InjOn hash A)
    (hglue : ∀ x y x' y', glue (hash x) (hash y) = glue (hash x') (hash y') →
      hash x = hash x' ∧ hash y = hash y')
    (ht : (next hash glue)^[depth l.length] l = [t])
    (ht' : (next hash glue)^[depth l'.length] l' = [t']) :
    t = t' ↔ Below hash glue l l' ∨ Below hash glue l' l := by
  constructor
  · rintro rfl
    rcases le_total (depth l.length) (depth l'.length) with hle | hle
    · exact Or.inl (below_of_top_eq hA hfree hglue ht ht' hle)
    · exact Or.inr (below_of_top_eq (fun x hx => hA x hx.symm) hfree hglue ht' ht hle)
  · rintro (h | h)
    · exact top_eq_of_below ht ht' h
    · exact (top_eq_of_below ht' ht h).symm

end Levels

/-! ## Lists of one length -/

/-- Joining blocks extends the list. -/
theorem prefix_flatten_pairUp (l : List (List α)) : l.flatten <+: (pairUp (· ++ ·) l).flatten := by
  induction l using pairUp.induct with
  | case1 => exact List.prefix_rfl
  | case2 x =>
    rw [pairUp, List.flatten_singleton, List.flatten_singleton]
    exact List.prefix_append _ _
  | case3 x y rest ih =>
    rw [pairUp, List.flatten_cons, List.flatten_cons, List.flatten_cons, List.append_assoc,
      List.prefix_append_right_inj, List.prefix_append_right_inj]
    exact ih

/-- A list begins its padding. -/
theorem prefix_padded (l : List α) : l <+: padded l := by
  have hblocks : ∀ k, l <+: ((pairUp (· ++ ·))^[k] (l.map fun x => [x])).flatten := by
    intro k
    induction k with
    | zero =>
      have hsame : (l.map fun x => [x]).flatten = l := by
        induction l with
        | nil => rfl
        | cons x rest ih => rw [List.map_cons, List.flatten_cons, ih, List.singleton_append]
      change l <+: (l.map fun x => [x]).flatten
      rw [hsame]
    | succ k ih =>
      rw [Function.iterate_succ_apply']
      exact ih.trans (prefix_flatten_pairUp _)
  exact hblocks _

/-- Padding adds no elements. -/
theorem mem_of_mem_padded {l : List α} {x : α} (h : x ∈ padded l) : x ∈ l := by
  have hpair : ∀ blocks : List (List α), ∀ x ∈ (pairUp (· ++ ·) blocks).flatten,
      x ∈ blocks.flatten := by
    intro blocks
    induction blocks using pairUp.induct with
    | case1 => exact fun x hx => hx
    | case2 b =>
      intro x hx
      rw [pairUp, List.flatten_singleton, List.mem_append, or_self] at hx
      rw [List.flatten_singleton]
      exact hx
    | case3 b b' rest ih =>
      intro x hx
      rw [pairUp, List.flatten_cons, List.mem_append, List.mem_append] at hx
      rw [List.flatten_cons, List.flatten_cons, List.mem_append, List.mem_append, ← or_assoc]
      exact hx.imp_right (ih x)
  have hblocks : ∀ k, ∀ x ∈ ((pairUp (· ++ ·))^[k] (l.map fun x => [x])).flatten, x ∈ l := by
    intro k
    induction k with
    | zero =>
      intro x hx
      obtain ⟨b, hb, hx⟩ := List.mem_flatten.mp hx
      obtain ⟨y, hy, rfl⟩ := List.mem_map.mp hb
      rw [List.mem_singleton.mp hx]
      exact hy
    | succ k ih =>
      intro x hx
      rw [Function.iterate_succ_apply'] at hx
      exact ih x (hpair _ x hx)
  exact hblocks _ x h

/-- The padding determines a list of known length. -/
theorem padded_inj {l l' : List α} (hlen : l.length = l'.length) (h : padded l = padded l') :
    l = l' := by
  have hprefix := prefix_padded l
  have hprefix' := prefix_padded l'
  rw [← h] at hprefix'
  exact (List.prefix_of_prefix_length_le hprefix hprefix' hlen.le).eq_of_length hlen

end PairTree
