/-
# Tasks that share mutexes

Programs of scoped locks, the sequences of acquire and release steps they can perform, and the
interleavings of a family of tasks.  A program's `waits` are the points at which it acquires
a mutex, with what it holds there; they are computed from the text and exact.

Two rules exclude deadlocks: a rank that grows along every wait, or a single task that waits
while it holds something.  Two tasks that nest a pair of mutexes in opposite orders do
deadlock.
-/
import Mathlib.Tactic
import Mathlib.Logic.Relation

namespace Locks

variable {L : Type} [DecidableEq L]

/-! ## Operations -/

/-- A step on a mutex. -/
inductive Op (L : Type)
  | acquire (m : L)
  | release (m : L)

/-- The mutexes held after some steps. -/
def heldAfter (held : List L) : List (Op L) → List L
  | [] => held
  | .acquire m :: rest => heldAfter (m :: held) rest
  | .release m :: rest => heldAfter (held.erase m) rest

/-- The acquire steps, each with what is held before it. -/
def points (held : List L) : List (Op L) → List (List L × L)
  | [] => []
  | .acquire m :: rest => (held, m) :: points (m :: held) rest
  | .release m :: rest => points (held.erase m) rest

theorem heldAfter_append (ops ops' : List (Op L)) :
    ∀ held, heldAfter held (ops ++ ops') = heldAfter (heldAfter held ops) ops' := by
  induction ops with
  | nil => exact fun _ => rfl
  | cons op rest ih =>
    intro held
    cases op with
    | acquire m => exact ih (m :: held)
    | release m => exact ih (held.erase m)

theorem points_append (ops ops' : List (Op L)) :
    ∀ held, points held (ops ++ ops') = points held ops ++ points (heldAfter held ops) ops' := by
  induction ops with
  | nil => exact fun _ => rfl
  | cons op rest ih =>
    intro held
    cases op with
    | acquire m => exact congrArg ((held, m) :: ·) (ih (m :: held))
    | release m => exact ih (held.erase m)

/-- A point splits the steps. -/
theorem split_of_mem_points {e : List L × L} {ops : List (Op L)} :
    ∀ {held}, e ∈ points held ops →
      ∃ pre post, ops = pre ++ .acquire e.2 :: post ∧ heldAfter held pre = e.1 := by
  induction ops with
  | nil => exact fun h => absurd h List.not_mem_nil
  | cons op rest ih =>
    intro held h
    cases op with
    | acquire m =>
      rcases List.mem_cons.mp h with rfl | h
      · exact ⟨[], rest, rfl, rfl⟩
      · obtain ⟨pre, post, rfl, hheld⟩ := ih h
        exact ⟨.acquire m :: pre, post, rfl, hheld⟩
    | release m =>
      obtain ⟨pre, post, rfl, hheld⟩ := ih h
      exact ⟨.release m :: pre, post, rfl, hheld⟩

/-! ## Programs -/

/-- A program, as far as its mutexes go. -/
inductive Prog (L : Type)
  | done
  | seq (p q : Prog L)
  | either (p q : Prog L)
  | loop (p : Prog L)
  | holding (m : L) (p : Prog L)

namespace Prog

/-- Take a mutex and give it back. -/
def touch (m : L) : Prog L := holding m done

/-- Some programs one after another. -/
def inTurn : List (Prog L) → Prog L
  | [] => done
  | p :: rest => seq p (inTurn rest)

/-- A step that may be left out. -/
def optional (p : Prog L) : Prog L := either done p

/-- The sequences of steps a program can perform. -/
inductive Trace : Prog L → List (Op L) → Prop
  | done : Trace done []
  | seq {p q : Prog L} {ops ops' : List (Op L)} (hp : Trace p ops) (hq : Trace q ops') :
      Trace (seq p q) (ops ++ ops')
  | left {p q : Prog L} {ops : List (Op L)} (h : Trace p ops) : Trace (either p q) ops
  | right {p q : Prog L} {ops : List (Op L)} (h : Trace q ops) : Trace (either p q) ops
  | stop {p : Prog L} : Trace (loop p) []
  | again {p : Prog L} {ops ops' : List (Op L)} (hp : Trace p ops) (hq : Trace (loop p) ops') :
      Trace (loop p) (ops ++ ops')
  | holding {m : L} {p : Prog L} {ops : List (Op L)} (h : Trace p ops) :
      Trace (holding m p) (.acquire m :: ops ++ [.release m])

/-- Where a program waits for a mutex, with what it holds there. -/
def waits (held : List L) : Prog L → List (List L × L)
  | .done => []
  | .seq p q => waits held p ++ waits held q
  | .either p q => waits held p ++ waits held q
  | .loop p => waits held p
  | .holding m p => (held, m) :: waits (m :: held) p

/-- A program gives back what it takes. -/
theorem Trace.heldAfter {p : Prog L} {ops : List (Op L)} (h : Trace p ops) :
    ∀ held, Locks.heldAfter held ops = held := by
  induction h with
  | done => exact fun _ => rfl
  | seq _ _ ihp ihq =>
    intro held
    rw [heldAfter_append, ihp, ihq]
  | left _ ih => exact ih
  | right _ ih => exact ih
  | stop => exact fun _ => rfl
  | again _ _ ihp ihq =>
    intro held
    rw [heldAfter_append, ihp, ihq]
  | holding _ ih =>
    intro held
    rw [List.cons_append, Locks.heldAfter, heldAfter_append, ih, Locks.heldAfter, Locks.heldAfter,
      List.erase_cons_head]

/-- Every point of a trace is in the text. -/
theorem Trace.points_subset {p : Prog L} {ops : List (Op L)} (h : Trace p ops) :
    ∀ held, points held ops ⊆ p.waits held := by
  induction h with
  | done => exact fun _ => List.Subset.refl _
  | seq hp _ ihp ihq =>
    intro held
    rw [points_append, hp.heldAfter]
    refine List.append_subset.mpr ⟨?_, ?_⟩
    · exact List.Subset.trans (ihp held) (List.subset_append_left _ _)
    · exact List.Subset.trans (ihq held) (List.subset_append_right _ _)
  | left _ ih => exact fun held => List.Subset.trans (ih held) (List.subset_append_left _ _)
  | right _ ih => exact fun held => List.Subset.trans (ih held) (List.subset_append_right _ _)
  | stop => exact fun _ => List.nil_subset _
  | again hp _ ihp ihq =>
    intro held
    rw [points_append, hp.heldAfter]
    exact List.append_subset.mpr ⟨ihp held, ihq held⟩
  | @holding m p ops h ih =>
    intro held
    rw [List.cons_append, points, points_append]
    refine List.cons_subset_cons _ (List.append_subset.mpr ⟨ih (m :: held), ?_⟩)
    exact List.nil_subset _

/-- Every program has a trace. -/
theorem exists_trace (p : Prog L) : ∃ ops, p.Trace ops := by
  induction p with
  | done => exact ⟨_, .done⟩
  | seq p q ihp ihq =>
    obtain ⟨_, hp⟩ := ihp
    obtain ⟨_, hq⟩ := ihq
    exact ⟨_, hp.seq hq⟩
  | either p q ihp _ =>
    obtain ⟨_, hp⟩ := ihp
    exact ⟨_, .left hp⟩
  | loop p _ => exact ⟨_, .stop⟩
  | holding m p ih =>
    obtain ⟨_, hp⟩ := ih
    exact ⟨_, .holding hp⟩

/-- Every wait of the text is a point of some trace. -/
theorem exists_point {e : List L × L} (p : Prog L) :
    ∀ {held}, e ∈ p.waits held → ∃ ops, p.Trace ops ∧ e ∈ points held ops := by
  induction p with
  | done => exact fun h => absurd h List.not_mem_nil
  | seq p q ihp ihq =>
    intro held h
    rcases List.mem_append.mp h with h | h
    · obtain ⟨ops, hp, he⟩ := ihp h
      obtain ⟨ops', hq⟩ := q.exists_trace
      refine ⟨_, hp.seq hq, ?_⟩
      rw [points_append]
      exact List.mem_append_left _ he
    · obtain ⟨ops, hp⟩ := p.exists_trace
      obtain ⟨ops', hq, he⟩ := ihq h
      refine ⟨_, hp.seq hq, ?_⟩
      rw [points_append, hp.heldAfter]
      exact List.mem_append_right _ he
  | either p q ihp ihq =>
    intro held h
    rcases List.mem_append.mp h with h | h
    · obtain ⟨ops, hp, he⟩ := ihp h
      exact ⟨ops, .left hp, he⟩
    · obtain ⟨ops, hq, he⟩ := ihq h
      exact ⟨ops, .right hq, he⟩
  | loop p ih =>
    intro held h
    obtain ⟨ops, hp, he⟩ := ih h
    refine ⟨_, hp.again .stop, ?_⟩
    rw [points_append]
    exact List.mem_append_left _ he
  | holding m p ih =>
    intro held h
    rcases List.mem_cons.mp h with rfl | h
    · obtain ⟨ops, hp⟩ := p.exists_trace
      exact ⟨_, .holding hp, List.mem_cons_self⟩
    · obtain ⟨ops, hp, he⟩ := ih h
      refine ⟨_, .holding hp, ?_⟩
      rw [List.cons_append, points, points_append]
      exact List.mem_cons_of_mem _ (List.mem_append_left _ he)

end Prog

/-! ## Interleavings -/

/-- A running task: what it holds, and the steps ahead of it. -/
structure Task (L : Type) where
  held : List L
  rest : List (Op L)

variable {ι : Type} [DecidableEq ι]

/-- One task performs its next step; a mutex is acquired only when nobody holds it. -/
inductive Step (c : ι → Task L) : (ι → Task L) → Prop
  | acquire {i : ι} {m : L} {rest : List (Op L)} (h : (c i).rest = .acquire m :: rest)
      (hfree : ∀ j, m ∉ (c j).held) : Step c (Function.update c i ⟨m :: (c i).held, rest⟩)
  | release {i : ι} {m : L} {rest : List (Op L)} (h : (c i).rest = .release m :: rest) :
      Step c (Function.update c i ⟨(c i).held.erase m, rest⟩)

/-- Every task is about to start, on one of the traces of its program. -/
def Started (P : ι → Prog L) (c : ι → Task L) : Prop :=
  ∀ i, (c i).held = [] ∧ (P i).Trace (c i).rest

/-- What the programs can reach, running side by side. -/
def Reaches (P : ι → Prog L) (c : ι → Task L) : Prop :=
  ∃ c₀, Started P c₀ ∧ Relation.ReflTransGen Step c₀ c

/-- The task is about to acquire the mutex. -/
def Waits (c : ι → Task L) (i : ι) (m : L) : Prop := ∃ rest, (c i).rest = .acquire m :: rest

/-- The first task waits for a mutex that the second one holds. -/
def WaitsFor (c : ι → Task L) (i j : ι) : Prop := ∃ m, Waits c i m ∧ m ∈ (c j).held

/-- A cycle of tasks, each waiting for a mutex that the next one holds. -/
def Deadlocked (c : ι → Task L) : Prop := ∃ i, Relation.TransGen (WaitsFor c) i i

variable {P : ι → Prog L} {c : ι → Task L} {i j : ι} {m m' : L}

/-- Whatever a task still has to wait for is in its text. -/
def OnPath (P : ι → Prog L) (c : ι → Task L) : Prop :=
  ∀ i, points (c i).held (c i).rest ⊆ (P i).waits []

theorem Started.onPath (h : Started P c) : OnPath P c := by
  intro i
  obtain ⟨hheld, htrace⟩ := h i
  rw [hheld]
  exact htrace.points_subset []

theorem Step.onPath {c' : ι → Task L} (h : Step c c') (hc : OnPath P c) : OnPath P c' := by
  cases h with
  | @acquire i m rest h _ =>
    intro j
    by_cases hj : j = i
    · subst hj
      have hi := hc j
      rw [h, points] at hi
      rw [Function.update_self]
      exact fun e he => hi (List.mem_cons_of_mem _ he)
    · rw [Function.update_of_ne hj]
      exact hc j
  | @release i m rest h =>
    intro j
    by_cases hj : j = i
    · subst hj
      have hi := hc j
      rw [h, points] at hi
      rw [Function.update_self]
      exact hi
    · rw [Function.update_of_ne hj]
      exact hc j

theorem Reaches.onPath (h : Reaches P c) : OnPath P c := by
  obtain ⟨c₀, hstart, hrun⟩ := h
  induction hrun with
  | refl => exact hstart.onPath
  | tail _ hstep ih => exact hstep.onPath ih

/-- A task waits only where its text says so. -/
theorem Reaches.mem_waits (h : Reaches P c) (hw : Waits c i m) :
    ((c i).held, m) ∈ (P i).waits [] := by
  obtain ⟨rest, hrest⟩ := hw
  refine h.onPath i ?_
  rw [hrest]
  exact List.mem_cons_self

/-! ## Two rules -/

/-- Along a chain of waiting tasks the rank of what is waited for grows. -/
theorem rank_lt_of_waitsFor {rank : L → ℕ} (h : Reaches P c)
    (hrank : ∀ i, ∀ e ∈ (P i).waits [], ∀ l ∈ e.1, rank l < rank e.2)
    (hij : Relation.TransGen (WaitsFor c) i j) :
    ∀ m m', Waits c i m → Waits c j m' → rank m < rank m' := by
  have hone : ∀ {i j}, WaitsFor c i j → ∀ m m', Waits c i m → Waits c j m' → rank m < rank m' := by
    rintro i j ⟨l, ⟨rest, hl⟩, hheld⟩ m m' ⟨rest', hm⟩ hm'
    have hsame : l = m := by
      rw [hl, List.cons.injEq, Op.acquire.injEq] at hm
      exact hm.1
    exact hrank j _ (h.mem_waits hm') m (hsame ▸ hheld)
  induction hij with
  | single hstep => exact hone hstep
  | @tail k j _ hkj ih =>
    intro m m' hm hm'
    obtain ⟨l, hl, hheld⟩ := hkj
    exact (ih m l hm hl).trans (hone ⟨l, hl, hheld⟩ l m' hl hm')

/-- Mutexes taken in the order of a rank never deadlock. -/
theorem not_deadlocked_of_rank {rank : L → ℕ} (h : Reaches P c)
    (hrank : ∀ i, ∀ e ∈ (P i).waits [], ∀ l ∈ e.1, rank l < rank e.2) : ¬ Deadlocked c := by
  rintro ⟨i, hcycle⟩
  obtain ⟨j, ⟨m, hm, -⟩, -⟩ := Relation.TransGen.head'_iff.mp hcycle
  exact absurd (rank_lt_of_waitsFor h hrank hcycle m m hm hm) (lt_irrefl _)

/-- When only one task waits while it holds something, and never for what it holds, there is no
deadlock. -/
theorem not_deadlocked_of_single (h : Reaches P c) (i₀ : ι)
    (hflat : ∀ j, j ≠ i₀ → ∀ e ∈ (P j).waits [], e.1 = [])
    (hrelock : ∀ e ∈ (P i₀).waits [], e.2 ∉ e.1) : ¬ Deadlocked c := by
  -- a task that is waited for and waits is the one
  have hone : ∀ {i j k}, WaitsFor c i j → WaitsFor c j k → j = i₀ := by
    rintro i j k ⟨m, -, hheld⟩ ⟨m', hm', -⟩
    by_contra hj
    have hnil : (c j).held = [] := hflat j hj _ (h.mem_waits hm')
    rw [hnil] at hheld
    exact absurd hheld List.not_mem_nil
  rintro ⟨i, hcycle⟩
  obtain ⟨j, hij, hji⟩ := Relation.TransGen.head'_iff.mp hcycle
  obtain ⟨k, -, hki⟩ := Relation.TransGen.tail'_iff.mp hcycle
  have hi : i = i₀ := hone hki hij
  have hj : j = i₀ := by
    rcases Relation.ReflTransGen.cases_head hji with rfl | ⟨l, hjl, -⟩
    · exact hi
    · exact hone hij hjl
  obtain ⟨m, hm, hheld⟩ := hij
  subst hi
  rw [hj] at hheld
  exact hrelock _ (h.mem_waits hm) hheld

/-! ## Opposite orders -/

/-- A task runs some steps by itself: none of what it acquires is held, by itself or by another
task. -/
theorem run_alone (pre post : List (Op L)) :
    ∀ {c : ι → Task L}, (c i).rest = pre ++ post →
      (∀ e ∈ points (c i).held pre, e.2 ∉ e.1 ∧ ∀ j, j ≠ i → e.2 ∉ (c j).held) →
      Relation.ReflTransGen Step c
        (Function.update c i ⟨heldAfter (c i).held pre, post⟩) := by
  induction pre with
  | nil =>
    intro c hrest _
    have hsame : Function.update c i ⟨(c i).held, post⟩ = c := by
      have htask : (⟨(c i).held, post⟩ : Task L) = c i := by
        rw [List.nil_append] at hrest
        rw [← hrest]
      rw [htask, Function.update_eq_self]
    rw [heldAfter, hsame]
  | cons op rest ih =>
    intro c hrest hfree
    have hnext : ∀ held, Step c (Function.update c i ⟨held, rest ++ post⟩) →
        points held rest ⊆ points (c i).held (op :: rest) →
        Relation.ReflTransGen Step c (Function.update c i ⟨heldAfter held rest, post⟩) := by
      intro held hstep hsub
      refine Relation.ReflTransGen.head hstep ?_
      have hrun := ih (c := Function.update c i ⟨held, rest ++ post⟩)
        (by rw [Function.update_self]) (fun e he => ?_)
      · rw [Function.update_self, Function.update_idem] at hrun
        exact hrun
      · rw [Function.update_self] at he
        obtain ⟨hself, hothers⟩ := hfree e (hsub he)
        refine ⟨hself, fun j hj => ?_⟩
        rw [Function.update_of_ne hj]
        exact hothers j hj
    cases op with
    | acquire m =>
      obtain ⟨hself, hothers⟩ := hfree _ List.mem_cons_self
      refine hnext (m :: (c i).held) (.acquire hrest fun j => ?_) (List.subset_cons_self _ _)
      by_cases hj : j = i
      · exact hj ▸ hself
      · exact hothers j hj
    | release m => exact hnext ((c i).held.erase m) (.release hrest) (List.Subset.refl _)

/-- Two tasks that nest two mutexes in opposite orders deadlock, when each can run up to its
inner mutex. -/
theorem deadlock_of_opposite (P : ι → Prog L) (hij : i ≠ j) {pre post pre' post' : List (Op L)}
    (hi : (P i).Trace (pre ++ .acquire m :: post)) (hj : (P j).Trace (pre' ++ .acquire m' :: post'))
    (hm : m ∈ heldAfter [] pre') (hm' : m' ∈ heldAfter [] pre)
    (hfree : ∀ e ∈ points [] pre, e.2 ∉ e.1 ∧ e.2 ∉ heldAfter [] pre')
    (hfree' : ∀ e ∈ points [] pre', e.2 ∉ e.1) : ∃ c, Reaches P c ∧ Deadlocked c := by
  classical
  choose start hstart using fun k => (P k).exists_trace
  -- the two tasks on the traces given, the others on any
  let c₀ : ι → Task L := Function.update (Function.update (fun k => ⟨[], start k⟩) i
    ⟨[], pre ++ .acquire m :: post⟩) j ⟨[], pre' ++ .acquire m' :: post'⟩
  have hstarted : Started P c₀ := by
    intro k
    by_cases hkj : k = j
    · subst hkj
      simp only [c₀, Function.update_self]
      exact ⟨trivial, hj⟩
    · by_cases hki : k = i
      · subst hki
        simp only [c₀, Function.update_of_ne hkj, Function.update_self]
        exact ⟨trivial, hi⟩
      · simp only [c₀, Function.update_of_ne hkj, Function.update_of_ne hki]
        exact ⟨trivial, hstart k⟩
  have hjtask : c₀ j = ⟨[], pre' ++ .acquire m' :: post'⟩ := Function.update_self _ _ _
  -- first the second task, while nobody holds anything
  have hrun₁ := run_alone pre' (.acquire m' :: post') (i := j) (c := c₀)
    (by rw [hjtask]) (fun e he => by
      rw [hjtask] at he
      refine ⟨hfree' e he, fun k _ => ?_⟩
      rw [(hstarted k).1]
      exact List.not_mem_nil)
  rw [hjtask] at hrun₁
  set c₁ := Function.update c₀ j ⟨heldAfter [] pre', .acquire m' :: post'⟩ with hc₁
  have hitask : c₁ i = ⟨[], pre ++ .acquire m :: post⟩ := by
    rw [hc₁, Function.update_of_ne hij]
    simp only [c₀, Function.update_of_ne hij, Function.update_self]
  -- then the first one beside it
  have hrun₂ := run_alone pre (.acquire m :: post) (i := i) (c := c₁)
    (by rw [hitask]) (fun e he => by
      rw [hitask] at he
      obtain ⟨hself, hother⟩ := hfree e he
      refine ⟨hself, fun k hk => ?_⟩
      by_cases hkj : k = j
      · rw [hkj, hc₁, Function.update_self]
        exact hother
      · rw [hc₁, Function.update_of_ne hkj, (hstarted k).1]
        exact List.not_mem_nil)
  rw [hitask] at hrun₂
  refine ⟨_, ⟨c₀, hstarted, hrun₁.trans hrun₂⟩, i, ?_⟩
  have hci : Function.update c₁ i ⟨heldAfter [] pre, .acquire m :: post⟩ i =
      ⟨heldAfter [] pre, .acquire m :: post⟩ := Function.update_self _ _ _
  have hcj : Function.update c₁ i ⟨heldAfter [] pre, .acquire m :: post⟩ j =
      ⟨heldAfter [] pre', .acquire m' :: post'⟩ := by
    rw [Function.update_of_ne hij.symm, hc₁, Function.update_self]
  have hfirst : WaitsFor (Function.update c₁ i ⟨heldAfter [] pre, .acquire m :: post⟩) i j :=
    ⟨m, ⟨post, by rw [hci]⟩, by rw [hcj]; exact hm⟩
  have hsecond : WaitsFor (Function.update c₁ i ⟨heldAfter [] pre, .acquire m :: post⟩) j i :=
    ⟨m', ⟨post', by rw [hcj]⟩, by rw [hci]; exact hm'⟩
  exact (Relation.TransGen.single hfirst).tail hsecond

end Locks
