/-
# Interleaved handlers

A server answers requests with handlers.  A handler is a stack of actions, each run as one
piece: it may change the shared state, put further actions in front of the rest of its stack,
start other handlers and say something.  Between two actions of a handler any other may run,
new requests may arrive, and a restart may drop all handlers.

* `System.step_cases`: what one event does;
* `System.Reaches.invariant`: what holds at the start and is kept by every allowed event holds
  of every reachable configuration;
* `System.pending_step`, `System.mem_said_step`: where the waiting actions and the words of a
  configuration come from;
* `System.Reaches.serve`: a request that is served with nothing in between.
-/
import Mathlib.Tactic

/-- What one action does: the state it leaves, what its handler does next, the handlers it
starts, and its words. -/
structure System.Turn (σ α ω : Type) where
  state : σ
  next : List α
  started : List (List α)
  words : List ω

/-- How an action runs under an input from outside, and what a restart makes of the state.
An action or a restart that does not go through is `none`. -/
structure System (σ α ι ω : Type) where
  run : ι → α → σ → Option (System.Turn σ α ω)
  restart : σ → Option σ

namespace System

/-- The shared state, the handlers under way, all that has been said, and the inputs that have
been used. -/
structure Config (σ α ι ω : Type) where
  state : σ
  handlers : List (List α)
  said : List ω
  inputs : List ι

/-- A request arrives, a handler runs its next action, or the server restarts. -/
inductive Event (α ι : Type) where
  | arrive (actions : List α)
  | run (i : ℕ) (input : ι)
  | restart

variable {σ α ι ω : Type}

/-- The turn adds an action, to its own handler or to a new one. -/
def Turn.Adds (turn : Turn σ α ω) (b : α) : Prop :=
  b ∈ turn.next ∨ ∃ actions ∈ turn.started, b ∈ actions

/-- An action waits in some handler. -/
def Pending (c : Config σ α ι ω) (a : α) : Prop := ∃ actions ∈ c.handlers, a ∈ actions

/-- The configuration after a turn of handler `i`, which had `rest` left to do. -/
def after (c : Config σ α ι ω) (i : ℕ) (input : ι) (rest : List α) (turn : Turn σ α ω) :
    Config σ α ι ω where
  state := turn.state
  handlers := c.handlers.set i (turn.next ++ rest) ++ turn.started
  said := c.said ++ turn.words
  inputs := c.inputs ++ [input]

variable {S : System σ α ι ω}

def step (S : System σ α ι ω) (c : Config σ α ι ω) : Event α ι → Option (Config σ α ι ω)
  | .arrive actions => some { c with handlers := c.handlers ++ [actions] }
  | .run i input =>
    match c.handlers[i]? with
    | some (a :: rest) => (S.run input a c.state).map fun turn => after c i input rest turn
    | _ => none
  | .restart => (S.restart c.state).map fun state => ⟨state, [], c.said, c.inputs⟩

/-- What one event does. -/
theorem step_cases {c c' : Config σ α ι ω} {e : Event α ι} (h : S.step c e = some c') :
    (∃ actions, e = .arrive actions ∧
      c' = { c with handlers := c.handlers ++ [actions] }) ∨
    (∃ i input a rest turn, e = .run i input ∧ c.handlers[i]? = some (a :: rest) ∧
      S.run input a c.state = some turn ∧ c' = after c i input rest turn) ∨
    ∃ state, e = .restart ∧ S.restart c.state = some state ∧ c' = ⟨state, [], c.said, c.inputs⟩ := by
  cases e with
  | arrive actions => exact Or.inl ⟨actions, rfl, (Option.some.inj h).symm⟩
  | run i input =>
    rw [step] at h
    split at h
    next a rest hstack =>
      obtain ⟨turn, hrun, rfl⟩ := Option.map_eq_some_iff.mp h
      exact Or.inr (Or.inl ⟨i, input, a, rest, turn, rfl, hstack, hrun, rfl⟩)
    · cases h
  | restart =>
    obtain ⟨state, hstate, rfl⟩ := Option.map_eq_some_iff.mp h
    exact Or.inr (Or.inr ⟨state, rfl, hstate, rfl⟩)

/-- The configuration after an action is that after its turn. -/
theorem step_run {c c' : Config σ α ι ω} {i : ℕ} {input : ι} {a : α} {rest : List α}
    {turn : Turn σ α ω} (h : S.step c (.run i input) = some c')
    (htop : c.handlers[i]? = some (a :: rest)) (hrun : S.run input a c.state = some turn) :
    c' = after c i input rest turn := by
  simp only [step, htop, hrun, Option.map_some, Option.some.injEq] at h
  exact h.symm

/-- The action on top of a stack waits. -/
theorem pending_top {c : Config σ α ι ω} {i : ℕ} {a : α} {rest : List α}
    (h : c.handlers[i]? = some (a :: rest)) : Pending c a :=
  ⟨a :: rest, List.mem_of_getElem? h, List.mem_cons_self⟩

/-- After a turn an action waits that waited before, or that the turn has added. -/
theorem pending_after {c : Config σ α ι ω} {i : ℕ} {input : ι} {a b : α} {rest : List α}
    {turn : Turn σ α ω}
    (htop : c.handlers[i]? = some (a :: rest)) (h : Pending (after c i input rest turn) b) :
    Pending c b ∨ turn.Adds b := by
  obtain ⟨actions, hactions, hb⟩ := h
  rcases List.mem_append.mp hactions with hactions | hactions
  · rcases List.mem_or_eq_of_mem_set hactions with hactions | rfl
    · exact Or.inl ⟨actions, hactions, hb⟩
    · rcases List.mem_append.mp hb with hb | hb
      · exact Or.inr (Or.inl hb)
      · exact Or.inl ⟨a :: rest, List.mem_of_getElem? htop, List.mem_cons_of_mem a hb⟩
  · exact Or.inr (Or.inr ⟨actions, hactions, hb⟩)

/-- Where a waiting action comes from. -/
theorem pending_step {c c' : Config σ α ι ω} {e : Event α ι} {b : α} (h : S.step c e = some c')
    (hb : Pending c' b) : Pending c b ∨ (∃ actions, e = .arrive actions ∧ b ∈ actions) ∨
    ∃ i input a rest turn, e = .run i input ∧ c.handlers[i]? = some (a :: rest) ∧
      S.run input a c.state = some turn ∧ turn.Adds b := by
  rcases step_cases h with ⟨actions, rfl, rfl⟩ | ⟨i, input, a, rest, turn, rfl, htop, hrun, rfl⟩ |
    ⟨state, rfl, -, rfl⟩
  · obtain ⟨stack, hstack, hb⟩ := hb
    rcases List.mem_append.mp hstack with hstack | hstack
    · exact Or.inl ⟨stack, hstack, hb⟩
    · rw [List.mem_singleton.mp hstack] at hb
      exact Or.inr (Or.inl ⟨actions, rfl, hb⟩)
  · rcases pending_after htop hb with hb | hb
    · exact Or.inl hb
    · exact Or.inr (Or.inr ⟨i, input, a, rest, turn, rfl, htop, hrun, hb⟩)
  · obtain ⟨stack, hstack, -⟩ := hb
    exact absurd hstack List.not_mem_nil

/-- Where a word comes from. -/
theorem mem_said_step {c c' : Config σ α ι ω} {e : Event α ι} {o : ω} (h : S.step c e = some c')
    (ho : o ∈ c'.said) : o ∈ c.said ∨ ∃ i input a rest turn, e = .run i input ∧
      c.handlers[i]? = some (a :: rest) ∧ S.run input a c.state = some turn ∧ o ∈ turn.words := by
  rcases step_cases h with ⟨actions, rfl, rfl⟩ | ⟨i, input, a, rest, turn, rfl, htop, hrun, rfl⟩ |
    ⟨state, rfl, -, rfl⟩
  · exact Or.inl ho
  · rcases List.mem_append.mp ho with ho | ho
    · exact Or.inl ho
    · exact Or.inr ⟨i, input, a, rest, turn, rfl, htop, hrun, ho⟩
  · exact Or.inl ho

/-- The configurations that events reach, each of them allowed where it happens. -/
inductive Reaches (S : System σ α ι ω) (Allowed : Config σ α ι ω → Event α ι → Prop)
    (start : Config σ α ι ω) : Config σ α ι ω → Prop
  | start : Reaches S Allowed start start
  | step {c c' : Config σ α ι ω} {e : Event α ι} (h : Reaches S Allowed start c)
      (hallowed : Allowed c e) (hstep : S.step c e = some c') : Reaches S Allowed start c'

variable {Allowed : Config σ α ι ω → Event α ι → Prop} {start c : Config σ α ι ω}

/-- An invariant of the allowed events holds of every reachable configuration. -/
theorem Reaches.invariant {P : Config σ α ι ω → Prop} (h : Reaches S Allowed start c)
    (hstart : P start) (hstep : ∀ c c' e, Reaches S Allowed start c → P c → Allowed c e →
      S.step c e = some c' → P c') : P c := by
  induction h with
  | start => exact hstart
  | step h hallowed hnext ih => exact hstep _ _ _ h ih hallowed hnext

/-- Runs follow one another. -/
theorem Reaches.trans {c' : Config σ α ι ω} (h : Reaches S Allowed start c)
    (h' : Reaches S Allowed c c') : Reaches S Allowed start c' := by
  induction h' with
  | start => exact h
  | step _ hallowed hstep ih => exact ih.step hallowed hstep

/-- A property of single actions, kept by all that actions add. -/
theorem Reaches.pending {J : α → Prop} (h : Reaches S Allowed start c)
    (hstart : ∀ a, Pending start a → J a)
    (harrive : ∀ c actions, Allowed c (.arrive actions) → ∀ a ∈ actions, J a)
    (hrun : ∀ c i input a turn, Allowed c (.run i input) → J a →
      S.run input a c.state = some turn → ∀ b, turn.Adds b → J b) :
    ∀ a, Pending c a → J a := by
  refine h.invariant (P := fun c => ∀ a, Pending c a → J a) hstart fun c c' e _ ih hallowed hstep a ha => ?_
  rcases pending_step hstep ha with ha | ⟨actions, rfl, ha⟩ |
    ⟨i, input, b, rest, turn, rfl, htop, hrun', ha⟩
  · exact ih a ha
  · exact harrive c actions hallowed a ha
  · exact hrun c i input b turn hallowed (ih b (pending_top htop)) hrun' a ha

/-! ## Requests served at one go -/

/-- One more handler, `stack`, runs to its end with nothing in between and starts no other. -/
inductive Served (S : System σ α ι ω) (Allowed : Config σ α ι ω → Event α ι → Prop) :
    Config σ α ι ω → List α → Config σ α ι ω → Prop
  | nil (c : Config σ α ι ω) : Served S Allowed c [] c
  | cons {c c' : Config σ α ι ω} {a : α} {rest next : List α} {t : σ} {words : List ω} {input : ι}
      (hrun : S.run input a c.state = some ⟨t, next, [], words⟩)
      (hallowed : Allowed { c with handlers := c.handlers ++ [a :: rest] }
        (.run c.handlers.length input))
      (h : Served S Allowed ⟨t, c.handlers, c.said ++ words, c.inputs ++ [input]⟩ (next ++ rest) c') :
      Served S Allowed c (a :: rest) c'

theorem Served.reaches {c c' : Config σ α ι ω} {stack : List α} (h : Served S Allowed c stack c')
    (hc : Reaches S Allowed start { c with handlers := c.handlers ++ [stack] }) :
    Reaches S Allowed start { c' with handlers := c'.handlers ++ [[]] } := by
  induction h with
  | nil c => exact hc
  | @cons c c' a rest next t words input hrun hallowed _ ih =>
    refine ih (hc.step hallowed ?_)
    have htop : (c.handlers ++ [a :: rest])[c.handlers.length]? = some (a :: rest) :=
      List.getElem?_concat_length
    have hset : (c.handlers ++ [a :: rest]).set c.handlers.length (next ++ rest) =
        c.handlers ++ [next ++ rest] := by
      rw [List.set_append_right _ _ (Nat.le_refl _), Nat.sub_self]
      rfl
    rw [step]
    simp only [htop, hrun, Option.map_some, after, hset, List.append_nil]

/-- A request arrives and is served at one go. -/
theorem Reaches.serve {c' : Config σ α ι ω} {stack : List α} (hc : Reaches S Allowed start c)
    (harrive : Allowed c (.arrive stack)) (h : Served S Allowed c stack c') :
    Reaches S Allowed start { c' with handlers := c'.handlers ++ [[]] } :=
  h.reaches (hc.step harrive rfl)

end System
