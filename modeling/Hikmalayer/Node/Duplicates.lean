/-
# Duplicates

What the cache of seen ids takes for a replay.  Ids are chosen by the sender, and the cache keeps
them for all senders together: an envelope is taken for a replay of itself as long as no other
under its id passes the checks, and anyone with an identity can have it rejected otherwise.
-/
import Mathlib.Tactic
import Hikmalayer.Node.Replays

open Outcome

namespace Settings

variable {cfg : Settings} {c : ServerConfig} {s : AppState} {E : P2PEnvelope}

/-- No envelope with the id of `E` but `E` itself gets past the reputation gate. -/
def OwnId (E : P2PEnvelope) (c : ServerConfig) (event : ServerEvent) : Prop :=
  ∀ k i e rest, event = .run k i → c.handlers[k]? = some (.gate e :: rest) →
    c.state.peerBook.isAccepted e.nodeId i.now.time = true → e.messageId = E.messageId → e = E

/-- What waits for the cache under the id of `E` is `E`, and the id is remembered of `E` alone. -/
structure Unshared (E : P2PEnvelope) (c : ServerConfig) : Prop where
  waiting : ∀ e, System.Pending c (.replay e) → e.messageId = E.messageId → e = E
  remembered : E.messageId ∈ c.state.seenMessages.seen → .received E ∈ c.said

/-- A node comes up with an empty cache. -/
theorem boot_seenMessages {disk : Option AppSnapshot} (h : cfg.boot disk = some s) :
    s.seenMessages = .new seenCapacity := by
  obtain ⟨_, _, -, -, rfl⟩ := boot_eq_some h
  rfl

theorem Unshared.after {k : ℕ} {i : Surroundings} {a : ServerAction} {rest : List ServerAction}
    {turn : ServerTurn} (h : Unshared E c) (hallowed : OwnId E c (.run k i))
    (htop : c.handlers[k]? = some (a :: rest)) (hrun : cfg.run i c.state a = some turn) :
    Unshared E (System.after c k i rest turn) := by
  constructor
  · intro e he hid
    rcases System.pending_after htop he with he | he
    · exact h.waiting e he hid
    · have hfollows := run_follows hrun he
      have ha := hfollows.of_replay
      subst ha
      exact hallowed k i e rest rfl htop hfollows.accepted hid
  · rcases run_seen hrun with ⟨hseen, -⟩ | ⟨new, rfl, -, rfl⟩
    · intro hmem
      have hmem : E.messageId ∈ turn.state.seenMessages.seen := hmem
      rw [hseen] at hmem
      exact List.mem_append_left _ (h.remembered hmem)
    · intro hmem
      rcases SeenMessageCache.mem_of_mem_insert hmem with hid | hmem
      · rw [← h.waiting new (System.pending_top htop) hid.symm]
        exact List.mem_append_right _ List.mem_cons_self
      · exact List.mem_append_left _ (h.remembered hmem)

/-- An envelope is rejected as a duplicate only after it was processed, in every run in which no
other envelope with its id gets past the reputation gate. -/
theorem duplicate_processed_of_unshared (h : cfg.Reachable (OwnId E) c)
    (hduplicate : (c.state.seenMessages.insert E.messageId).1 = false) : .received E ∈ c.said := by
  suffices hown : Unshared E c by
    refine hown.remembered (by_contra fun hunseen => ?_)
    rw [SeenMessageCache.insert_new hunseen] at hduplicate
    cases hduplicate
  refine h.invariant ?_ ?_
  · rintro c ⟨disk, state, hboot, rfl⟩
    refine ⟨fun e he => ?_, fun hmem => ?_⟩
    · obtain ⟨_, hnone, -⟩ := he
      exact absurd hnone List.not_mem_nil
    · rw [boot_seenMessages hboot] at hmem
      exact absurd hmem (Finset.notMem_empty _)
  · intro c c' event _ ih hrequested hallowed hstep
    rcases System.step_cases hstep with ⟨actions, rfl, rfl⟩ |
      ⟨k, i, a, rest, turn, rfl, htop, hrun, rfl⟩ | ⟨state, rfl, hboot, rfl⟩
    · obtain ⟨request, rfl⟩ := hrequested
      exact ⟨fun e he => ih.waiting e (pending_arrive (by simp) he), ih.remembered⟩
    · exact ih.after hallowed htop hrun
    · refine ⟨fun e he => ?_, fun hmem => ?_⟩
      · obtain ⟨_, hnone, -⟩ := he
        exact absurd hnone List.not_mem_nil
      · rw [boot_seenMessages hboot] at hmem
        exact absurd hmem (Finset.notMem_empty _)

/-- The greeting of holder 7 is rejected as a duplicate after it was processed. -/
theorem duplicate_processed_sample : ∃ c : ServerConfig,
    (c.state.seenMessages.insert (Sample.sealEnvelope [] 7 Sample.greeting).messageId).1 = false ∧
    .received (Sample.sealEnvelope [] 7 Sample.greeting) ∈ c.said := by
  have hown : ∀ {c : ServerConfig} {k : ℕ} {i : Surroundings}, (∀ e rest,
      c.handlers[k]? = some (.gate e :: rest) → e = Sample.sealEnvelope [] 7 Sample.greeting) →
      OwnId (Sample.sealEnvelope [] 7 Sample.greeting) c (.run k i) := by
    intro c k i h k' i' e rest hevent htop _ _
    cases hevent
    exact h e rest htop
  have hunseen : (Sample.sealEnvelope [] 7 Sample.greeting).messageId ∉
      (Sample.firstConfig []).state.seenMessages.seen := by
    simp [Sample.firstConfig, Sample.firstState, SeenMessageCache.new]
  have hruns := Sample.runs_firstConfig.ping rfl
    (Sample.validate_sealEnvelope [] 7 (e := Sample.greeting) rfl (by decide) rfl)
    (i := Sample.quietMorning) rfl hunseen (fun _ _ _ _ hevent => by cases hevent)
    (hown fun e rest htop => ?_) fun c' a rest ha _ _ => hown fun e rest' htop => ?_
  · refine ⟨_, ?_, duplicate_processed_of_unshared (Sample.reachable_of_runs hruns) ?_⟩ <;>
      exact SeenMessageCache.insert_seen (SeenMessageCache.mem_insert_self hunseen)
  · rw [List.getElem?_concat_length] at htop
    cases htop
  · rw [List.getElem?_concat_length, Option.some.injEq, List.cons.injEq] at htop
    rw [htop.1] at ha
    exact Option.some.inj ha

/-! ## An id that another has used -/

/-- `E` itself, or a message that another node has signed. -/
def OwnOrSigned (cfg : Settings) (E : P2PEnvelope) (c : ServerConfig) (event : ServerEvent) : Prop :=
  ∀ k i e rest, event = .run k i → c.handlers[k]? = some (.begin (.message true e) :: rest) →
    e = E ∨ e.nodeId ≠ E.nodeId ∧ e.verifyIdentity cfg.node = ok ()

/-- A valid envelope whose id is remembered is rejected, at one go. -/
theorem Runs.duplicate {Allowed : ServerConfig → ServerEvent → Prop} {start : ServerConfig}
    {i : Surroundings} {e : P2PEnvelope} (h : cfg.Runs Allowed start c)
    (hvalid : e.validateWithIdentity cfg.node maxEnvelopeSkew cfg.requireIdentity i.now.time = ok ())
    (haccepted : c.state.peerBook.isAccepted e.nodeId i.now.time = true)
    (hseen : e.messageId ∈ c.state.seenMessages.seen)
    (harrive : Allowed c (.arrive [.begin (.message true e)]))
    (hrun : ∀ (c' : ServerConfig) (a : ServerAction) (rest : List ServerAction),
      a = .begin (.message true e) ∨ a = .gate e ∨ a = .replay e →
      Allowed { c' with handlers := c'.handlers ++ [a :: rest] } (.run c'.handlers.length i)) :
    cfg.Runs Allowed start ⟨c.state, c.handlers ++ [[]],
      c.said ++ [.answered (.envelope e) (.error "Duplicate P2P message rejected")],
      c.inputs ++ [i, i, i]⟩ := by
  have hreplay : cfg.run i c.state (.replay e) = some ⟨c.state, [], [],
      [.answered (.envelope e) (.error "Duplicate P2P message rejected")]⟩ := by
    rw [run, if_neg (by rw [SeenMessageCache.insert_seen hseen]; simp)]
    rfl
  have hserved := h.serve harrive (served_cons (run_look hvalid) (hrun _ _ _ (Or.inl rfl))
    (served_cons (run_gate haccepted) (hrun _ _ _ (Or.inr (Or.inl rfl)))
      (served_cons hreplay (hrun _ _ _ (Or.inr (Or.inr rfl))) (.nil _))))
  simpa using hserved

/-- A fresh envelope of holder 7 is rejected as a duplicate because holder 8 has sent another under
its id, and was never processed. -/
theorem duplicate_of_another : ∃ c : ServerConfig,
    (Sample.settings []).requireIdentity = true ∧
    (Sample.settings []).Reachable (OwnOrSigned (Sample.settings []) Sample.victim) c ∧
    Sample.victim.validateWithIdentity (Sample.settings []).node maxEnvelopeSkew true
      Sample.quietMorning.now.time = ok () ∧
    .answered (.envelope Sample.victim) (.error "Duplicate P2P message rejected") ∈ c.said ∧
    .received Sample.victim ∉ c.said := by
  have hnode : Sample.address 8 ≠ Sample.address 7 := by decide +kernel
  have hother : (Sample.sealEnvelope [] 8 Sample.greeting).verifyIdentity (Sample.env []) = ok () :=
    P2PEnvelope.verifyIdentity_signed (Sample.nodeKey_sound [] 8) (Sample.signed_nodeKey [] 8 _)
  have hrun : ∀ {c : ServerConfig} {k : ℕ} {i : Surroundings}, (∀ e rest,
      c.handlers[k]? = some (.begin (.message true e) :: rest) →
        e = Sample.victim ∨ e = Sample.sealEnvelope [] 8 Sample.greeting) →
      OwnOrSigned (Sample.settings []) Sample.victim c (.run k i) := by
    intro c k i h k' i' e rest hevent htop
    cases hevent
    rcases h e rest htop with rfl | rfl
    · exact Or.inl rfl
    · exact Or.inr ⟨hnode, hother⟩
  have hunseen : (Sample.sealEnvelope [] 8 Sample.greeting).messageId ∉
      (Sample.firstConfig []).state.seenMessages.seen := by
    simp [Sample.firstConfig, Sample.firstState, SeenMessageCache.new]
  have hvalid := Sample.validate_sealEnvelope [] 7 (e := Sample.greeting) rfl (by decide) rfl
  have hfirst := Sample.runs_firstConfig.ping rfl
    (Sample.validate_sealEnvelope [] 8 (e := Sample.greeting) rfl (by decide) rfl)
    (i := Sample.quietMorning) rfl hunseen (fun _ _ _ _ hevent => by cases hevent)
    (hrun fun e rest htop => ?_) fun c' a rest ha _ _ => hrun fun e rest' htop => ?_
  · have hsecond := hfirst.duplicate (e := Sample.victim) (i := Sample.quietMorning) hvalid rfl
      (SeenMessageCache.mem_insert_self hunseen) (fun _ _ _ _ hevent => by cases hevent)
      fun c' a rest ha => hrun fun e rest' htop => ?_
    · refine ⟨_, rfl, Sample.reachable_of_runs hsecond, hvalid, by simp, fun hmem => ?_⟩
      have hsame : Sample.victim = Sample.sealEnvelope [] 8 Sample.greeting := by
        simpa [Sample.firstConfig] using hmem
      exact hnode (congrArg P2PEnvelope.nodeId hsame).symm
    · rw [List.getElem?_concat_length, Option.some.injEq, List.cons.injEq] at htop
      rw [htop.1] at ha
      rcases ha with ha | ha | ha
      · cases ha
        exact Or.inl rfl
      · cases ha
      · cases ha
  · rw [List.getElem?_concat_length] at htop
    cases htop
    exact Or.inr rfl
  · rw [List.getElem?_concat_length, Option.some.injEq, List.cons.injEq] at htop
    rw [htop.1] at ha
    cases ha

end Settings
