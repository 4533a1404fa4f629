/-
# Replayed messages

An envelope is fresh while the clock is near its timestamp, and the cache of seen ids turns it
away while it remembers the id.  Freshness is one interval of the clock, so an envelope is
processed once as long as the cache forgets no id while an envelope that was processed under
it is fresh; the cache is bounded and forgets the oldest id in a flood.
-/
import Mathlib.Tactic
import Hikmalayer.Node.Boot

open Outcome

/-! ## Freshness -/

namespace DateTime

/-- A difference is at most `n` seconds when less than `n + 1` seconds have passed. -/
theorem natAbs_numSecondsSince_le (a b : DateTime) (n : ℕ) :
    (a.numSecondsSince b).natAbs ≤ n ↔ (a.nanosecondsSince b).natAbs < (n + 1) * 1000000000 := by
  rw [numSecondsSince_eq, Int.natAbs_tdiv]
  show (a.nanosecondsSince b).natAbs / 1000000000 ≤ n ↔ _
  omega

end DateTime

namespace P2PEnvelope

variable {e : P2PEnvelope}

/-- On the clock an envelope is fresh when its timestamp is less than 301 seconds away; a leap
second counts as one more after it and on the same day. -/
theorem fresh_iff {now : DateTime.Reading} : e.Fresh maxEnvelopeSkew now.time ↔
    (now.time.nanoseconds - e.timestamp.nanoseconds + (if e.timestamp.sec < now.time.sec then
      e.timestamp.leapSeconds else 0) * 1000000000).natAbs < 301 * 1000000000 := by
  unfold Fresh
  rw [DateTime.natAbs_numSecondsSince_le, DateTime.nanosecondsSince, DateTime.leapAdjust_reading]
  rfl

/-- The clock readings at which an envelope is fresh are an interval. -/
theorem fresh_between {first mid last : DateTime.Reading} (he : e.timestamp.Representable)
    (hmid : ¬ mid.time.before first.time) (hlast : ¬ last.time.before mid.time)
    (hfresh : e.Fresh maxEnvelopeSkew first.time) (hfresh' : e.Fresh maxEnvelopeSkew last.time) :
    e.Fresh maxEnvelopeSkew mid.time := by
  rw [fresh_iff] at *
  have hle := DateTime.nanoseconds_le_of_not_before mid.regular hmid
  have hle' := DateTime.nanoseconds_le_of_not_before last.regular hlast
  have hfirst : first.time.leapSeconds = 0 := by rw [DateTime.leapSeconds, first.regular]; rfl
  have hmid0 : mid.time.leapSeconds = 0 := by rw [DateTime.leapSeconds, mid.regular]; rfl
  rw [hfirst] at hle
  rw [hmid0] at hle'
  by_cases hleap : e.timestamp.inLeapSecond = true
  · have hone : e.timestamp.leapSeconds = 1 := by rw [DateTime.leapSeconds, if_pos hleap]
    have hsec := he.leap hleap
    rw [hone] at hfresh hfresh' ⊢
    have hr := first.regular
    have hr' := mid.regular
    have hr'' := last.regular
    simp only [DateTime.inLeapSecond, decide_eq_true_eq, decide_eq_false_iff_not] at hleap hr hr' hr''
    simp only [DateTime.nanoseconds, Fin.lt_def] at *
    have h1 := e.timestamp.sec.isLt
    have h2 := e.timestamp.nano.isLt
    have h3 := first.time.sec.isLt
    have h4 := mid.time.sec.isLt
    have h5 := last.time.sec.isLt
    split_ifs at * <;> omega
  · have hzero : e.timestamp.leapSeconds = 0 := by rw [DateTime.leapSeconds, if_neg hleap]
    simp only [hzero, ite_self, Int.zero_mul, Int.add_zero] at *
    omega

end P2PEnvelope

/-! ## Processed once -/

namespace Settings

variable {cfg : Settings} {c : ServerConfig} {i : Surroundings} {s : AppState} {a : ServerAction}
  {turn : ServerTurn} {e : P2PEnvelope}

/-- Whether an output says that an envelope is processed. -/
def receives (e : P2PEnvelope) : Output → Bool
  | .received e' => e' = e
  | _ => false

theorem receives_self (e : P2PEnvelope) : receives e (.received e) = true := decide_eq_true rfl

theorem countP_receives {words : List Output} (h : .received e ∉ words) :
    words.countP (receives e) = 0 := by
  rw [List.countP_eq_zero]
  intro o ho hreceives
  cases o with
  | received e' =>
    rw [of_decide_eq_true hreceives] at ho
    exact h ho
  | _ => cases hreceives

/-- The node keeps running, its clock does not go back, and the timestamps are such as the date
library holds. -/
structure Orderly (c : ServerConfig) (event : ServerEvent) : Prop where
  running : event ≠ .restart
  timely : ∀ k i, event = .run k i → ∀ j ∈ c.inputs, ¬ i.now.time.before j.now.time
  dated : ∀ k i e rest, event = .run k i →
    c.handlers[k]? = some (.begin (.message true e) :: rest) → e.timestamp.Representable

theorem orderly_arrive (c : ServerConfig) (actions : List ServerAction) :
    Orderly c (.arrive actions) where
  running := by simp
  timely := by
    intro k i hevent
    cases hevent
  dated := by
    intro k i e rest hevent
    cases hevent

/-- When a new id pushes the oldest out of the full cache, no envelope that was processed under
the oldest is fresh or between the two checks. -/
structure Remembers (c : ServerConfig) (event : ServerEvent) : Prop extends Orderly c event where
  remembers : ∀ k i e rest, event = .run k i → c.handlers[k]? = some (.replay e :: rest) →
    e.messageId ∉ c.state.seenMessages.seen →
    c.state.seenMessages.order.length = c.state.seenMessages.capacity →
    ∀ old, .received old ∈ c.said → c.state.seenMessages.order.head? = some old.messageId →
      ¬ old.Fresh maxEnvelopeSkew i.now.time ∧ ¬ System.Pending c (.gate old) ∧
        ¬ System.Pending c (.replay old)

/-- What an action can do to the cache: a new id comes in with the envelope that is processed. -/
theorem run_seen (h : cfg.run i s a = some turn) :
    (turn.state.seenMessages = s.seenMessages ∧ ∀ e, .received e ∉ turn.words) ∨
    ∃ e, a = .replay e ∧ e.messageId ∉ s.seenMessages.seen ∧
      turn = ⟨{ s with seenMessages := (s.seenMessages.insert e.messageId).2 }, [.payload e], [],
        [.received e]⟩ := by
  have hnew : ∀ {e : P2PEnvelope}, (s.seenMessages.insert e.messageId).1 = true →
      a = .replay e → ∃ e, a = .replay e ∧ e.messageId ∉ s.seenMessages.seen ∧
        turn = ⟨{ s with seenMessages := (s.seenMessages.insert e.messageId).2 }, [.payload e], [],
          [.received e]⟩ := by
    rintro e hinsert rfl
    refine ⟨e, rfl, fun hmem => ?_, ?_⟩
    · rw [SeenMessageCache.insert, dif_pos hmem] at hinsert
      cases hinsert
    · rw [run, if_pos hinsert] at h
      exact (Option.some.inj h).symm
  by_cases hreplay : ∃ e, a = .replay e ∧ (s.seenMessages.insert e.messageId).1 = true
  · obtain ⟨e, ha, hinsert⟩ := hreplay
    exact Or.inr (hnew hinsert ha)
  · refine Or.inl ⟨?_, fun e he => ?_⟩
    · generalize hafter : turn.state = after
      have heffect := run_effect h
      rw [hafter] at heffect
      cases heffect with
      | seen e hinsert => exact absurd ⟨e, rfl, hinsert⟩ hreplay
      | _ => rfl
    · have hsays := run_words h he
      cases hsays with
      | received e hinsert => exact absurd ⟨e, rfl, hinsert⟩ hreplay

/-- The envelope was fresh once and is no more, and nothing is left to do with it. -/
structure Expired (c : ServerConfig) (e : P2PEnvelope) : Prop where
  stale : ∃ i ∈ c.inputs, ¬ e.Fresh maxEnvelopeSkew i.now.time ∧
    ∃ j ∈ c.inputs, e.Fresh maxEnvelopeSkew j.now.time ∧ ¬ i.now.time.before j.now.time
  gate : ¬ System.Pending c (.gate e)
  replay : ¬ System.Pending c (.replay e)

/-- Envelopes past the first check were fresh; those that are processed are so once, and then
remembered until they have expired. -/
structure Once (c : ServerConfig) : Prop where
  fresh : ∀ e, System.Pending c (.gate e) ∨ System.Pending c (.replay e) ∨ .received e ∈ c.said →
    e.timestamp.Representable ∧ ∃ i ∈ c.inputs, e.Fresh maxEnvelopeSkew i.now.time
  once : ∀ e, c.said.countP (receives e) ≤ 1
  kept : ∀ e, .received e ∈ c.said → e.messageId ∈ c.state.seenMessages.seen ∨ Expired c e

section Step

variable {k : ℕ} {rest : List ServerAction}

/-- An envelope that waits for the first or second check after a turn is fresh or waited before. -/
theorem checked_after (htop : c.handlers[k]? = some (a :: rest))
    (hrun : cfg.run i c.state a = some turn)
    (h : System.Pending (System.after c k i rest turn) (.gate e) ∨
      System.Pending (System.after c k i rest turn) (.replay e)) :
    (System.Pending c (.gate e) ∨ System.Pending c (.replay e)) ∨
      (a = .begin (.message true e) ∧ e.Fresh maxEnvelopeSkew i.now.time) := by
  rcases h with h | h
  · rcases System.pending_after htop h with h | h
    · exact Or.inl (Or.inl h)
    · obtain ⟨ha, hvalid⟩ := (run_follows hrun h).of_gate
      exact Or.inr ⟨ha, (P2PEnvelope.validateWithIdentity_eq_ok.mp hvalid).2.2.2.1⟩
  · rcases System.pending_after htop h with h | h
    · exact Or.inl (Or.inr h)
    · have ha := (run_follows hrun h).of_replay
      subst ha
      exact Or.inl (Or.inl (System.pending_top htop))

/-- An expired envelope stays so. -/
theorem Expired.after (h : Expired c e) (he : e.timestamp.Representable)
    (htimely : ∀ j ∈ c.inputs, ¬ i.now.time.before j.now.time)
    (htop : c.handlers[k]? = some (a :: rest)) (hrun : cfg.run i c.state a = some turn) :
    Expired (System.after c k i rest turn) e := by
  obtain ⟨late, hlate, hstale, first, hfirst, hfresh, horder⟩ := h.stale
  have hchecked : ¬ (System.Pending (System.after c k i rest turn) (.gate e) ∨
      System.Pending (System.after c k i rest turn) (.replay e)) := by
    intro hpending
    rcases checked_after htop hrun hpending with (hgate | hreplay) | ⟨-, hagain⟩
    · exact h.gate hgate
    · exact h.replay hreplay
    · exact hstale (P2PEnvelope.fresh_between he horder (htimely late hlate) hfresh hagain)
  exact ⟨⟨late, List.mem_append_left _ hlate, hstale, first, List.mem_append_left _ hfirst, hfresh,
    horder⟩, fun h => hchecked (Or.inl h), fun h => hchecked (Or.inr h)⟩

/-- A turn that the cache remembers through processes no envelope again. -/
theorem Once.after (h : Once c) (hallowed : Remembers c (.run k i))
    (htop : c.handlers[k]? = some (a :: rest)) (hrun : cfg.run i c.state a = some turn) :
    Once (System.after c k i rest turn) := by
  have htimely := hallowed.timely k i rfl
  have hexpired : ∀ {e}, .received e ∈ c.said → Expired c e →
      Expired (System.after c k i rest turn) e := fun he hexp =>
    hexp.after (h.fresh _ (Or.inr (Or.inr he))).1 htimely htop hrun
  have hfresh : ∀ e, System.Pending (System.after c k i rest turn) (.gate e) ∨
      System.Pending (System.after c k i rest turn) (.replay e) →
      e.timestamp.Representable ∧ ∃ j ∈ c.inputs ++ [i], e.Fresh maxEnvelopeSkew j.now.time := by
    intro e he
    rcases checked_after htop hrun he with hbefore | ⟨rfl, hnow⟩
    · obtain ⟨hdated, j, hj, hfresh⟩ :=
        h.fresh e (hbefore.elim Or.inl fun h => Or.inr (Or.inl h))
      exact ⟨hdated, j, List.mem_append_left _ hj, hfresh⟩
    · exact ⟨hallowed.dated k i e rest rfl htop, i, by simp, hnow⟩
  rcases run_seen hrun with ⟨hseen, hsilent⟩ | ⟨new, rfl, hnew, rfl⟩
  · have hsaid : ∀ e, .received e ∈ c.said ++ turn.words → .received e ∈ c.said := by
      intro e he
      exact (List.mem_append.mp he).resolve_right (hsilent e)
    refine ⟨fun e he => ?_, fun e => ?_, fun e he => ?_⟩
    · rcases he with he | he | he
      · exact hfresh e (Or.inl he)
      · exact hfresh e (Or.inr he)
      · obtain ⟨hdated, j, hj, hfresh⟩ := h.fresh e (Or.inr (Or.inr (hsaid e he)))
        exact ⟨hdated, j, List.mem_append_left _ hj, hfresh⟩
    · show (c.said ++ turn.words).countP (receives e) ≤ 1
      rw [List.countP_append, countP_receives (hsilent e)]
      exact h.once e
    · rcases h.kept e (hsaid e he) with hmem | hexp
      · left
        show e.messageId ∈ turn.state.seenMessages.seen
        rw [hseen]
        exact hmem
      · exact Or.inr (hexpired (hsaid e he) hexp)
  · have hunseen : .received new ∉ c.said := by
      intro hmem
      rcases h.kept new hmem with hmem | hexp
      · exact hnew hmem
      · exact hexp.replay (System.pending_top htop)
    have hwaited : new.timestamp.Representable ∧ ∃ j ∈ c.inputs, new.Fresh maxEnvelopeSkew j.now.time :=
      h.fresh new (Or.inr (Or.inl (System.pending_top htop)))
    refine ⟨fun e he => ?_, fun e => ?_, fun e he => ?_⟩
    · rcases he with he | he | he
      · exact hfresh e (Or.inl he)
      · exact hfresh e (Or.inr he)
      · have hlooked : e.timestamp.Representable ∧
            ∃ j ∈ c.inputs, e.Fresh maxEnvelopeSkew j.now.time := by
          rcases List.mem_append.mp he with he | he
          · exact h.fresh e (Or.inr (Or.inr he))
          · cases List.mem_singleton.mp he
            exact hwaited
        obtain ⟨hdated, j, hj, hfresh⟩ := hlooked
        exact ⟨hdated, j, List.mem_append_left _ hj, hfresh⟩
    · show (c.said ++ [Output.received new]).countP (receives e) ≤ 1
      rw [List.countP_append, List.countP_singleton]
      by_cases hsame : new = e
      · subst hsame
        rw [countP_receives hunseen]
        split_ifs <;> decide
      · rw [if_neg (show ¬ receives e (.received new) = true from fun h =>
          hsame (of_decide_eq_true h))]
        exact h.once e
    · rcases List.mem_append.mp he with he | he
      · rcases h.kept e he with hmem | hexp
        · rcases SeenMessageCache.mem_insert_of_mem hnew hmem with hmem | ⟨hfull, hold⟩
          · exact Or.inl hmem
          · obtain ⟨hstale, hgate, hreplay⟩ :=
              hallowed.remembers k i new rest rfl htop hnew hfull e he hold
            obtain ⟨-, j, hj, hfresh⟩ := h.fresh e (Or.inr (Or.inr he))
            have hchecked : ¬ (System.Pending (System.after c k i rest _) (.gate e) ∨
                System.Pending (System.after c k i rest _) (.replay e)) := fun hpending => by
              rcases checked_after htop hrun hpending with (h | h) | ⟨ha, -⟩
              · exact hgate h
              · exact hreplay h
              · cases ha
            exact Or.inr ⟨⟨i, by simp [System.after], hstale, j, List.mem_append_left _ hj, hfresh,
              htimely j hj⟩, fun h => hchecked (Or.inl h), fun h => hchecked (Or.inr h)⟩
        · exact Or.inr (hexpired he hexp)
      · cases List.mem_singleton.mp he
        exact Or.inl (SeenMessageCache.mem_insert_self hnew)

end Step

/-- An envelope is processed at most once in every run in which the cache forgets no id while an
envelope that was processed under it is fresh. -/
theorem processed_once_of_remembered (h : cfg.Reachable Remembers c) (e : P2PEnvelope) :
    c.said.countP (receives e) ≤ 1 := by
  suffices honce : Once c from honce.once e
  refine h.invariant ?_ ?_
  · rintro c ⟨disk, state, -, rfl⟩
    refine ⟨fun e he => ?_, fun e => Nat.zero_le 1, fun e he => absurd he List.not_mem_nil⟩
    rcases he with ⟨_, hnone, -⟩ | ⟨_, hnone, -⟩ | he
    · exact absurd hnone List.not_mem_nil
    · exact absurd hnone List.not_mem_nil
    · exact absurd he List.not_mem_nil
  · intro c c' event _ ih hrequested hallowed hstep
    rcases System.step_cases hstep with ⟨actions, rfl, rfl⟩ |
      ⟨k, i, a, rest, turn, rfl, htop, hrun, rfl⟩ | ⟨state, rfl, -, -⟩
    · obtain ⟨request, rfl⟩ := hrequested
      refine ⟨fun e he => ih.fresh e ?_, ih.once, fun e he => ?_⟩
      · rcases he with he | he | he
        · exact Or.inl (pending_arrive (by simp) he)
        · exact Or.inr (Or.inl (pending_arrive (by simp) he))
        · exact Or.inr (Or.inr he)
      · rcases ih.kept e he with hmem | hexp
        · exact Or.inl hmem
        · exact Or.inr ⟨hexp.stale, fun h => hexp.gate (pending_arrive (by simp) h),
            fun h => hexp.replay (pending_arrive (by simp) h)⟩
    · exact ih.after hallowed htop hrun
    · exact absurd rfl hallowed.running

/-- The greeting of holder 7 is processed, and so once. -/
theorem processed_once_sample : ∃ c : ServerConfig,
    .received (Sample.sealEnvelope [] 7 Sample.greeting) ∈ c.said ∧
    c.said.countP (receives (Sample.sealEnvelope [] 7 Sample.greeting)) ≤ 1 := by
  have hremembers : ∀ {c : ServerConfig} {k : ℕ}, (∀ j ∈ c.inputs, j = Sample.quietMorning) →
      (∀ e rest, c.handlers[k]? = some (.begin (.message true e) :: rest) →
        e.timestamp = Sample.morning) →
      (c.state = Sample.firstState [] ∨ ∀ e rest, c.handlers[k]? ≠ some (.replay e :: rest)) →
      Remembers c (.run k Sample.quietMorning) := by
    intro c k hinputs hdated hroom
    refine ⟨⟨by simp, fun k' i hevent j hj => ?_, fun k' i e rest hevent htop => ?_⟩, ?_⟩
    · cases hevent
      rw [hinputs j hj]
      decide
    · cases hevent
      rw [hdated e rest htop]
      exact Sample.morning_representable
    · intro k' i e rest hevent htop _ hfull
      cases hevent
      rcases hroom with hroom | hroom
      · rw [hroom] at hfull
        exact absurd hfull (by show ¬ 0 = 8192; decide)
      · exact absurd htop (hroom e rest)
  have hruns := Sample.runs_firstConfig.ping rfl
    (Sample.validate_sealEnvelope [] 7 (e := Sample.greeting) rfl (by decide) rfl)
    (i := Sample.quietMorning) rfl (by simp [Sample.firstConfig, Sample.firstState,
      SeenMessageCache.new]) ⟨orderly_arrive _ _, fun _ _ _ _ hevent => by cases hevent⟩
    (hremembers (fun j hj => absurd hj List.not_mem_nil) (fun e rest htop => ?_) (Or.inl rfl))
    fun c' a rest ha hinputs hstate => hremembers
      (fun j hj => (hinputs j hj).resolve_left List.not_mem_nil) (fun e rest' htop => ?_)
      (hstate.imp_right fun hreplay e rest' htop => ?_)
  · exact ⟨_, by simp, processed_once_of_remembered (Sample.reachable_of_runs hruns) _⟩
  · cases htop
    rfl
  · rw [List.getElem?_concat_length, Option.some.injEq, List.cons.injEq] at htop
    rw [htop.1] at ha
    cases ha
  · rw [List.getElem?_concat_length, Option.some.injEq, List.cons.injEq] at htop
    exact absurd htop.1 (hreplay _)

end Settings

/-! ## A flood -/

namespace Sample

/-- The node has answered greetings in one morning, and remembers the ids given. -/
structure Greeted (order : List String) (c : ServerConfig) : Prop where
  runs : (settings []).Runs Settings.Orderly (firstConfig []) c
  book : c.state.peerBook = .withAllowList ∅
  morning : ∀ i ∈ c.inputs, i = quietMorning
  order : c.state.seenMessages.order = order
  capacity : c.state.seenMessages.capacity = 8192

/-- Another greeting of a holder, with a new id, is processed. -/
theorem Greeted.ping {order : List String} {c : ServerConfig} {e : P2PEnvelope} (n : UInt8)
    (h : Greeted order c) (hversion : e.protocolVersion = p2pProtocolVersion)
    (hid : ¬ blank e.messageId) (htime : e.timestamp = Sample.morning) (hping : e.payload = .ping)
    (hnew : e.messageId ∉ order) : ∃ c' response,
      Greeted ((if order.length = 8192 then order.tail else order) ++ [e.messageId]) c' ∧
      c'.said = c.said ++ [.received (sealEnvelope [] n e), response] := by
  have hunseen : e.messageId ∉ c.state.seenMessages.seen := by
    rw [c.state.seenMessages.mem_seen, h.order]
    exact hnew
  have horderly : ∀ {c' : ServerConfig} {k : ℕ}, (∀ j ∈ c'.inputs, j = quietMorning) →
      (∀ e' rest, c'.handlers[k]? = some (.begin (.message true e') :: rest) →
        e'.timestamp = Sample.morning) → Settings.Orderly c' (.run k quietMorning) := by
    intro c' k hinputs hdated
    refine ⟨by simp, fun k' i hevent j hj => ?_, fun k' i e' rest hevent htop => ?_⟩
    · cases hevent
      rw [hinputs j hj]
      decide
    · cases hevent
      rw [hdated e' rest htop]
      exact morning_representable
  have hruns := h.runs.ping (i := quietMorning) (e := sealEnvelope [] n e) hping
    (validate_sealEnvelope [] n hversion hid htime) (by rw [h.book]; rfl) hunseen
    (Settings.orderly_arrive _ _)
    (horderly h.morning fun e' rest htop => ?_)
    fun c' a rest ha hinputs _ => horderly (fun j hj => (hinputs j hj).elim (h.morning j) id)
      fun e' rest' htop => ?_
  · refine ⟨_, _, ⟨hruns, h.book, ?_, ?_, ?_⟩, rfl⟩
    · intro i hi
      rcases List.mem_append.mp hi with hi | hi
      · exact h.morning i hi
      · simpa using hi
    · show (c.state.seenMessages.insert e.messageId).2.order = _
      rw [SeenMessageCache.order_insert hunseen, h.order, h.capacity]
    · exact SeenMessageCache.capacity_insert.trans h.capacity
  · rw [List.getElem?_concat_length] at htop
    cases htop
    exact htime
  · rw [List.getElem?_concat_length, Option.some.injEq, List.cons.injEq] at htop
    rw [htop.1] at ha
    cases ha

/-- The victim of the flood. -/
def victim : P2PEnvelope := sealEnvelope [] 7 greeting

/-- A greeting of the flood. -/
def flooding (n : ℕ) : P2PEnvelope := .new "" (floodId n) Sample.morning .ping

/-- An id of the flood is new when fewer have been sent. -/
theorem flooding_new (n : ℕ) : (flooding n).messageId ∉ "hello" :: (List.range n).map floodId := by
  intro hmem
  rcases List.mem_cons.mp hmem with hmem | hmem
  · exact floodId_ne_hello n hmem
  · obtain ⟨m, hm, heq⟩ := List.mem_map.mp hmem
    rw [floodId_injective heq] at hm
    exact absurd (List.mem_range.mp hm) (lt_irrefl n)

/-- As long as the cache has room, the victim's id is the oldest in it. -/
theorem exists_flooded (n : ℕ) (hn : n ≤ 8191) : ∃ c,
    Greeted ("hello" :: (List.range n).map floodId) c ∧ .received victim ∈ c.said := by
  induction n with
  | zero =>
    have hstart : Greeted [] (firstConfig []) :=
      ⟨runs_firstConfig, rfl, fun i hi => absurd hi List.not_mem_nil, rfl, rfl⟩
    obtain ⟨c, response, hc, hsaid⟩ := hstart.ping 7 (e := greeting) rfl (by decide) rfl rfl
      List.not_mem_nil
    exact ⟨c, hc, by rw [hsaid]; exact List.mem_append_right _ List.mem_cons_self⟩
  | succ n ih =>
    obtain ⟨c, hc, hvictim⟩ := ih (by omega)
    obtain ⟨c', response, hc', hsaid⟩ := hc.ping 8 (e := flooding n) rfl (floodId_written n) rfl
      rfl (flooding_new n)
    rw [if_neg (by simp; omega), List.cons_append] at hc'
    refine ⟨c', ?_, by rw [hsaid]; exact List.mem_append_left _ hvictim⟩
    rw [List.range_succ, List.map_append]
    exact hc'

end Sample

namespace Settings

/-- A greeting is processed again after a flood of 8192 others, all within one second. -/
theorem processed_twice : ∃ (c : ServerConfig) (e : P2PEnvelope),
    (Sample.settings []).Reachable Orderly c ∧
    (∀ i ∈ c.inputs, e.Fresh maxEnvelopeSkew i.now.time) ∧ 2 ≤ c.said.countP (receives e) := by
  obtain ⟨c, hc, hvictim⟩ := Sample.exists_flooded 8191 le_rfl
  obtain ⟨c₁, r₁, hc₁, hsaid₁⟩ := hc.ping 8 (e := Sample.flooding 8191) rfl
    (Sample.floodId_written 8191) rfl rfl (Sample.flooding_new 8191)
  rw [if_pos (by simp), List.tail_cons] at hc₁
  obtain ⟨c₂, r₂, hc₂, hsaid₂⟩ := hc₁.ping 7 (e := Sample.greeting) rfl (by decide) rfl rfl (by
    intro hmem
    rcases List.mem_append.mp hmem with hmem | hmem
    · obtain ⟨m, -, heq⟩ := List.mem_map.mp hmem
      exact Sample.floodId_ne_hello m heq
    · exact Sample.floodId_ne_hello 8191 (List.mem_singleton.mp hmem).symm)
  refine ⟨c₂, Sample.victim, Sample.reachable_of_runs hc₂.runs, fun i hi => ?_, ?_⟩
  · rw [hc₂.morning i hi]
    show (Sample.morning.numSecondsSince Sample.morning).natAbs ≤ maxEnvelopeSkew
    decide
  · have hone : 1 ≤ c.said.countP (receives Sample.victim) :=
      List.countP_pos_iff.mpr ⟨_, hvictim, receives_self _⟩
    have hagain : 1 ≤ [Output.received Sample.victim, r₂].countP (receives Sample.victim) :=
      List.countP_pos_iff.mpr ⟨_, List.mem_cons_self, receives_self _⟩
    have hsaid : c₂.said = c₁.said ++ [.received Sample.victim, r₂] := hsaid₂
    rw [hsaid, hsaid₁, List.countP_append, List.countP_append]
    omega

end Settings
