/-
# What discovery spreads

Over every run of a network of address books a node comes to know what is announced to it and what
the peers that it asks in a finished round show it: the first few addresses of their lists.  Lists
only grow at their ends, so once a list has that many addresses, what it shows is settled, and what
is announced to it later goes no further.
-/
import Mathlib.Tactic
import Hikmalayer.Model.Discovery

/-! ## Address books -/

variable {peers candidates learned l : List String} {own : Option String} {c : String}

theorem prefix_addPeers : peers <+: addPeers peers candidates := by
  induction candidates generalizing peers with
  | nil => exact List.prefix_rfl
  | cons candidate rest ih =>
    refine List.IsPrefix.trans ?_ ih
    show peers <+: if candidate ∈ peers then peers else peers ++ [candidate]
    split
    · exact List.prefix_rfl
    · exact List.prefix_append _ _

theorem mem_addPeers : c ∈ addPeers peers candidates ↔ c ∈ peers ∨ c ∈ candidates := by
  induction candidates generalizing peers with
  | nil => simp [addPeers]
  | cons candidate rest ih =>
    show c ∈ addPeers (if candidate ∈ peers then peers else peers ++ [candidate]) rest ↔ _
    rw [ih, List.mem_cons]
    split
    · next hknown =>
      constructor
      · rintro (h | h)
        · exact .inl h
        · exact .inr (.inr h)
      · rintro (h | rfl | h)
        · exact .inl h
        · exact .inl hknown
        · exact .inr h
    · rw [List.mem_append, List.mem_singleton, or_assoc]

theorem nodup_addPeers (h : peers.Nodup) : (addPeers peers candidates).Nodup := by
  induction candidates generalizing peers with
  | nil => exact h
  | cons candidate rest ih =>
    refine ih ?_
    show (if candidate ∈ peers then peers else peers ++ [candidate]).Nodup
    split
    · exact h
    · next hnew =>
      rw [← List.concat_eq_append]
      exact h.concat hnew

/-- An address that a list offers: trimmed, not empty and not the own one. -/
def Offered (own : Option String) (l : List String) (c : String) : Prop :=
  c ≠ "" ∧ some c ≠ own ∧ ∃ raw ∈ l, trim raw = c

/-- What was learned, and what the list offers besides the known peers. -/
theorem mem_learnFrom : c ∈ learnFrom own peers learned l ↔
    c ∈ learned ∨ c ∉ peers ∧ Offered own l c := by
  induction l generalizing learned with
  | nil => simp [learnFrom, Offered]
  | cons raw rest ih =>
    have hcons : Offered own (raw :: rest) c ↔
        (trim raw = c ∧ c ≠ "" ∧ some c ≠ own) ∨ Offered own rest c := by
      simp only [Offered, List.mem_cons, exists_eq_or_imp]
      tauto
    rw [learnFrom, hcons]
    split
    · next hskip =>
      rw [ih]
      constructor
      · rintro (h | ⟨hnew, h⟩)
        · exact .inl h
        · exact .inr ⟨hnew, .inr h⟩
      · rintro (h | ⟨hnew, ⟨rfl, hempty, hown⟩ | h⟩)
        · exact .inl h
        · rcases hskip with h | h | h | h
          · exact absurd h hempty
          · exact absurd h hown
          · exact absurd h hnew
          · exact .inl h
        · exact .inr ⟨hnew, h⟩
    · next hfresh =>
      simp only [not_or] at hfresh
      obtain ⟨hempty, hown, hnew, -⟩ := hfresh
      rw [ih, List.mem_append, List.mem_singleton]
      constructor
      · rintro ((h | rfl) | ⟨hother, h⟩)
        · exact .inl h
        · exact .inr ⟨hnew, .inl ⟨rfl, hempty, hown⟩⟩
        · exact .inr ⟨hother, .inr h⟩
      · rintro (h | ⟨hother, ⟨rfl, -⟩ | h⟩)
        · exact .inl (.inl h)
        · exact .inl (.inr rfl)
        · exact .inr ⟨hother, h⟩

namespace AddressBooks

variable {ι : Type} [DecidableEq ι] {own : ι → Option String} {s t t' u : AddressBooks ι}
  {events pre : List (DiscoveryEvent ι)} {e : DiscoveryEvent ι} {i j : ι} {r : Round}

/-! ## Steps -/

/-- What an event does. -/
theorem step_cases (h : s.step own e = some t) :
    (∃ i a, e = .announce i a ∧
      t = { s with book := Function.update s.book i (addPeers (s.book i) [a]) }) ∨
    (∃ i, e = .start i ∧ s.round i = none ∧
      t = { s with round := Function.update s.round i (some (.start (s.book i))) }) ∨
    (∃ i r peer, e = .ask i peer ∧ s.round i = some r ∧ t = { s with
      round := Function.update s.round i (some (r.hear (own i) (peer.map s.book))) }) ∨
    (∃ i r, e = .merge i ∧ s.round i = some r ∧
      t = ⟨Function.update s.book i (addPeers (s.book i) r.learned),
        Function.update s.round i none⟩) := by
  cases e with
  | announce i a =>
    simp only [step] at h
    split at h
    · cases h
    · exact .inl ⟨i, a, rfl, (Option.some.inj h).symm⟩
  | start i =>
    simp only [step] at h
    split at h
    · next hidle => exact .inr (.inl ⟨i, rfl, hidle.1, (Option.some.inj h).symm⟩)
    · cases h
  | ask i peer =>
    simp only [step] at h
    split at h
    · cases h
    · next r hr =>
      split at h
      · cases h
      · exact .inr (.inr (.inl ⟨i, r, peer, rfl, hr, (Option.some.inj h).symm⟩))
  | merge i =>
    simp only [step] at h
    split at h
    · cases h
    · next r hr =>
      split at h
      · exact .inr (.inr (.inr ⟨i, r, rfl, hr, (Option.some.inj h).symm⟩))
      · cases h

theorem step_book (h : s.step own e = some t) (i : ι) :
    ∃ candidates, t.book i = addPeers (s.book i) candidates := by
  obtain ⟨k, a, -, rfl⟩ | ⟨k, -, -, rfl⟩ | ⟨k, r, peer, -, -, rfl⟩ | ⟨k, r, -, -, rfl⟩ :=
    step_cases h
  · by_cases hk : i = k
    · exact ⟨[a], by rw [hk]; exact Function.update_self ..⟩
    · exact ⟨[], Function.update_of_ne hk ..⟩
  · exact ⟨[], rfl⟩
  · exact ⟨[], rfl⟩
  · by_cases hk : i = k
    · exact ⟨r.learned, by rw [hk]; exact Function.update_self ..⟩
    · exact ⟨[], Function.update_of_ne hk ..⟩

theorem run_concat : s.run own (events ++ [e]) = (s.run own events).bind fun n => n.step own e := by
  simp only [run, List.foldlM_append, List.foldlM_cons, List.foldlM_nil]
  cases events.foldlM (step own) s <;> simp

theorem run_concat_eq_some : s.run own (events ++ [e]) = some t ↔
    ∃ u, s.run own events = some u ∧ u.step own e = some t := by
  rw [run_concat, Option.bind_eq_some_iff]

/-- Along a run a property is kept when the steps keep it. -/
theorem run_induct {P : List (DiscoveryEvent ι) → AddressBooks ι → Prop} (hnil : P [] s)
    (hstep : ∀ {events e t t'}, s.run own events = some t → P events t → t.step own e = some t' →
      P (events ++ [e]) t') : ∀ {events t}, s.run own events = some t → P events t := by
  intro events
  induction events using List.reverseRecOn with
  | nil =>
    intro t h
    rw [← Option.some.inj h]
    exact hnil
  | append_singleton events e ih =>
    intro t h
    obtain ⟨u, hu, he⟩ := run_concat_eq_some.mp h
    exact hstep hu (ih hu) he

/-- A list only grows, at its end, and keeps its addresses apart. -/
theorem run_book (h : s.run own events = some t) (i : ι) :
    s.book i <+: t.book i ∧ ((s.book i).Nodup → (t.book i).Nodup) := by
  refine run_induct (P := fun _ t => s.book i <+: t.book i ∧ ((s.book i).Nodup → (t.book i).Nodup))
    ⟨List.prefix_rfl, id⟩ ?_ h
  rintro events e t t' - ⟨hgrows, hnodup⟩ he
  obtain ⟨candidates, hbook⟩ := step_book he i
  rw [hbook]
  exact ⟨hgrows.trans prefix_addPeers, fun h => nodup_addPeers (hnodup h)⟩

/-! ## What is shown -/

/-- A node shows the asker an address. -/
def Shows (n : AddressBooks ι) (own : Option String) (j : ι) (c : String) : Prop :=
  Offered own ((n.book j).take maxLearnedPeersPerTick) c

/-- What a list with enough addresses shows is settled. -/
theorem shows_settled (h : s.run own events = some t)
    (hfull : maxLearnedPeersPerTick ≤ (s.book j).length) {o : Option String} :
    t.Shows o j c ↔ s.Shows o j c := by
  obtain ⟨rest, hrest⟩ := (run_book h j).1
  rw [Shows, Shows, ← hrest, List.take_append_of_le_length hfull]

/-- Node `i` has asked `j`, and what happened before and after satisfies `P`. -/
def AskedWith (events : List (DiscoveryEvent ι)) (i j : ι)
    (P : List (DiscoveryEvent ι) → List (DiscoveryEvent ι) → Prop) : Prop :=
  ∃ before after, events = before ++ .ask i (some j) :: after ∧ P before after

/-- Node `i` was shown an address in a round that is not merged. -/
def Asked (own : ι → Option String) (s : AddressBooks ι) (events : List (DiscoveryEvent ι)) (i : ι)
    (c : String) : Prop :=
  ∃ j, AskedWith events i j fun before after => .merge i ∉ after ∧
    ∃ u, s.run own before = some u ∧ u.Shows (own i) j c

/-- Node `i` was shown an address in a round that is merged. -/
def Heard (own : ι → Option String) (s : AddressBooks ι) (events : List (DiscoveryEvent ι)) (i : ι)
    (c : String) : Prop :=
  ∃ j, AskedWith events i j fun before after => .merge i ∈ after ∧
    ∃ u, s.run own before = some u ∧ u.Shows (own i) j c

omit [DecidableEq ι] in
theorem askedWith_concat {P : List (DiscoveryEvent ι) → List (DiscoveryEvent ι) → Prop} :
    AskedWith (events ++ [e]) i j P ↔ e = .ask i (some j) ∧ P events [] ∨
      AskedWith events i j fun before after => P before (after ++ [e]) := by
  constructor
  · rintro ⟨before, after, hsplit, hP⟩
    rcases List.eq_nil_or_concat after with rfl | ⟨after, last, rfl⟩
    · obtain ⟨rfl, he⟩ := List.append_inj' hsplit rfl
      exact .inl ⟨List.head_eq_of_cons_eq he, hP⟩
    · rw [List.concat_eq_append, ← List.cons_append, ← List.append_assoc] at hsplit
      obtain ⟨rfl, he⟩ := List.append_inj' hsplit rfl
      rw [List.concat_eq_append, ← List.head_eq_of_cons_eq he] at hP
      exact .inr ⟨before, after, rfl, hP⟩
  · rintro (⟨rfl, hP⟩ | ⟨before, after, rfl, hP⟩)
    · exact ⟨events, [], rfl, hP⟩
    · exact ⟨before, after ++ [e], by rw [List.append_assoc, List.cons_append], hP⟩

theorem asked_concat : Asked own s (events ++ [e]) i c ↔
    (∃ j u, e = .ask i (some j) ∧ s.run own events = some u ∧ u.Shows (own i) j c) ∨
      Asked own s events i c ∧ e ≠ .merge i := by
  simp only [Asked, askedWith_concat]
  constructor
  · rintro ⟨j, ⟨he, -, u, hu, hshows⟩ | ⟨before, after, hsplit, hnone, hshown⟩⟩
    · exact .inl ⟨j, u, he, hu, hshows⟩
    · rw [List.mem_append, List.mem_singleton, not_or] at hnone
      exact .inr ⟨⟨j, before, after, hsplit, hnone.1, hshown⟩, fun h => hnone.2 h.symm⟩
  · rintro (⟨j, u, he, hu, hshows⟩ | ⟨⟨j, before, after, hsplit, hnone, hshown⟩, he⟩)
    · exact ⟨j, .inl ⟨he, List.not_mem_nil, u, hu, hshows⟩⟩
    · refine ⟨j, .inr ⟨before, after, hsplit, ?_, hshown⟩⟩
      rw [List.mem_append, List.mem_singleton]
      rintro (h | h)
      · exact hnone h
      · exact he h.symm

theorem heard_concat : Heard own s (events ++ [e]) i c ↔
    Heard own s events i c ∨ e = .merge i ∧ Asked own s events i c := by
  simp only [Heard, Asked, askedWith_concat]
  constructor
  · rintro ⟨j, ⟨-, hmerge, -⟩ | ⟨before, after, hsplit, hmerge, hshown⟩⟩
    · exact absurd hmerge List.not_mem_nil
    · by_cases hearlier : .merge i ∈ after
      · exact .inl ⟨j, before, after, hsplit, hearlier, hshown⟩
      · rw [List.mem_append, List.mem_singleton, or_iff_right hearlier] at hmerge
        exact .inr ⟨hmerge.symm, j, before, after, hsplit, hearlier, hshown⟩
  · rintro (⟨j, before, after, hsplit, hmerge, hshown⟩ | ⟨rfl, j, before, after, hsplit, -, hshown⟩)
    · exact ⟨j, .inr ⟨before, after, hsplit, List.mem_append_left _ hmerge, hshown⟩⟩
    · exact ⟨j, .inr ⟨before, after, hsplit, List.mem_append_right _ (List.mem_singleton_self _),
        hshown⟩⟩

/-! ## What is known -/

/-- What a run has brought from idle nodes. -/
structure Discovered (own : ι → Option String) (s : AddressBooks ι)
    (events : List (DiscoveryEvent ι)) (t : AddressBooks ι) : Prop where
  known : ∀ i c, c ∈ t.book i ↔
    c ∈ s.book i ∨ .announce i c ∈ events ∨ Heard own s events i c
  idle : ∀ i, t.round i = none → ∀ c, ¬ Asked own s events i c
  peers : ∀ i r, t.round i = some r → ∀ c ∈ r.peers, c ∈ t.book i
  learned : ∀ i r, t.round i = some r → ∀ c ∈ r.learned, Asked own s events i c
  asked : ∀ i r, t.round i = some r → ∀ c, Asked own s events i c → c ∈ r.peers ∨ c ∈ r.learned

theorem not_asked_nil : ¬ Asked own s [] i c := by
  rintro ⟨j, before, after, hsplit, -⟩
  exact absurd hsplit.symm (List.append_ne_nil_of_right_ne_nil _ (List.cons_ne_nil _ _))

theorem not_heard_nil : ¬ Heard own s [] i c := by
  rintro ⟨j, before, after, hsplit, -⟩
  exact absurd hsplit.symm (List.append_ne_nil_of_right_ne_nil _ (List.cons_ne_nil _ _))

theorem Discovered.nil (hquiet : ∀ i, s.round i = none) : Discovered own s [] s where
  known i c := by
    rw [or_iff_right List.not_mem_nil, or_iff_left not_heard_nil]
  idle _ _ _ := not_asked_nil
  peers i r h := by
    rw [hquiet i] at h
    cases h
  learned i r h := by
    rw [hquiet i] at h
    cases h
  asked _ _ _ _ h := absurd h not_asked_nil

/-- Where an updated round comes from. -/
theorem round_of_update {f : ι → Option Round} {v : Option Round} {k : ι}
    (h : Function.update f i v k = some r) : k ≠ i ∧ f k = some r ∨ k = i ∧ v = some r := by
  by_cases hk : k = i
  · rw [hk, Function.update_self] at h
    exact .inr ⟨hk, h⟩
  · rw [Function.update_of_ne hk] at h
    exact .inl ⟨hk, h⟩

theorem Discovered.announce {a : String} (h : Discovered own s events t) :
    Discovered own s (events ++ [.announce i a])
      { t with book := Function.update t.book i (addPeers (t.book i) [a]) } := by
  have hasked : ∀ k c, Asked own s (events ++ [.announce i a]) k c ↔ Asked own s events k c := by
    intro k c
    rw [asked_concat]
    simp
  have hheard : ∀ k c, Heard own s (events ++ [.announce i a]) k c ↔ Heard own s events k c := by
    intro k c
    rw [heard_concat]
    simp
  have hbook : ∀ k c, c ∈ Function.update t.book i (addPeers (t.book i) [a]) k ↔
      c ∈ t.book k ∨ k = i ∧ c = a := by
    intro k c
    by_cases hk : k = i
    · rw [hk, Function.update_self, mem_addPeers, List.mem_singleton]
      simp
    · rw [Function.update_of_ne hk]
      simp [hk]
  refine ⟨fun k c => ?_, fun k hk c => ?_, fun k r hr c hc => ?_, fun k r hr c hc => ?_,
    fun k r hr c hc => ?_⟩
  · rw [hbook, h.known, hheard, List.mem_append, List.mem_singleton, DiscoveryEvent.announce.injEq]
    tauto
  · rw [hasked]
    exact h.idle k hk c
  · exact (hbook k c).mpr (.inl (h.peers k r hr c hc))
  · exact (hasked k c).mpr (h.learned k r hr c hc)
  · exact h.asked k r hr c ((hasked k c).mp hc)

theorem Discovered.start (h : Discovered own s events t) (hidle : t.round i = none) :
    Discovered own s (events ++ [.start i])
      { t with round := Function.update t.round i (some (.start (t.book i))) } := by
  have hasked : ∀ k c, Asked own s (events ++ [.start i]) k c ↔ Asked own s events k c := by
    intro k c
    rw [asked_concat]
    simp
  refine ⟨fun k c => ?_, fun k hk c => ?_, fun k r hr c hc => ?_, fun k r hr c hc => ?_,
    fun k r hr c hc => ?_⟩
  · rw [h.known, heard_concat]
    simp
  · rw [hasked]
    refine h.idle k ?_ c
    by_cases hki : k = i
    · rw [hki, hidle]
    · rw [← hk]
      exact (Function.update_of_ne hki ..).symm
  · rcases round_of_update hr with ⟨-, hr⟩ | ⟨rfl, hr⟩
    · exact h.peers k r hr c hc
    · cases hr
      exact hc
  · rcases round_of_update hr with ⟨-, hr⟩ | ⟨rfl, hr⟩
    · exact (hasked k c).mpr (h.learned k r hr c hc)
    · cases hr
      exact absurd hc List.not_mem_nil
  · rw [hasked] at hc
    rcases round_of_update hr with ⟨-, hr⟩ | ⟨rfl, -⟩
    · exact h.asked k r hr c hc
    · exact absurd hc (h.idle k hidle c)

omit [DecidableEq ι] in
theorem mem_hear {peer : Option ι} : c ∈ (r.hear (own i) (peer.map t.book)).learned ↔
    c ∈ r.learned ∨ c ∉ r.peers ∧ ∃ j, peer = some j ∧ t.Shows (own i) j c := by
  cases peer with
  | none => simp [Round.hear]
  | some j =>
    show c ∈ learnFrom (own i) r.peers r.learned _ ↔ _
    rw [mem_learnFrom]
    simp [Shows]

theorem Discovered.ask {peer : Option ι} (h : Discovered own s events t)
    (hrun : s.run own events = some t) (hr : t.round i = some r) :
    Discovered own s (events ++ [.ask i peer]) { t with
      round := Function.update t.round i (some (r.hear (own i) (peer.map t.book))) } := by
  have hasked : ∀ k c, Asked own s (events ++ [.ask i peer]) k c ↔
      (k = i ∧ ∃ j, peer = some j ∧ t.Shows (own i) j c) ∨ Asked own s events k c := by
    intro k c
    rw [asked_concat, hrun]
    constructor
    · rintro (⟨j, u, he, hu, hshows⟩ | ⟨hasked, -⟩)
      · cases he
        cases hu
        exact .inl ⟨rfl, j, rfl, hshows⟩
      · exact .inr hasked
    · rintro (⟨rfl, j, rfl, hshows⟩ | hasked)
      · exact .inl ⟨j, t, rfl, rfl, hshows⟩
      · exact .inr ⟨hasked, by simp⟩
  refine ⟨fun k c => ?_, fun k hk c => ?_, fun k q hq c hc => ?_, fun k q hq c hc => ?_,
    fun k q hq c hc => ?_⟩
  · rw [h.known, heard_concat]
    simp
  · dsimp only at hk
    by_cases hki : k = i
    · rw [hki, Function.update_self] at hk
      cases hk
    · rw [Function.update_of_ne hki] at hk
      rw [hasked]
      rintro (⟨h', -⟩ | h')
      · exact hki h'
      · exact h.idle k hk c h'
  · rcases round_of_update hq with ⟨-, hq⟩ | ⟨rfl, hq⟩
    · exact h.peers k q hq c hc
    · cases hq
      exact h.peers k r hr c hc
  · rw [hasked]
    rcases round_of_update hq with ⟨-, hq⟩ | ⟨rfl, hq⟩
    · exact .inr (h.learned k q hq c hc)
    · cases hq
      rcases mem_hear.mp hc with hc | ⟨-, hshown⟩
      · exact .inr (h.learned k r hr c hc)
      · exact .inl ⟨rfl, hshown⟩
  · rw [hasked] at hc
    rcases round_of_update hq with ⟨hk, hq⟩ | ⟨rfl, hq⟩
    · rcases hc with ⟨h', -⟩ | hc
      · exact absurd h' hk
      · exact h.asked k q hq c hc
    · cases hq
      rw [mem_hear]
      -- What is shown is new to the round, or one of the peers that it started from.
      rcases hc with ⟨-, hshown⟩ | hc
      · by_cases hpeer : c ∈ r.peers
        · exact .inl hpeer
        · exact .inr (.inr ⟨hpeer, hshown⟩)
      · rcases h.asked k r hr c hc with hpeer | hlearned
        · exact .inl hpeer
        · exact .inr (.inl hlearned)

theorem Discovered.merge (h : Discovered own s events t) (hr : t.round i = some r) :
    Discovered own s (events ++ [.merge i])
      ⟨Function.update t.book i (addPeers (t.book i) r.learned),
        Function.update t.round i none⟩ := by
  have hasked : ∀ k c, Asked own s (events ++ [.merge i]) k c ↔
      Asked own s events k c ∧ k ≠ i := by
    intro k c
    rw [asked_concat]
    simp [eq_comm]
  have hround : ∀ {k q}, Function.update t.round i none k = some q →
      k ≠ i ∧ t.round k = some q := by
    intro k q hq
    rcases round_of_update hq with hq | ⟨-, hq⟩
    · exact hq
    · cases hq
  refine ⟨fun k c => ?_, fun k hk c => ?_, fun k q hq c hc => ?_, fun k q hq c hc => ?_,
    fun k q hq c hc => ?_⟩
  · have hannounced : .announce k c ∈ events ++ [.merge i] ↔ .announce k c ∈ events := by simp
    rw [hannounced, heard_concat]
    dsimp only
    by_cases hk : k = i
    · subst hk
      have hknown := h.known k c
      rw [Function.update_self, mem_addPeers]
      constructor
      · rintro (hc | hc)
        · rcases hknown.mp hc with hc | hc | hc
          · exact .inl hc
          · exact .inr (.inl hc)
          · exact .inr (.inr (.inl hc))
        · exact .inr (.inr (.inr ⟨rfl, h.learned k r hr c hc⟩))
      · rintro (hc | hc | hc | ⟨-, hc⟩)
        · exact .inl (hknown.mpr (.inl hc))
        · exact .inl (hknown.mpr (.inr (.inl hc)))
        · exact .inl (hknown.mpr (.inr (.inr hc)))
        · rcases h.asked k r hr c hc with hpeer | hlearned
          · exact .inl (h.peers k r hr c hpeer)
          · exact .inr hlearned
    · rw [Function.update_of_ne hk, h.known]
      simp [Ne.symm hk]
  · rw [hasked]
    rintro ⟨hc, hki⟩
    dsimp only at hk
    rw [Function.update_of_ne hki] at hk
    exact h.idle k hk c hc
  · obtain ⟨hk, hq⟩ := hround hq
    show c ∈ Function.update t.book i (addPeers (t.book i) r.learned) k
    rw [Function.update_of_ne hk]
    exact h.peers k q hq c hc
  · obtain ⟨hk, hq⟩ := hround hq
    exact (hasked k c).mpr ⟨h.learned k q hq c hc, hk⟩
  · exact h.asked k q (hround hq).2 c ((hasked k c).mp hc).1

theorem run_discovered (hquiet : ∀ i, s.round i = none) (h : s.run own events = some t) :
    Discovered own s events t := by
  refine run_induct (P := Discovered own s) (.nil hquiet) ?_ h
  intro events e t t' hrun hd he
  obtain ⟨i, a, rfl, rfl⟩ | ⟨i, rfl, hidle, rfl⟩ | ⟨i, r, peer, rfl, hr, rfl⟩ |
    ⟨i, r, rfl, hr, rfl⟩ := step_cases he
  · exact hd.announce
  · exact hd.start hidle
  · exact hd.ask hrun hr
  · exact hd.merge hr

theorem exists_run_of_split {after : List (DiscoveryEvent ι)}
    (h : s.run own (pre ++ after) = some t) : ∃ u, s.run own pre = some u := by
  rw [run, List.foldlM_append] at h
  obtain ⟨u, hu, -⟩ := Option.bind_eq_some_iff.mp h
  exact ⟨u, hu⟩

/-- Once every list has as many addresses as it shows, a node knows after a run what it knew before,
what was announced to it, and what the peers that it asked in a finished round showed before the
run. -/
theorem discovery_exact (hquiet : ∀ i, s.round i = none)
    (hfull : ∀ j, maxLearnedPeersPerTick ≤ (s.book j).length) (hrun : s.run own events = some t) :
    (∀ i, s.book i <+: t.book i ∧ ((s.book i).Nodup → (t.book i).Nodup)) ∧
      ∀ i c, c ∈ t.book i ↔ c ∈ s.book i ∨ .announce i c ∈ events ∨
        ∃ j, AskedWith events i j (fun _ after => .merge i ∈ after) ∧ s.Shows (own i) j c := by
  refine ⟨run_book hrun, fun i c => ?_⟩
  rw [(run_discovered hquiet hrun).known]
  have hheard : Heard own s events i c ↔
      ∃ j, AskedWith events i j (fun _ after => .merge i ∈ after) ∧ s.Shows (own i) j c := by
    constructor
    · rintro ⟨j, before, after, hsplit, hmerge, u, hu, hshows⟩
      exact ⟨j, ⟨before, after, hsplit, hmerge⟩, (shows_settled hu (hfull j)).mp hshows⟩
    · rintro ⟨j, ⟨before, after, rfl, hmerge⟩, hshows⟩
      obtain ⟨u, hu⟩ := exists_run_of_split hrun
      exact ⟨j, before, after, rfl, hmerge, u, hu, (shows_settled hu (hfull j)).mpr hshows⟩
  rw [hheard]

end AddressBooks

namespace Sample

/-- Two nodes, each of which knows eight addresses. -/
def addressBooks : AddressBooks Bool where
  book node := if node then ["b1", "b2", "b3", "b4", "b5", "b6", "b7", "b8"]
    else ["a1", "a2", "a3", "a4", "a5", "a6", "a7", "a8"]
  round _ := none

/-- A latecomer announces itself to the second node, and then the first one runs a round in which only
the second one answers. -/
def discoveries : List (DiscoveryEvent Bool) :=
  [.announce true "late", .start false, .ask false (some true)] ++
    List.replicate 7 (.ask false none) ++ [.merge false]

end Sample

namespace AddressBooks

/-- The first toy node learns what the second one shows, and not the latecomer. -/
theorem discovery_exact_sample : ∃ t,
    Sample.addressBooks.run (fun _ => none) Sample.discoveries = some t ∧
      "b8" ∈ t.book false ∧ "late" ∈ t.book true ∧ "late" ∉ t.book false := by
  obtain ⟨t, ht⟩ := Option.isSome_iff_exists.mp
    (show (Sample.addressBooks.run (fun _ => none) Sample.discoveries).isSome = true by
      decide +kernel)
  obtain ⟨-, hknown⟩ := discovery_exact (fun _ => rfl)
    (fun j => by cases j <;> exact le_refl 8) ht
  refine ⟨t, ht, ?_, ?_, ?_⟩
  · refine (hknown false "b8").mpr (.inr (.inr ⟨true, ⟨[.announce true "late", .start false],
      List.replicate 7 (.ask false none) ++ [.merge false], rfl, by decide⟩, by decide, by decide,
      "b8", by decide, ?_⟩))
    decide +kernel
  · exact (hknown true "late").mpr (.inr (.inl (by decide)))
  · rw [hknown]
    rintro (h | h | ⟨j, -, -, -, raw, hraw, htrim⟩)
    · exact absurd h (by decide)
    · exact absurd h (by decide)
    · have hnone : ∀ raw ∈ Sample.addressBooks.book true ++ Sample.addressBooks.book false,
          trim raw ≠ "late" := by decide +kernel
      refine hnone raw ?_ htrim
      cases j
      · exact List.mem_append_right _ (List.mem_of_mem_take hraw)
      · exact List.mem_append_left _ (List.mem_of_mem_take hraw)

end AddressBooks

/-! ## The server -/

namespace Settings

variable {ι : Type} [DecidableEq ι] {cfg : Settings} {surroundings : Surroundings}
  {server : AppState} {own : ι → Option String} {s t : AddressBooks ι} {i : ι}

/-- A server takes an announcement in as its address book does. -/
theorem runs_announce {e : P2PEnvelope} {address : String} (hbook : server.peers = s.book i)
    (hpayload : e.payload = .peerAnnounce address)
    (h : s.step own (.announce i address) = some t) :
    ∃ turn, cfg.run surroundings server (.payload e) = some turn ∧
      turn.state = { server with peers := t.book i } := by
  simp only [AddressBooks.step] at h
  split at h
  · cases h
  · next hblank =>
    have hmerged : t.book i = addPeers server.peers [address] := by
      rw [← Option.some.inj h, hbook]
      exact Function.update_self ..
    rw [hmerged]
    show ∃ turn, runPayload cfg server e = some turn ∧ _
    rw [runPayload, hpayload]
    simp only [if_neg hblank, Option.some.injEq, exists_eq_left']
    rfl

/-- A server merges what a round has learned as its address book does. -/
theorem runs_merge (hbook : server.peers = s.book i) (h : s.step own (.merge i) = some t) :
    ∃ r turn, s.round i = some r ∧
      cfg.run surroundings server (.begin (.learnPeers r.learned)) = some turn ∧
        turn.state = { server with peers := t.book i } := by
  simp only [AddressBooks.step] at h
  split at h
  · cases h
  · next r hr =>
    split at h
    · have hmerged : t.book i = addPeers server.peers r.learned := by
        rw [← Option.some.inj h, hbook]
        exact Function.update_self ..
      rw [hmerged]
      exact ⟨r, _, hr, rfl, rfl⟩
    · cases h

end Settings
