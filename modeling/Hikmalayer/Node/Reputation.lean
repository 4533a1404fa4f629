/-
# Peer reputation

Whose envelopes cost a peer its reputation.  A message that fails validation is charged to the
node id that it names, before its identity is known: the reputation of a peer is its own as
long as every message that names it passes, and anyone can have it banned otherwise.
-/
import Mathlib.Tactic
import Hikmalayer.Node.Boot
import Hikmalayer.Foundations.OrderedMap

open Outcome

/-! ## Records -/

namespace PeerRecord

/-- The record after misbehaviour. -/
def punished (record : PeerRecord) (now : DateTime) : PeerRecord :=
  if max (record.score + badDelta) scoreMin ≤ banThreshold ∧
      record.bannedUntil ≤ now.unixSeconds then
    { record with
      bad := record.bad + 1
      score := banThreshold.tdiv 2
      bannedUntil := now.unixSeconds + banSeconds }
  else { record with
    bad := record.bad + 1
    score := max (record.score + badDelta) scoreMin }

/-- The record after a useful message. -/
def praised (record : PeerRecord) : PeerRecord :=
  { record with
    good := record.good + 1
    score := min (record.score + goodDelta) scoreMax }

@[simp] theorem punished_bad (record : PeerRecord) (now : DateTime) :
    (record.punished now).bad = record.bad + 1 := by
  unfold punished
  split <;> rfl

@[simp] theorem praised_bad (record : PeerRecord) : record.praised.bad = record.bad := rfl

@[simp] theorem praised_bannedUntil (record : PeerRecord) :
    record.praised.bannedUntil = record.bannedUntil := rfl

/-- Praise leaves a score that is not negative so. -/
theorem praised_score {record : PeerRecord} (h : 0 ≤ record.score) : 0 ≤ record.praised.score := by
  refine le_min ?_ (by decide)
  have hdelta : (0 : ℤ) ≤ goodDelta := by decide
  omega

end PeerRecord

namespace PeerBook

variable {book : PeerBook} {m n : String} {now : DateTime}

theorem entry_insert (record : PeerRecord) :
    entry { book with peers := book.peers.insert m record } n =
      if m = n then record else book.entry n := by
  unfold entry
  rw [OrderedMap.lookup_insert]
  split <;> rfl

/-- Misbehaviour changes the record of the node that it is charged to, and no other. -/
theorem entry_recordBad : (book.recordBad m now).2.entry n =
    if m = n then (book.entry m).punished now else book.entry n := by
  unfold recordBad PeerRecord.punished
  dsimp only
  split
  · exact entry_insert _
  · exact entry_insert _

theorem entry_recordGood : (book.recordGood m).entry n =
    if m = n then (book.entry m).praised else book.entry n := entry_insert _

theorem entry_withAllowList (allowList : Finset String) :
    (withAllowList allowList).entry n = .fresh n := by
  have hnone : (∅ : BTreeMap PeerRecord)[n]? = none := Std.ExtTreeMap.getElem?_empty
  show (∅ : BTreeMap PeerRecord)[n]?.getD (.fresh n) = .fresh n
  rw [hnone]
  rfl

end PeerBook

/-! ## Whose fault it was -/

namespace Settings

variable {cfg : Settings} {c : ServerConfig} {i : Surroundings} {s s' : AppState} {a : ServerAction}
  {turn : ServerTurn} {n : String}

/-- Whether an output charges a node. -/
def charges (n : String) : Output → Bool
  | .penalized e => e.nodeId = n
  | _ => false

/-- The record of a node counts the penalties that are charged to it, and it is not harmed
without one: its score is not negative and it is not banned. -/
structure Counted (n : String) (book : PeerBook) (said : List Output) : Prop where
  counted : (book.entry n).bad ≤ said.countP (charges n)
  unharmed : said.countP (charges n) = 0 → 0 ≤ (book.entry n).score ∧
    (book.entry n).bannedUntil = 0

/-- What an action can do to the reputation of peers. -/
theorem Effect.peerBook (h : Effect cfg i s a s') : s'.peerBook = s.peerBook ∨
    (∃ e, a = .penalizePeer e ∧ ¬ blank e.nodeId ∧
      s'.peerBook = (s.peerBook.recordBad e.nodeId i.now.time).2) ∨
    ∃ m, s'.peerBook = s.peerBook.recordGood m := by
  cases h with
  | penalized e hnode => exact Or.inr (Or.inl ⟨e, rfl, hnode, rfl⟩)
  | rewarded e => exact Or.inr (Or.inr ⟨e.nodeId, rfl⟩)
  | _ => exact Or.inl rfl

/-- A penalty is counted where it is charged. -/
theorem run_penalizePeer {e : P2PEnvelope} (hnode : ¬ blank e.nodeId) :
    cfg.run i s (.penalizePeer e) = some ⟨{ s with
      peerBook := (s.peerBook.recordBad e.nodeId i.now.time).2 }, [], [], [.penalized e]⟩ := by
  rw [run, if_neg hnode]
  rfl

/-- What is known of a record stays known when more is said. -/
theorem Counted.more {book : PeerBook} {said : List Output} (h : Counted n book said)
    (words : List Output) : Counted n book (said ++ words) where
  counted := by
    rw [List.countP_append]
    exact h.counted.trans (Nat.le_add_right _ _)
  unharmed hnone := by
    rw [List.countP_append] at hnone
    exact h.unharmed (Nat.eq_zero_of_add_eq_zero_right hnone)

theorem Counted.recordGood {book : PeerBook} {said : List Output} (h : Counted n book said)
    (m : String) : Counted n (book.recordGood m) said := by
  by_cases hm : m = n
  · subst hm
    constructor
    · rw [PeerBook.entry_recordGood, if_pos rfl, PeerRecord.praised_bad]
      exact h.counted
    · intro hnone
      rw [PeerBook.entry_recordGood, if_pos rfl, PeerRecord.praised_bannedUntil]
      exact ⟨PeerRecord.praised_score (h.unharmed hnone).1, (h.unharmed hnone).2⟩
  · constructor
    · rw [PeerBook.entry_recordGood, if_neg hm]
      exact h.counted
    · rw [PeerBook.entry_recordGood, if_neg hm]
      exact h.unharmed

theorem Counted.recordBad {book : PeerBook} {said : List Output} (h : Counted n book said)
    (e : P2PEnvelope) (now : DateTime) :
    Counted n (book.recordBad e.nodeId now).2 (said ++ [.penalized e]) := by
  by_cases hm : e.nodeId = n
  · have hcharges : charges n (.penalized e) = true := decide_eq_true hm
    have hcount : (said ++ [Output.penalized e]).countP (charges n) = said.countP (charges n) + 1 := by
      rw [List.countP_append, List.countP_singleton, if_pos hcharges]
    subst hm
    constructor
    · rw [PeerBook.entry_recordBad, if_pos rfl, PeerRecord.punished_bad, hcount]
      exact Nat.succ_le_succ h.counted
    · intro hnone
      rw [hcount] at hnone
      exact absurd hnone (Nat.succ_ne_zero _)
  · constructor
    · rw [PeerBook.entry_recordBad, if_neg hm]
      exact (h.more _).counted
    · rw [PeerBook.entry_recordBad, if_neg hm]
      exact (h.more _).unharmed

/-- A fresh book charges nobody. -/
theorem counted_fresh (allowList : Finset String) (said : List Output) :
    Counted n (.withAllowList allowList) said where
  counted := by
    rw [PeerBook.entry_withAllowList]
    exact Nat.zero_le _
  unharmed _ := by
    rw [PeerBook.entry_withAllowList]
    exact ⟨le_refl _, rfl⟩

/-- A node comes up with a fresh book. -/
theorem boot_peerBook {disk : Option AppSnapshot} (h : cfg.boot disk = some s) :
    s.peerBook = .withAllowList cfg.allowList := by
  obtain ⟨_, _, -, -, rfl⟩ := boot_eq_some h
  rfl

/-- Records count the penalties in every run. -/
theorem Reachable.counted {Allowed : ServerConfig → ServerEvent → Prop}
    (h : cfg.Reachable Allowed c) : Counted n c.state.peerBook c.said := by
  refine h.invariant (P := fun c => Counted n c.state.peerBook c.said) ?_ ?_
  · rintro c ⟨disk, state, hboot, rfl⟩
    show Counted n state.peerBook []
    rw [boot_peerBook hboot]
    exact counted_fresh _ _
  · intro c c' event _ ih _ _ hstep
    rcases System.step_cases hstep with ⟨actions, rfl, rfl⟩ |
      ⟨k, i, a, rest, turn, rfl, -, hrun, rfl⟩ | ⟨state, rfl, hboot, rfl⟩
    · exact ih
    · show Counted n turn.state.peerBook (c.said ++ turn.words)
      rcases (run_effect hrun).peerBook with hbook | ⟨e, rfl, hnode, -⟩ | ⟨m, hbook⟩
      · rw [hbook]
        exact ih.more _
      · have hturn : cfg.run i c.state (.penalizePeer e) = some turn := hrun
        rw [run_penalizePeer hnode] at hturn
        cases hturn
        exact ih.recordBad e i.now.time
      · rw [hbook]
        exact (ih.recordGood m).more _
    · show Counted n state.peerBook c.said
      rw [boot_peerBook hboot]
      exact counted_fresh _ _

end Settings

/-! ## Refused messages -/

namespace P2PEnvelope

end P2PEnvelope

namespace PeerBook

end PeerBook

namespace Settings

variable {cfg : Settings} {start c : ServerConfig} {n : String}

end Settings
