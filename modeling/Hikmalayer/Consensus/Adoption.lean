/-
# Fork choice is exact

What a node of the network offers is adopted exactly when it is considered and ranks higher: the
replay of a chain that another node has reached does not fail.
-/
import Mathlib.Tactic
import Hikmalayer.Consensus.Candidates

open Outcome

namespace Blockchain

variable {E : Node} {chain candidate : Blockchain} {now : DateTime}

/-- The chain with the blocks of another one and what is derived from them. -/
def taking (chain candidate : Blockchain) : Blockchain :=
  { chain with
    blocks := candidate.blocks
    state := candidate.state
    randomness := candidate.randomness
    currentDifficulty := candidate.currentDifficulty }

/-- A valid chain of the same network, of bounded height. -/
structure Genuine (E : Node) (chain candidate : Blockchain) : Prop where
  derived : Derived E candidate
  network : candidate.network = chain.network
  room : chain.baseHeight.toNat + candidate.blocks.length < 2 ^ 63

/-- Under our own parameters the blocks replay to what the other node has derived. -/
theorem Genuine.rebuildState (h : Genuine E chain candidate) :
    rebuildState E (replayOf chain candidate) = ok { replayOf chain candidate with
      state := candidate.state
      randomness := candidate.randomness
      currentDifficulty := candidate.currentDifficulty } := by
  obtain ⟨anchor, rest, seed, hblocks, hvalid, hindex, hseed, hreplay⟩ :=
    validateFull_eq_ok.mp h.derived
  have hbase := baseHeight_of_network h.network
  have hseed' : replaySeed E (replayOf chain candidate) anchor = ok seed := by
    have hsame : replaySeed E candidate.network anchor = ok seed := hseed
    rw [h.network] at hsame
    exact hsame
  rw [hbase] at hindex hreplay
  have hfull : validateFull E (replayOf chain candidate) =
      ok ⟨candidate.state, candidate.randomness, candidate.currentDifficulty⟩ :=
    validateFull_eq_ok.mpr ⟨anchor, rest, seed, hblocks, hvalid, hindex, hseed', hreplay⟩
  unfold Blockchain.rebuildState
  rw [hfull]
  rfl

/-- A considered chain is adopted if it ranks higher, and ours is kept otherwise. -/
theorem Genuine.tryAdoptChain (h : Genuine E chain candidate) (hc : Considers chain candidate now)
    (hcomparable : Comparable chain) (hfinal : chain.baseHeight ≤ chain.finalizedHeight) :
    tryAdoptChain E chain candidate now =
      ok (if chain.rank < rankOf chain.baseHeight candidate.blocks then
        (true, chain.taking candidate) else (false, chain)) := by
  obtain ⟨⟨ours, theirs, hours, htheirs, hroot⟩, hbase, hprefix, htimely⟩ := hc
  have hroom := h.room
  have hne : candidate.blocks ≠ [] := h.derived.blocks_ne_nil
  have hwork : ¬ WorkOverflows chain candidate := by
    rintro ⟨-, hover⟩
    exact absurd (h.derived.work_lt (by omega)) (not_lt.mpr hover)
  have hkeeps := keepsOurs_eq_false hcomparable hne hbase (by omega) hwork
  obtain ⟨keep, hkeep⟩ : ∃ keep, keepsOurs chain candidate = ok keep := by
    rw [keepsOurs_eq hcomparable hne hbase (by omega),
      cumulativeWork_of_lt (h.derived.work_lt (by omega)), ok_bind]
    split_ifs
    all_goals exact ⟨_, rfl⟩
  have hlocal : Word.checkedSub chain.finalizedHeight chain.baseHeight =
      some (chain.finalizedHeight - chain.baseHeight) := if_pos hfinal
  have hdepth : (chain.finalizedHeight - chain.baseHeight).toNat =
      chain.finalizedHeight.toNat - chain.baseHeight.toNat := UInt64.toNat_sub_of_le _ _ hfinal
  rw [UInt64.le_iff_toNat_le] at hfinal
  have hcheck : checkFinalizedPrefix chain.blocks candidate.blocks
      (List.range ((chain.finalizedHeight - chain.baseHeight).toNat + 1)) = ok () := by
    refine checkFinalizedPrefix_eq_ok.mpr fun i hi => hprefix i ?_
    rw [List.mem_range, hdepth] at hi
    omega
  have htip : ¬ (candidate.blocks.getLast?.any fun tip =>
      (now.addSeconds maxTimestampSkewSeconds).before tip.timestamp) = true := by
    cases hlast : candidate.blocks.getLast? with
    | none => simp only [Option.any_none, Bool.false_eq_true, not_false_eq_true]
    | some tip =>
      rw [Option.any_some, decide_eq_true_eq]
      exact htimely tip hlast
  unfold Blockchain.tryAdoptChain
  rw [hours, okOr_some, ok_bind, htheirs, okOr_some, ok_bind,
    ensure_pos (not_or.mpr ⟨not_not.mpr hroot, not_not.mpr hbase.symm⟩), ok_bind, hlocal, plain_some,
    ok_bind, hcheck, ok_bind, ensure_pos htip, ok_bind, hkeep, ok_bind]
  cases keep with
  | true =>
    have hlow : ¬ chain.rank < rankOf chain.baseHeight candidate.blocks := by
      rw [← hkeeps, hkeep]
      decide
    rw [if_neg hlow]
    rfl
  | false =>
    rw [if_pos (hkeeps.mp hkeep), h.rebuildState]
    rfl

/-- A candidate that is decided about has been considered. -/
theorem considers_of_tryAdoptChain {r : Bool × Blockchain} (hs : Settled chain)
    (h : Blockchain.tryAdoptChain E chain candidate now = ok r) : Considers chain candidate now := by
  obtain ⟨depth, hlocal, hdepth⟩ := hs.finalizedLocal
  simp only [Blockchain.tryAdoptChain, Outcome.bind_eq_ok, okOr_eq_ok, ensure_eq_ok, plain_eq_ok,
    hlocal, Option.some.injEq, exists_eq_left', not_or, not_not] at h
  obtain ⟨ours, hours, theirs, htheirs, _, ⟨hroot, hbase⟩, _, hprefix, _, htimely, -⟩ := h
  refine ⟨⟨ours, theirs, hours, htheirs, hroot⟩, hbase.symm, fun i hi => ?_, fun tip htip => ?_⟩
  · exact checkFinalizedPrefix_eq_ok.mp hprefix i (List.mem_range.mpr (by omega))
  · rw [htip, Option.any_some, decide_eq_true_eq] at htimely
    exact htimely

/-! ## Two nodes of one network -/

open NodeState

/-- What another node of the network has reached is genuine. -/
theorem Joined.genuine {start s start' s' : NodeState} (hjoined : Joined E start.chain)
    (hrun : Run E (fun _ _ => True) start s) (hjoined' : Joined E start'.chain)
    (hrun' : Run E (fun _ _ => True) start' s')
    (hnetwork : start'.chain.network = start.chain.network)
    (hroom : s'.chain.baseHeight.toNat + s'.chain.blocks.length < 2 ^ 63) :
    Genuine E s.chain s'.chain := by
  have hgrounded := hrun.grounded hjoined.rooted.derived
  have hgrounded' := hrun'.grounded hjoined'.rooted.derived
  have hsame : s'.chain.network = s.chain.network := by
    rw [hgrounded'.network, hnetwork, hgrounded.network]
  refine ⟨hgrounded'.derived, hsame, ?_⟩
  rw [← baseHeight_of_network hsame]
  exact hroom

theorem Joined.comparable {start s : NodeState} (hjoined : Joined E start.chain)
    (hrun : Run E (fun _ _ => True) start s) : Comparable s.chain := by
  have hsettled := hrun.settled hjoined.rooted.settled
  exact ⟨hsettled.nonempty, hsettled.room s.fits,
    (hrun.grounded hjoined.rooted.derived).derived.work_lt s.fits⟩

/-- A node that is offered the chain of another node of its network refuses it exactly when it is
not considered, and otherwise takes it over exactly when it ranks higher. -/
theorem fork_choice_exact {start s start' s' : NodeState} (hE : E.saturation = .clamp)
    (hjoined : Joined E start.chain) (hrun : Run E (fun _ _ => True) start s)
    (hjoined' : Joined E start'.chain) (hrun' : Run E (fun _ _ => True) start' s')
    (hnetwork : start'.chain.network = start.chain.network)
    (hroom : s'.chain.baseHeight.toNat + s'.chain.blocks.length < 2 ^ 63) (now : DateTime) :
    (Considers s.chain s'.chain now → Blockchain.tryAdoptChain E s.chain s'.chain now =
      ok (if s.chain.rank < s'.chain.rank then (true, s.chain.taking s'.chain)
        else (false, s.chain))) ∧
    (¬ Considers s.chain s'.chain now →
      ∃ e, Blockchain.tryAdoptChain E s.chain s'.chain now = err e) := by
  have hsettled := hrun.settled hjoined.rooted.settled
  have hgrounded := hrun.grounded hjoined.rooted.derived
  have hgenuine := hjoined.genuine hrun hjoined' hrun' hnetwork hroom
  obtain ⟨tip, -, hfinal, -⟩ := hsettled.tip
  refine ⟨fun hc => ?_, fun hc => ?_⟩
  · have hrank : s'.chain.rank = rankOf s.chain.baseHeight s'.chain.blocks := by
      rw [rank, hc.2.1]
    rw [hrank]
    exact hgenuine.tryAdoptChain hc (hjoined.comparable hrun) hfinal
  · have hsane := (hjoined.saneSeed hE).grounded hjoined.rooted.derived hgrounded
    rcases h : Blockchain.tryAdoptChain E s.chain s'.chain now with r | e | _
    · exact absurd (considers_of_tryAdoptChain hsettled h) hc
    · exact ⟨e, rfl⟩
    · exact absurd ((tryAdoptChain_eq_panicked hE hsettled hgrounded.derived hsane s.fits
        hgenuine.room).mp h).1 hc

end Blockchain

/-! ## A toy node that is one block ahead -/

namespace Sample

open Blockchain NodeState

theorem exists_ahead : ∃ s' : NodeState,
    Run (node [reward]) (fun _ _ => True) started s' ∧
      Alone s'.chain ∧ s'.chain.blocks.length = 2 ∧ s'.chain.finalizedHeight = 0 ∧
      (∃ theirs, s'.chain.blocks.head? = some theirs ∧ rootBlock.hash = theirs.hash) ∧
      ∀ tip, s'.chain.blocks.getLast? = some tip →
        ¬ (morning.addSeconds maxTimestampSkewSeconds).before tip.timestamp := by
  obtain ⟨s', hstep, halone, hfinal, hlen, -⟩ := exists_step_extend _ 1 0
    started_alone (by decide) (by decide) (by decide)
  have hlen : s'.chain.blocks.length = 2 := hlen
  have hrun : Run (node [reward]) (fun _ _ => True) started s' :=
    .tail .refl trivial hstep
  refine ⟨s', hrun, halone, hlen, hfinal, ?_, fun tip htip => ?_⟩
  · have hroot := (hrun.grounded started_joined.rooted.derived).root
    obtain ⟨theirs, rest, hblocks⟩ := List.exists_cons_of_ne_nil halone.nonempty
    rw [hblocks, List.head?_cons, Option.map_some] at hroot
    exact ⟨theirs, by rw [hblocks, List.head?_cons], (Option.some.inj hroot).symm⟩
  · have htail : s'.chain.blocks.tail ≠ [] := by
      intro hnil
      have hshort := congrArg List.length hnil
      rw [List.length_tail, hlen] at hshort
      cases hshort
    have hmem : tip ∈ s'.chain.blocks.tail := by
      obtain ⟨theirs, rest, hblocks⟩ := List.exists_cons_of_ne_nil halone.nonempty
      rw [hblocks, List.tail_cons] at htail ⊢
      rw [hblocks, List.getLast?_cons_of_ne_nil htail] at htip
      exact List.mem_of_getLast? htip
    rw [halone.stamped tip hmem]
    decide

/-- A longer toy chain ranks higher than a fresh one. -/
theorem rank_lt_of_length {chain : Blockchain} (halone : Alone chain)
    (hlen : chain.blocks.length = 2) : started.chain.rank < chain.rank := by
  rw [rank, rank, rankOf, rankOf, Prod.Lex.toLex_lt_toLex]
  left
  show tipHeight started.chain.baseHeight started.chain.blocks <
    tipHeight chain.baseHeight chain.blocks
  rw [halone.base, tipHeight, tipHeight, hlen]
  decide

end Sample

namespace Blockchain

open NodeState

/-- A fresh node takes over the chain of a node that is one block ahead. -/
theorem fork_choice_exact_sample : ∃ s' : NodeState,
    Blockchain.tryAdoptChain (Sample.node [Sample.reward]) Sample.started.chain s'.chain
      Sample.morning = ok (true, Sample.started.chain.taking s'.chain) := by
  obtain ⟨s', hrun, halone, hlen, -, ⟨theirs, htheirs, hhash⟩, htimely⟩ := Sample.exists_ahead
  have hroot : Sample.started.chain.blocks.head? = some Sample.rootBlock := rfl
  have hconsiders : Considers Sample.started.chain s'.chain Sample.morning := by
    refine ⟨⟨Sample.rootBlock, theirs, hroot, htheirs, hhash⟩, halone.base, fun i hi => ?_, htimely⟩
    have hzero : i = 0 := Nat.le_zero.mp ((Nat.le_add_left _ _).trans hi)
    rw [hzero, ← List.head?_eq_getElem?, ← List.head?_eq_getElem?]
    exact ⟨Sample.rootBlock, theirs, hroot, htheirs, hhash⟩
  have hroom : s'.chain.baseHeight.toNat + s'.chain.blocks.length < 2 ^ 63 := by
    rw [halone.base, hlen]
    decide
  have hexact := (fork_choice_exact rfl Sample.started_joined .refl Sample.started_joined hrun rfl
    hroom Sample.morning).1 hconsiders
  rw [if_pos (Sample.rank_lt_of_length halone hlen)] at hexact
  exact ⟨s', hexact⟩

end Blockchain
