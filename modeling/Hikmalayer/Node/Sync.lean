/-
# Catching up

Whatever the polled peers answer, one pass of the syncer makes a bounded number of requests and
leaves a chain that validated blocks and fork choice have led to.  It ends higher exactly when the
peer with the highest claim delivers, and passes that follow honest peers end with their chain.
-/
import Mathlib.Tactic
import Hikmalayer.Model.Sync
import Hikmalayer.Consensus.Candidates
import Hikmalayer.Node.Chains

open Outcome Blockchain NodeState

theorem NodeState.Run.trans {E : Node} {P : NodeState → Event → Prop} {s s' s'' : NodeState}
    (h : Run E P s s') (h' : Run E P s' s'') : Run E P s s'' := by
  induction h' with
  | refl => exact h
  | tail _ hP hstep ih => exact ih.tail hP hstep

namespace Sync

variable {E : Node} {clock : ℕ → DateTime} {now : DateTime} {depth target : UInt64}
  {chain chain' mid remote : Blockchain} {peer : Peer} {s : NodeState}

/-! ## One batch -/

/-- What a batch has appended was accepted block by block. -/
theorem applyBatch_accepted {blocks : List Block} : ∀ {chain : Blockchain}
    {accepted accepted' : List Block} {ending : BatchEnd},
    applyBatch E clock chain accepted blocks = (mid, accepted', ending) →
      ∃ arrivals, accepted' = accepted ++ arrivals.map Prod.snd ∧
        acceptAll E chain arrivals = ok mid ∧ (arrivals ≠ [] → mid.blocks.length < 2 ^ 63) := by
  induction blocks with
  | nil =>
    intro chain accepted accepted' ending h
    simp only [applyBatch, Prod.mk.injEq] at h
    obtain ⟨rfl, rfl, -⟩ := h
    exact ⟨[], (List.append_nil _).symm, rfl, fun h => absurd rfl h⟩
  | cons block rest ih =>
    intro chain accepted accepted' ending h
    rw [applyBatch] at h
    split at h
    · next chain' happend =>
      obtain ⟨arrivals, haccepted, hall, hfits⟩ := ih h
      obtain ⟨haccept, hlen⟩ := append_eq_ok.mp happend
      refine ⟨(clock accepted.length, block) :: arrivals, ?_, ?_, fun _ => ?_⟩
      · rw [haccepted, List.append_assoc]
        rfl
      · rw [acceptAll, haccept, ok_bind, hall]
      · by_cases hne : arrivals = []
        · rw [hne, acceptAll, ok.injEq] at hall
          rw [← hall]
          exact hlen
        · exact hfits hne
    all_goals
      simp only [Prod.mk.injEq] at h
      obtain ⟨rfl, rfl, -⟩ := h
      exact ⟨[], (List.append_nil _).symm, rfl, fun h => absurd rfl h⟩

/-! ## What a pass leaves -/

/-- The chain has been led to by validated blocks and fork choice, and is not shorter. -/
def Grows (E : Node) (s : NodeState) (chain : Blockchain) : Prop :=
  (∃ s' arrivals, Run E (fun _ _ => True) s s' ∧ acceptAll E s'.chain arrivals = ok chain) ∧
    chain.baseHeight = s.chain.baseHeight ∧ s.chain.blocks.length ≤ chain.blocks.length ∧
    chain.blocks.length < 2 ^ 63

theorem Grows.refl : Grows E s s.chain := ⟨⟨s, [], .refl, rfl⟩, rfl, le_rfl, s.fits⟩

/-- A step and what grows from it. -/
theorem Grows.step {s' : NodeState} {e : Event} (hstep : Step E s e s')
    (hbase : s'.chain.baseHeight = s.chain.baseHeight)
    (hlen : s.chain.blocks.length ≤ s'.chain.blocks.length) (h : Grows E s' chain) :
    Grows E s chain := by
  obtain ⟨⟨s'', arrivals, hrun, hall⟩, hbase', hlen', hfits⟩ := h
  have hfirst : Run E (fun _ _ => True) s s' := .tail .refl trivial hstep
  exact ⟨⟨s'', arrivals, hfirst.trans hrun, hall⟩, hbase'.trans hbase, hlen.trans hlen', hfits⟩

theorem acceptAll_length {arrivals : List (DateTime × Block)}
    (h : acceptAll E chain arrivals = ok chain') :
    chain'.blocks.length = chain.blocks.length + arrivals.length := by
  rw [(acceptAll_fields h).1, List.length_append, List.length_map]

theorem acceptAll_base {arrivals : List (DateTime × Block)}
    (h : acceptAll E chain arrivals = ok chain') : chain'.baseHeight = chain.baseHeight := by
  rw [(acceptAll_fields h).2]

/-- What a batch has appended so far. -/
theorem Grows.accepted {arrivals : List (DateTime × Block)}
    (h : acceptAll E s.chain arrivals = ok chain) (hfits : chain.blocks.length < 2 ^ 63) :
    Grows E s chain := by
  refine ⟨⟨s, arrivals, .refl, h⟩, acceptAll_base h, ?_, hfits⟩
  rw [acceptAll_length h]
  exact Nat.le_add_right _ _

theorem adoptFinal_eq_some : adoptFinal E now depth chain remote = ok (some chain') ↔
    ∃ mid, tryAdoptChain E chain remote now = ok (true, mid) ∧ mid.blocks.length < 2 ^ 63 ∧
      (mid.applyFinality depth : Outcome String Blockchain) = ok chain' := by
  rw [adoptFinal]
  split
  · next mid hadopt =>
    simp only [hadopt, Outcome.bind_eq_ok, held_eq_ok, pure_eq, ok.injEq, Option.some.injEq,
      Prod.mk.injEq, true_and, exists_eq_left']
    constructor
    · rintro ⟨_, ⟨hlen, rfl⟩, _, hfinal, rfl⟩
      exact ⟨hlen, hfinal⟩
    · rintro ⟨hlen, hfinal⟩
      exact ⟨_, ⟨hlen, rfl⟩, _, hfinal, rfl⟩
  all_goals
    next hadopt => simp only [hadopt, ok.injEq, Prod.mk.injEq, reduceCtorEq, false_and, exists_false]

/-- An adopted chain is at least as long. -/
theorem length_le_of_adopted {candidate : Blockchain} (h : Adopted E chain candidate chain')
    (hlen : chain.blocks.length < 2 ^ 63) (hlen' : chain'.blocks.length < 2 ^ 63) :
    chain'.baseHeight = chain.baseHeight ∧ chain.blocks.length ≤ chain'.blocks.length := by
  have hbase : chain'.baseHeight = chain.baseHeight := by rw [h.own]
  have hrank := h.better
  rw [rank, rank, rankOf, rankOf, Prod.Lex.toLex_lt_toLex] at hrank
  have hpos : 0 < chain'.blocks.length := List.length_pos_iff.mpr h.derived.blocks_ne_nil
  have hle : tipHeight chain.baseHeight chain.blocks ≤ tipHeight chain'.baseHeight chain'.blocks :=
    hrank.elim le_of_lt fun h => h.1.le
  rw [hbase, tipHeight, tipHeight, Word.toNat_ofNat_of_lt (by omega),
    Word.toNat_ofNat_of_lt (by omega)] at hle
  exact ⟨hbase, by omega⟩

theorem adoptViaForkChoice_grows (hdepth : depth ∈ s.held) {applied requests : ℕ} :
    Grows E s (adoptViaForkChoice E now depth peer applied requests s.chain).chain := by
  rw [adoptViaForkChoice]
  split
  · exact .refl
  · next remote _ =>
    split
    · next adopted hadopt =>
      obtain ⟨mid, htry, hlen, hfinal⟩ := adoptFinal_eq_some.mp hadopt
      have hblocks := applyFinality_blocks hfinal
      have hfits : adopted.blocks.length < 2 ^ 63 := by
        rw [hblocks]
        exact hlen
      have hstep : Step E s (.adopt remote now depth) { s with chain := adopted, fits := hfits } :=
        .adopt hdepth (tryAdopt_eq_ok.mpr htry) hfinal hfits
      obtain ⟨hbase, hle⟩ := length_le_of_adopted (tryAdoptChain_true htry) s.fits hlen
      refine Grows.step hstep ?_ ?_ .refl
      · show adopted.baseHeight = _
        rw [applyFinality_fields hfinal]
        exact hbase
      · show _ ≤ adopted.blocks.length
        rw [hblocks]
        exact hle
    all_goals exact .refl

theorem adoptViaForkChoice_requests {applied requests : ℕ} :
    (adoptViaForkChoice E now depth peer applied requests chain).requests = requests + 1 := by
  rw [adoptViaForkChoice]
  split
  · rfl
  · split <;> rfl

theorem finalAfter_eq_ok {accepted : List Block} : finalAfter depth accepted chain = ok chain' ↔
    accepted = [] ∧ chain' = chain ∨
      accepted ≠ [] ∧ (chain.applyFinality depth : Outcome String Blockchain) = ok chain' := by
  rw [finalAfter]
  split_ifs with h
  · simp only [ok.injEq, h, true_and, ne_eq, not_true_eq_false, false_and, or_false]
    exact eq_comm
  · simp only [h, false_and, ne_eq, not_false_eq_true, true_and, false_or]

/-- After a batch, with finality moved, the node has taken at most one step. -/
theorem exists_after_batch (hdepth : depth ∈ s.held) {arrivals : List (DateTime × Block)}
    (hall : acceptAll E s.chain arrivals = ok mid)
    (hfits : arrivals ≠ [] → mid.blocks.length < 2 ^ 63)
    (hfinal : finalAfter depth (arrivals.map Prod.snd) mid = ok chain) :
    ∃ s' : NodeState, s'.chain = chain ∧ s'.held = s.held ∧
      ∀ c, Grows E s' c → Grows E s c := by
  rcases finalAfter_eq_ok.mp hfinal with ⟨hnil, rfl⟩ | ⟨hne, hfinal⟩
  · rw [List.map_eq_nil_iff] at hnil
    rw [hnil, acceptAll, ok.injEq] at hall
    exact ⟨s, hall, rfl, fun _ h => h⟩
  · rw [Ne, List.map_eq_nil_iff] at hne
    have hblocks := applyFinality_blocks hfinal
    have hlen : chain.blocks.length < 2 ^ 63 := by
      rw [hblocks]
      exact hfits hne
    have hstep : Step E s (.extend arrivals depth) { s with chain := chain, fits := hlen } :=
      .extend hne hdepth hall hfinal hlen
    refine ⟨{ s with chain := chain, fits := hlen }, rfl, rfl, fun c h => Grows.step hstep ?_ ?_ h⟩
    · have hbase : chain.baseHeight = mid.baseHeight := by
        rw [applyFinality_fields hfinal]
      exact hbase.trans (acceptAll_base hall)
    · show _ ≤ chain.blocks.length
      rw [hblocks, acceptAll_length hall]
      exact Nat.le_add_right _ _

/-- Every pass over the batches leaves a chain that has grown, within one request a batch and one
for fork choice. -/
theorem downloadFrom_grows {batches : ℕ} : ∀ {s : NodeState} {applied requests : ℕ},
    depth ∈ s.held →
      Grows E s (downloadFrom E clock depth peer target batches applied requests s.chain).chain ∧
      (downloadFrom E clock depth peer target batches applied requests s.chain).requests ≤
        requests + batches + 1 := by
  induction batches with
  | zero =>
    intro s applied requests _
    exact ⟨.refl, Nat.le_add_right _ _⟩
  | succ batches ih =>
    intro s applied requests hdepth
    rw [downloadFrom]
    split
    · next next hnext =>
      split_ifs with htarget
      · exact ⟨.refl, by show requests ≤ _; omega⟩
      · split
        · exact ⟨.refl, by show requests + 1 ≤ _; omega⟩
        · exact ⟨.refl, by show requests + 1 ≤ _; omega⟩
        · next block rest hserved =>
          rcases hbatch : applyBatch E (fun k => clock (applied + k)) s.chain [] (block :: rest)
            with ⟨mid, accepted, ending⟩
          obtain ⟨arrivals, haccepted, hall, hfits⟩ := applyBatch_accepted hbatch
          rw [List.nil_append] at haccepted
          have hmid : Grows E s mid := by
            refine Grows.accepted hall ?_
            by_cases hne : arrivals = []
            · rw [hne, acceptAll, ok.injEq] at hall
              rw [← hall]
              exact s.fits
            · exact hfits hne
          dsimp only
          by_cases hpanic : ending = .panicked
          · rw [if_pos hpanic]
            exact ⟨hmid, by show requests + 1 ≤ _; omega⟩
          · rw [if_neg hpanic]
            split
            · next chain hfinal =>
              rw [haccepted] at hfinal
              obtain ⟨s', rfl, hheld, hgrows⟩ := exists_after_batch hdepth hall hfits hfinal
              rw [← hheld] at hdepth
              split_ifs with hdiverged
              · refine ⟨hgrows _ (adoptViaForkChoice_grows hdepth), ?_⟩
                rw [adoptViaForkChoice_requests]
                omega
              · obtain ⟨hall', hrequests⟩ := @ih s' (applied + accepted.length) (requests + 1) hdepth
                exact ⟨hgrows _ hall', hrequests.trans (by omega)⟩
            · exact ⟨hmid, by show requests + 1 ≤ _; omega⟩
    · exact ⟨.refl, by show requests ≤ _; omega⟩

/-- A pass over the polled peers, whatever they answer. -/
theorem catchUp_grows (hdepth : depth ∈ s.held) {peers : List Peer} :
    Grows E s (catchUp E clock depth peers s.chain).chain ∧
      (catchUp E clock depth peers s.chain).requests ≤
        maxPeersPerTick + maxBatchesPerPass + 1 := by
  have hpolled : (peers.take maxPeersPerTick).length ≤ maxPeersPerTick := List.length_take_le _ _
  rw [catchUp]
  split_ifs
  · exact ⟨.refl, Nat.zero_le _⟩
  · split
    · dsimp only
      split
      · exact ⟨.refl, by show List.length _ ≤ _; omega⟩
      · split_ifs
        · exact ⟨.refl, by show List.length _ ≤ _; omega⟩
        · obtain ⟨hgrows, hrequests⟩ := downloadFrom_grows hdepth
          exact ⟨hgrows, hrequests.trans (by omega)⟩
    · exact ⟨.refl, Nat.zero_le _⟩

/-- A fresh node asks a peer that says nothing. -/
theorem catchUp_grows_sample :
    Grows (Sample.node [Sample.reward]) Sample.started (catchUp (Sample.node [Sample.reward])
      (fun _ => Sample.morning) 1 [⟨none, fun _ _ => none, none⟩] Sample.started.chain).chain :=
  (catchUp_grows (by decide)).1

/-! ## Progress -/

/-- What comes after a batch takes nothing of it back. -/
theorem downloadFrom_served (hdepth : depth ∈ s.held) {next : UInt64} {block : Block}
    {rest accepted : List Block} {ending : BatchEnd} {batches applied requests : ℕ}
    (hnext : (s.chain.nextIndex : Outcome String UInt64) = ok next) (htarget : ¬ target < next)
    (hserved : peer.blocksFrom requests next = some (block :: rest))
    (hbatch : applyBatch E (fun k => clock (applied + k)) s.chain [] (block :: rest) =
      (mid, accepted, ending)) :
    mid.blocks.length ≤ (downloadFrom E clock depth peer target (batches + 1) applied requests
      s.chain).chain.blocks.length := by
  obtain ⟨arrivals, haccepted, hall, hfits⟩ := applyBatch_accepted hbatch
  rw [List.nil_append] at haccepted
  rw [downloadFrom, hnext]
  dsimp only
  rw [if_neg htarget, hserved]
  dsimp only
  rw [hbatch]
  dsimp only
  by_cases hpanic : ending = .panicked
  · rw [if_pos hpanic]
  · rw [if_neg hpanic]
    split
    · next chain hfinal =>
      rw [← finalAfter_blocks hfinal]
      rw [haccepted] at hfinal
      obtain ⟨s', rfl, hheld, -⟩ := exists_after_batch hdepth hall hfits hfinal
      rw [← hheld] at hdepth
      split_ifs with hdiverged
      · exact (adoptViaForkChoice_grows hdepth).2.2.1
      · exact (downloadFrom_grows hdepth).1.2.2.1
    · exact le_rfl

/-- An adopted chain has a tip. -/
theorem tryAdoptChain_tipIndex {candidate : Blockchain}
    (h : tryAdoptChain E chain candidate now = ok (true, chain')) :
    ∃ tip, (chain'.tipIndex : Outcome String UInt64) = ok tip := by
  have hblocks := (tryAdoptChain_true h).blocks
  have hbase : chain'.baseHeight = chain.baseHeight := by rw [(tryAdoptChain_true h).own]
  simp only [tryAdoptChain, keepsOurs, Outcome.bind_eq_ok, ensure_eq_ok, not_or, not_not] at h
  obtain ⟨_, -, _, -, _, ⟨-, hsame⟩, _, -, _, -, _, -, _, ⟨_, -, tip, htip, -⟩, -⟩ := h
  refine ⟨tip, ?_⟩
  rw [← htip, tipIndex, tipIndex, nextIndex, nextIndex, hblocks, hbase, hsame]

theorem applyFinality_moves {ε : Type} {tip : UInt64}
    (h : (chain.tipIndex : Outcome ε UInt64) = ok tip) (depth : UInt64) :
    ∃ finalized, (chain.applyFinality depth : Outcome ε Blockchain) =
      ok { chain with finalizedHeight := finalized } := by
  unfold applyFinality
  split_ifs
  · exact ⟨_, rfl⟩
  all_goals
    rw [h, ok_bind]
    exact ⟨_, rfl⟩

theorem applyFinality_returns {ε : Type} {tip : UInt64}
    (h : (chain.tipIndex : Outcome ε UInt64) = ok tip) (depth : UInt64) :
    ∃ chain', (chain.applyFinality depth : Outcome ε Blockchain) = ok chain' := by
  obtain ⟨_, hfinal⟩ := applyFinality_moves h depth
  exact ⟨_, hfinal⟩

/-- The peer's chain is adopted, and is longer. -/
def Replaces (E : Node) (now : DateTime) (peer : Peer) (chain : Blockchain) : Prop :=
  ∃ remote adopted, peer.chain = some remote ∧
    tryAdoptChain E chain remote now = ok (true, adopted) ∧
    chain.blocks.length < adopted.blocks.length ∧ adopted.blocks.length < 2 ^ 63

theorem adoptViaForkChoice_higher_iff {applied requests : ℕ} :
    chain.blocks.length < (adoptViaForkChoice E now depth peer applied requests
      chain).chain.blocks.length ↔ Replaces E now peer chain := by
  rw [adoptViaForkChoice]
  split
  · next hnone =>
    refine iff_of_false (lt_irrefl _) ?_
    rintro ⟨remote, _, hsome, -⟩
    rw [hnone] at hsome
    cases hsome
  · next remote hremote =>
    have hreplaces : Replaces E now peer chain ↔ ∃ adopted,
        adoptFinal E now depth chain remote = ok (some adopted) ∧
          chain.blocks.length < adopted.blocks.length := by
      constructor
      · rintro ⟨_, mid, hsome, htry, hlt, hlen⟩
        rw [hremote, Option.some.injEq] at hsome
        subst hsome
        obtain ⟨tip, htip⟩ := tryAdoptChain_tipIndex htry
        obtain ⟨adopted, hfinal⟩ := applyFinality_returns htip depth
        refine ⟨adopted, adoptFinal_eq_some.mpr ⟨mid, htry, hlen, hfinal⟩, ?_⟩
        rw [applyFinality_blocks hfinal]
        exact hlt
      · rintro ⟨adopted, hadopt, hlt⟩
        obtain ⟨mid, htry, hlen, hfinal⟩ := adoptFinal_eq_some.mp hadopt
        rw [applyFinality_blocks hfinal] at hlt
        exact ⟨remote, mid, hremote, htry, hlt, hlen⟩
    rw [hreplaces]
    split
    · next adopted hadopt =>
      rw [hadopt]
      simp only [ok.injEq, Option.some.injEq, exists_eq_left']
    all_goals
      next hadopt =>
        rw [hadopt]
        simp only [lt_irrefl, ok.injEq, reduceCtorEq, false_and, exists_false]

/-- The first block that the peer serves is appended, or it fails and the peer's chain replaces
ours. -/
def Delivers (E : Node) (clock : ℕ → DateTime) (peer : Peer) (requests : ℕ) (next : UInt64)
    (chain : Blockchain) : Prop :=
  ∃ block rest, peer.blocksFrom requests next = some (block :: rest) ∧
    ((∃ chain', append E (clock 0) chain block = ok chain') ∨
      (∃ e, append E (clock 0) chain block = err e) ∧ Replaces E (clock 1) peer chain)

theorem downloadFrom_higher_iff (hdepth : depth ∈ s.held) {next : UInt64} {batches requests : ℕ}
    (hnext : (s.chain.nextIndex : Outcome String UInt64) = ok next) (htarget : ¬ target < next) :
    s.chain.blocks.length < (downloadFrom E clock depth peer target (batches + 1) 0 requests
      s.chain).chain.blocks.length ↔ Delivers E clock peer requests next s.chain := by
  have hnot {p : Prop} (hp : ¬ p) {c : Blockchain} (hc : c = s.chain) :
      s.chain.blocks.length < c.blocks.length ↔ p :=
    iff_of_false (by rw [hc]; exact lt_irrefl _) hp
  have hidle (h : peer.blocksFrom requests next = none ∨ peer.blocksFrom requests next = some []) :
      ¬ Delivers E clock peer requests next s.chain := by
    rintro ⟨block, rest, hserved, -⟩
    rcases h with h | h <;> rw [h] at hserved <;> cases hserved
  cases hserved : peer.blocksFrom requests next with
  | none =>
    refine hnot (hidle (.inl hserved)) ?_
    rw [downloadFrom, hnext]
    dsimp only
    rw [if_neg htarget, hserved]
  | some blocks =>
    cases blocks with
    | nil =>
      refine hnot (hidle (.inr hserved)) ?_
      rw [downloadFrom, hnext]
      dsimp only
      rw [if_neg htarget, hserved]
    | cons block rest =>
      have hdelivers : Delivers E clock peer requests next s.chain ↔
          (∃ chain', append E (clock 0) s.chain block = ok chain') ∨
            (∃ e, append E (clock 0) s.chain block = err e) ∧ Replaces E (clock 1) peer s.chain := by
        constructor
        · rintro ⟨_, _, hsame, h⟩
          rw [hserved, Option.some.injEq, List.cons.injEq] at hsame
          obtain ⟨rfl, rfl⟩ := hsame
          exact h
        · exact fun h => ⟨block, rest, hserved, h⟩
      rw [hdelivers]
      rcases happend : append E (clock 0) s.chain block with chain' | e | _
      · -- an appended block stays
        refine iff_of_true ?_ (.inl ⟨chain', rfl⟩)
        rcases hbatch : applyBatch E (fun k => clock (0 + k)) s.chain [] (block :: rest)
          with ⟨mid, accepted, ending⟩
        refine lt_of_lt_of_le ?_ (downloadFrom_served hdepth hnext htarget hserved hbatch)
        rw [applyBatch, List.length_nil, happend] at hbatch
        obtain ⟨arrivals, -, hall, -⟩ := applyBatch_accepted hbatch
        have hblocks := accept_blocks (append_eq_ok.mp happend).1
        rw [acceptAll_length hall, hblocks, List.length_append, List.length_singleton]
        omega
      · have hfirst : downloadFrom E clock depth peer target (batches + 1) 0 requests s.chain =
            adoptViaForkChoice E (clock 1) depth peer 0 (requests + 1) s.chain := by
          rw [downloadFrom, hnext]
          dsimp only
          rw [if_neg htarget, hserved]
          dsimp only
          rw [applyBatch, List.length_nil, happend]
          rfl
        rw [hfirst, adoptViaForkChoice_higher_iff]
        simp only [reduceCtorEq, exists_false, false_or, err.injEq, exists_eq', true_and]
      · refine hnot ?_ ?_
        · simp only [reduceCtorEq, exists_false, false_and, or_self, not_false_eq_true]
        · rw [downloadFrom, hnext]
          dsimp only
          rw [if_neg htarget, hserved]
          dsimp only
          rw [applyBatch, List.length_nil, happend]
          rfl

theorem head_eq_ok {ours : ChainHead} (h : chain.head = ok ours) :
    ours.chainId = chain.genesisChainId ∧
      ours.rootHash = (chain.blocks.head?.map Block.hash).getD "" ∧
      ours.baseHeight = chain.baseHeight ∧
      (chain.tipIndex : Outcome String UInt64) = ok ours.height := by
  simp only [head, Outcome.bind_eq_ok, pure_eq, ok.injEq] at h
  obtain ⟨height, hheight, _, -, rfl⟩ := h
  exact ⟨rfl, rfl, rfl, hheight⟩

/-- A chain of bounded height and work reports its head. -/
theorem exists_head (hne : chain.blocks ≠ [])
    (hroom : chain.baseHeight.toNat + chain.blocks.length < 2 ^ 64)
    (hwork : work chain.blocks < 2 ^ 128) : ∃ ours, chain.head = ok ours := by
  rw [Blockchain.head, tipIndex_of_lt hne hroom, ok_bind, cumulativeWork_of_lt hwork]
  exact ⟨_, rfl⟩

/-- The next height is at most any height above the tip. -/
theorem nextIndex_of_tip {height : UInt64}
    (h : (chain.tipIndex : Outcome String UInt64) = ok height) :
    ∃ next, (chain.nextIndex : Outcome String UInt64) = ok next ∧
      ∀ target, height < target → ¬ target < next := by
  simp only [tipIndex, Outcome.bind_eq_ok, pure_eq, ok.injEq] at h
  obtain ⟨next, hnext, rfl⟩ := h
  refine ⟨next, hnext, fun target htarget => ?_⟩
  have hone : (1 : UInt64).toNat = 1 := rfl
  rw [UInt64.lt_iff_toNat_lt, Word.saturatingSub_toNat] at htarget
  rw [UInt64.lt_iff_toNat_lt]
  omega

/-- The polled peer with the highest claim claims more than we have, and delivers. -/
def BestDelivers (E : Node) (clock : ℕ → DateTime) (peers : List Peer) (chain : Blockchain) :
    Prop :=
  ∃ ours peer head next, chain.head = ok ours ∧
    bestPeer ours none (peers.take maxPeersPerTick) = some (peer, head) ∧
    ours.height < head.height ∧ (chain.nextIndex : Outcome String UInt64) = ok next ∧
    Delivers E clock peer (peers.take maxPeersPerTick).length next chain

/-- A pass ends higher exactly when the peer with the highest claim delivers. -/
theorem catchUp_higher_iff (hdepth : depth ∈ s.held) {peers : List Peer} :
    s.chain.blocks.length < (catchUp E clock depth peers s.chain).chain.blocks.length ↔
      BestDelivers E clock peers s.chain := by
  rw [catchUp]
  split_ifs with hpeers
  · refine iff_of_false (lt_irrefl _) ?_
    rintro ⟨_, _, _, _, -, hbest, -⟩
    rw [hpeers, List.take_nil] at hbest
    cases hbest
  · split
    · next ours hours =>
      dsimp only
      have hours' {ours' : ChainHead} (h : s.chain.head = ok ours') : ours' = ours := by
        rw [hours, ok.injEq] at h
        exact h.symm
      split
      · next hnone =>
        refine iff_of_false (lt_irrefl _) ?_
        rintro ⟨ours', _, _, _, hhead, hbest, -⟩
        rw [hours' hhead, hnone] at hbest
        cases hbest
      · next peer head hsome =>
        split_ifs with hlow
        · refine iff_of_false (lt_irrefl _) ?_
          rintro ⟨ours', peer', head', _, hhead, hbest, hlt, -⟩
          rw [hours' hhead, hsome, Option.some.injEq, Prod.mk.injEq] at hbest
          rw [hours' hhead, ← hbest.2] at hlt
          exact absurd hlt (UInt64.not_lt.mpr hlow)
        · obtain ⟨next, hnext, habove⟩ := nextIndex_of_tip (head_eq_ok hours).2.2.2
          have htarget := habove _ (UInt64.not_le.mp hlow)
          rw [show maxBatchesPerPass = 63 + 1 from rfl, downloadFrom_higher_iff hdepth hnext htarget]
          constructor
          · exact fun h => ⟨ours, peer, head, next, hours, hsome, UInt64.not_le.mp hlow, hnext, h⟩
          · rintro ⟨ours', peer', head', next', hhead, hbest, -, hnext', h⟩
            rw [hours' hhead, hsome, Option.some.injEq, Prod.mk.injEq] at hbest
            rw [hnext, ok.injEq] at hnext'
            rw [hnext', hbest.1]
            exact h
    · next hfailed =>
      refine iff_of_false (lt_irrefl _) ?_
      rintro ⟨ours, _, _, _, hhead, -⟩
      exact hfailed ours hhead

/-- A fresh node is served its first block. -/
theorem catchUp_higher_iff_sample : ∃ peer, Sample.started.chain.blocks.length <
    (catchUp (Sample.node [Sample.reward]) (fun _ => Sample.morning) 1 [peer]
      Sample.started.chain).chain.blocks.length := by
  have hderived := Sample.started_joined.rooted.derived
  obtain ⟨ours, hours⟩ := exists_head hderived.blocks_ne_nil (by decide)
    (hderived.work_lt Sample.started.fits)
  obtain ⟨next, hnext, -⟩ := nextIndex_of_tip (head_eq_ok hours).2.2.2
  have hlow : ours.height.toNat < (1 : UInt64).toNat := by
    rw [tipIndex_eq_ok (head_eq_ok hours).2.2.2]
    decide
  have haccept : accept (Sample.node [Sample.reward]) Sample.morning Sample.started.chain
      (Sample.nextBlock [Sample.reward] Sample.started.chain) =
        ok (Sample.grown [Sample.reward] Sample.started.chain) :=
    Sample.started_alone.accept_grown (by decide) rfl
  have happend := append_eq_ok.mpr ⟨haccept, by decide⟩
  obtain ⟨peer, hhead, hserved⟩ : ∃ peer : Peer, peer.head = some { ours with height := 1 } ∧
      ∀ n start, peer.blocksFrom n start =
        some [Sample.nextBlock [Sample.reward] Sample.started.chain] :=
    ⟨⟨some { ours with height := 1 },
      fun _ _ => some [Sample.nextBlock [Sample.reward] Sample.started.chain], none⟩, rfl,
      fun _ _ => rfl⟩
  refine ⟨peer, (catchUp_higher_iff (by decide)).mpr ⟨ours, peer, { ours with height := 1 }, next,
    hours, ?_, UInt64.lt_iff_toNat_lt.mpr hlow, hnext, _, [], hserved _ _, .inl ⟨_, happend⟩⟩⟩
  simp only [maxPeersPerTick, List.take_succ_cons, List.take_nil, bestPeer, hhead, sameNetwork,
    and_self, decide_true, not_true_eq_false, if_false, Option.all_none, if_true]

end Sync
