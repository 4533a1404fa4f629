/-
# Nodes that hear each other's chains agree

Nodes of one network whose chains fork no deeper than the finality depth, and which all hear,
directly or through others, of the chain that each had, end with chains of one rank, whatever the
order: each holds one of the best.  The exchange simulates nodes that keep the best of what they
hear.
-/
import Mathlib.Tactic
import Hikmalayer.Foundations.Gossip
import Hikmalayer.Consensus.Adoption
import Hikmalayer.Node.Sync

open Outcome Blockchain NodeState

namespace Exchange

variable {ι : Type} {E : Node} {start s : ι → NodeState} {depth : UInt64} {now : DateTime}

/-! ## Exchanging chains -/

/-- A node fetches the chain that another one has. -/
structure Hearing (ι : Type) where
  node : ι
  source : ι
  now : DateTime

variable [DecidableEq ι]

/-- A node that hears a chain adopts it, and moves finality, or keeps its own. -/
def hear (E : Node) (depth : UInt64) (nodes : ι → Blockchain) (h : Hearing ι) : ι → Blockchain :=
  match adoptFinal E h.now depth (nodes h.node) (nodes h.source) with
  | ok (some chain) => Function.update nodes h.node chain
  | _ => nodes

/-- The chains of the nodes after everything is heard. -/
def exchange (E : Node) (depth : UInt64) :
    (ι → Blockchain) → List (Hearing ι) → ι → Blockchain
  | nodes, [] => nodes
  | nodes, h :: rest => exchange E depth (hear E depth nodes h) rest

/-- Who hears whom. -/
def routes (hearings : List (Hearing ι)) : List (ι × ι) := hearings.map fun h => (h.node, h.source)

/-! ## One network -/

/-- Nodes that have joined one network and run on it. -/
structure Network (E : Node) (start s : ι → NodeState) : Prop where
  joined : ∀ i, Joined E (start i).chain
  run : ∀ i, Run E (fun _ _ => True) (start i) (s i)
  network : ∀ i j, (start i).chain.network = (start j).chain.network
  room : ∀ i, (s i).chain.baseHeight.toNat + (s i).chain.blocks.length < 2 ^ 63

/-- Some node has made the block at this position final, or would at this depth. -/
def Reached (depth : UInt64) (s : ι → NodeState) (k : ℕ) : Prop :=
  ∃ l, (s l).chain.baseHeight.toNat + k ≤ (s l).chain.finalizedHeight.toNat ∨
    k + depth.toNat < (s l).chain.blocks.length

/-- Wherever a block is final at some node, or would be, all nodes have one of the same hash. -/
def Shallow (depth : UInt64) (s : ι → NodeState) : Prop :=
  ∀ k, Reached depth s k → ∀ i j, ∃ b b', (s i).chain.blocks[k]? = some b ∧
    (s j).chain.blocks[k]? = some b' ∧ b.hash = b'.hash

/-- The tip of the chain is not too far in the future. -/
def Tolerated (now : DateTime) (chain : Blockchain) : Prop :=
  ∀ tip, chain.blocks.getLast? = some tip →
    ¬ (now.addSeconds maxTimestampSkewSeconds).before tip.timestamp

omit [DecidableEq ι] in
theorem Network.base (h : Network E start s) (i j : ι) :
    (s i).chain.baseHeight = (s j).chain.baseHeight := by
  have hi := ((h.run i).grounded (h.joined i).rooted.derived).network
  have hj := ((h.run j).grounded (h.joined j).rooted.derived).network
  have hsame : (s i).chain.network = (s j).chain.network := by
    rw [hi, hj, h.network i j]
  exact baseHeight_of_network hsame

omit [DecidableEq ι] in
theorem Network.settled (h : Network E start s) (i : ι) : Settled (s i).chain :=
  (h.run i).settled (h.joined i).rooted.settled

omit [DecidableEq ι] in
/-- The root is final everywhere. -/
theorem Network.reached_zero (h : Network E start s) (i : ι) : Reached depth s 0 := by
  obtain ⟨_, -, hbase, -⟩ := (h.settled i).tip
  rw [UInt64.le_iff_toNat_le] at hbase
  exact ⟨i, .inl (by omega)⟩

/-! ## What a node holds -/

/-- Only the blocks and the base height of what is offered count. -/
theorem adoptFinal_congr {chain candidate candidate' : Blockchain}
    (hblocks : candidate.blocks = candidate'.blocks)
    (hbase : candidate.baseHeight = candidate'.baseHeight) :
    adoptFinal E now depth chain candidate = adoptFinal E now depth chain candidate' := by
  have htip : @tipIndex String candidate = candidate'.tipIndex := by
    rw [tipIndex, tipIndex, nextIndex, nextIndex, hblocks, hbase]
  have hwork : @cumulativeWork String candidate = candidate'.cumulativeWork := by
    rw [cumulativeWork, cumulativeWork, hblocks]
  have hkeep : keepsOurs chain candidate = keepsOurs chain candidate' := by
    rw [keepsOurs, keepsOurs, htip, hwork]
  have hreplay : replayOf chain candidate = replayOf chain candidate' := by
    rw [replayOf, replayOf, hblocks]
  rw [adoptFinal, adoptFinal, tryAdoptChain, tryAdoptChain, hblocks, hbase, hkeep, hreplay]

/-- The node holds the blocks of some node, and has made final only what is. -/
structure Holds (depth : UInt64) (s : ι → NodeState) (i j : ι) (chain : Blockchain) : Prop where
  taken : chain = { (s i).chain.taking (s j).chain with finalizedHeight := chain.finalizedHeight }
  base : (s i).chain.baseHeight ≤ chain.finalizedHeight
  final : ∀ k, (s i).chain.baseHeight.toNat + k ≤ chain.finalizedHeight.toNat → Reached depth s k

omit [DecidableEq ι] in
theorem Holds.self (h : Network E start s) (i : ι) : Holds depth s i i (s i).chain := by
  obtain ⟨_, -, hbase, -⟩ := (h.settled i).tip
  exact ⟨rfl, hbase, fun k hk => ⟨i, .inl hk⟩⟩

omit [DecidableEq ι] in
theorem Holds.blocks_eq {i j : ι} {chain : Blockchain} (hholds : Holds depth s i j chain) :
    chain.blocks = (s j).chain.blocks := by
  rw [hholds.taken]
  rfl

omit [DecidableEq ι] in
theorem Holds.baseHeight_eq {i j : ι} {chain : Blockchain} (hholds : Holds depth s i j chain) :
    chain.baseHeight = (s i).chain.baseHeight := by
  rw [hholds.taken]
  rfl

omit [DecidableEq ι] in
/-- What finality adds at this depth is within reach. -/
theorem reached_of_finalAt (h : Network E start s) {i j : ι} {k : ℕ}
    (hk : (s i).chain.baseHeight.toNat + k ≤ finalAt (s i).chain.baseHeight.toNat
      (tipHeight (s i).chain.baseHeight (s j).chain.blocks) depth.toNat) : Reached depth s k := by
  have hbase := h.base i j
  have hroom := h.room j
  rw [← hbase] at hroom
  have hpos : 0 < (s j).chain.blocks.length := List.length_pos_iff.mpr (h.settled j).nonempty
  rw [tipHeight_of_lt (by omega), finalAt] at hk
  by_cases hzero : k = 0
  · rw [hzero]
    exact h.reached_zero i
  · refine ⟨j, .inr ?_⟩
    split at hk <;> omega

omit [DecidableEq ι] in
/-- A node that holds a chain considers every other one, as long as it is not from the future. -/
theorem Holds.considers (h : Network E start s) (hshallow : Shallow depth s) {i j l : ι}
    {chain : Blockchain} (hholds : Holds depth s i j chain) (htimely : Tolerated now (s l).chain) :
    Considers chain (s l).chain now := by
  have hblocks := hholds.blocks_eq
  have hbase := hholds.baseHeight_eq
  refine ⟨?_, by rw [hbase, h.base l i], fun k hk => ?_, htimely⟩
  · obtain ⟨ours, theirs, hours, htheirs, hhash⟩ := hshallow 0 (h.reached_zero i) j l
    refine ⟨ours, theirs, ?_, ?_, hhash⟩
    · rw [hblocks, List.head?_eq_getElem?]
      exact hours
    · rw [List.head?_eq_getElem?]
      exact htheirs
  · rw [hbase] at hk
    rw [hblocks]
    exact hshallow k (hholds.final k hk) j l

omit [DecidableEq ι] in
/-- What a node holds is genuine for another that holds something. -/
theorem Holds.genuine (h : Network E start s) {i j : ι} {chain : Blockchain}
    (hholds : Holds depth s i j chain) (l : ι) : Genuine E chain (s l).chain := by
  have hsame := h.base l i
  have hgrounded := (h.run l).grounded (h.joined l).rooted.derived
  have hgrounded' := (h.run i).grounded (h.joined i).rooted.derived
  have hnetwork : chain.network = (s i).chain.network := by
    rw [hholds.taken]
    rfl
  have hbase := hholds.baseHeight_eq
  refine ⟨hgrounded.derived, ?_, ?_⟩
  · rw [hnetwork, hgrounded.network, hgrounded'.network, h.network l i]
  · rw [hbase, ← hsame]
    exact h.room l

omit [DecidableEq ι] in
theorem Holds.comparable (h : Network E start s) {i j : ι} {chain : Blockchain}
    (hholds : Holds depth s i j chain) : Comparable chain := by
  have hcomparable := (h.joined j).comparable (h.run j)
  have hsame := h.base j i
  have hblocks := hholds.blocks_eq
  have hbase : chain.baseHeight = (s j).chain.baseHeight := by
    rw [hholds.baseHeight_eq, hsame]
  refine ⟨?_, ?_, ?_⟩
  · rw [hblocks]
    exact hcomparable.nonempty
  · rw [hblocks, hbase]
    exact hcomparable.room
  · rw [hblocks]
    exact hcomparable.work

omit [DecidableEq ι] in
theorem Holds.rank (h : Network E start s) {i j : ι} {chain : Blockchain}
    (hholds : Holds depth s i j chain) (l : ι) :
    chain.rank = (s j).chain.rank ∧
      rankOf chain.baseHeight (s l).chain.blocks = (s l).chain.rank := by
  have hbase := hholds.baseHeight_eq
  have hblocks := hholds.blocks_eq
  constructor
  · rw [Blockchain.rank, Blockchain.rank, hbase, hblocks, h.base i j]
  · rw [Blockchain.rank, hbase, h.base i l]

omit [DecidableEq ι] in
/-- Hearing a chain, a node takes it over exactly when it ranks higher. -/
theorem Holds.hears (h : Network E start s) (hshallow : Shallow depth s) {i j i' l : ι}
    {chain other : Blockchain} (hholds : Holds depth s i j chain)
    (hother : Holds depth s i' l other) (htimely : Tolerated now (s l).chain) :
    ((s j).chain.rank < (s l).chain.rank ∧ ∃ chain',
      adoptFinal E now depth chain other = ok (some chain') ∧ Holds depth s i l chain') ∨
    (¬ (s j).chain.rank < (s l).chain.rank ∧
      adoptFinal E now depth chain other = ok none) := by
  have hsame : other.baseHeight = (s l).chain.baseHeight := by
    rw [hother.baseHeight_eq, h.base i' l]
  rw [adoptFinal_congr hother.blocks_eq hsame]
  have hbase := hholds.baseHeight_eq
  have hgenuine := hholds.genuine h l
  have htry := hgenuine.tryAdoptChain (hholds.considers h hshallow htimely) (hholds.comparable h)
    (le_of_eq_of_le hbase hholds.base)
  rw [(hholds.rank h l).1, (hholds.rank h l).2] at htry
  by_cases hrank : (s j).chain.rank < (s l).chain.rank
  · rw [if_pos hrank] at htry
    left
    refine ⟨hrank, ?_⟩
    have hne : (chain.taking (s l).chain).blocks ≠ [] := (h.settled l).nonempty
    have hroom : (chain.taking (s l).chain).baseHeight.toNat +
        (chain.taking (s l).chain).blocks.length < 2 ^ 64 :=
      lt_trans hgenuine.room (by norm_num)
    have hlen : (chain.taking (s l).chain).blocks.length < 2 ^ 63 := (s l).fits
    obtain ⟨chain', hfinal⟩ := Sync.applyFinality_returns (tipIndex_of_lt hne hroom) depth
    refine ⟨chain', Sync.adoptFinal_eq_some.mpr ⟨_, htry, hlen, hfinal⟩, ?_⟩
    obtain ⟨tip, htip, finalized, hfinalized, rfl⟩ := (applyFinality_eq_ok hne).mp hfinal
    rw [tipIndex_eq_ok htip] at hfinalized
    have hfinalized : finalized.toNat = finalAt (s i).chain.baseHeight.toNat
        (tipHeight (s i).chain.baseHeight (s l).chain.blocks) depth.toNat := by
      rw [← hbase]
      exact hfinalized
    constructor
    case taken =>
      show _ = { (s i).chain.taking (s l).chain with finalizedHeight := finalized }
      rw [hholds.taken]
      rfl
    case base =>
      rw [UInt64.le_iff_toNat_le]
      show _ ≤ finalized.toNat
      have hpos : 0 < (s l).chain.blocks.length := List.length_pos_iff.mpr (h.settled l).nonempty
      have hroom := h.room l
      rw [h.base l i] at hroom
      rw [hfinalized, tipHeight_of_lt (by omega), finalAt]
      split <;> omega
    case final =>
      intro k hk
      rw [show finalized.toNat = _ from hfinalized] at hk
      exact reached_of_finalAt h hk
  · rw [if_neg hrank] at htry
    refine .inr ⟨hrank, ?_⟩
    rw [adoptFinal, htry]

/-! ## The exchange -/

/-- While nodes hear chains, each holds the best of what it had and heard. -/
theorem exchange_holds (h : Network E start s) (hshallow : Shallow depth s)
    (hearings : List (Hearing ι)) :
    ∀ {nodes : ι → Blockchain} {held : ι → ι}, (∀ i, Holds depth s i (held i) (nodes i)) →
      (∀ g ∈ hearings, ∀ j, Tolerated g.now (s j).chain) →
      ∀ i, Holds depth s i (Gossip.gossip (fun j => (s j).chain.rank) held (routes hearings) i)
        (exchange E depth nodes hearings i) := by
  induction hearings with
  | nil => exact fun hholds _ => hholds
  | cons g rest ih =>
    intro nodes held hholds htimely
    refine ih ?_ fun g' hg' => htimely g' (List.mem_cons_of_mem _ hg')
    intro i
    rcases (hholds g.node).hears h hshallow (hholds g.source) (htimely g List.mem_cons_self _) with
      ⟨hrank, chain', hadopt, hnew⟩ | ⟨hrank, hkeep⟩
    · have hhear : hear E depth nodes g = Function.update nodes g.node chain' := by
        rw [hear, hadopt]
      rw [hhear, Gossip.better, if_pos hrank]
      by_cases hi : i = g.node
      · subst hi
        rw [Function.update_self, Function.update_self]
        exact hnew
      · rw [Function.update_of_ne hi, Function.update_of_ne hi]
        exact hholds i
    · have hhear : hear E depth nodes g = nodes := by
        rw [hear, hkeep]
      rw [hhear, Gossip.better, if_neg hrank, Function.update_eq_self]
      exact hholds i

/-- After all are informed of what each had, all chains have one rank, and every node has the blocks,
ledger, beacon and difficulty of one of the best. -/
theorem exchange_converges (h : Network E start s) (hshallow : Shallow depth s)
    {hearings : List (Hearing ι)} (htimely : ∀ g ∈ hearings, ∀ j, Tolerated g.now (s j).chain)
    (hall : ∀ i j, Gossip.Informed (routes hearings) i j) :
    let after := exchange E depth (fun i => (s i).chain) hearings
    (∀ i j, (after i).rank = (after j).rank) ∧
      ∀ i, ∃ j, (∀ k, (s k).chain.rank ≤ (s j).chain.rank) ∧
        (after i).blocks = (s j).chain.blocks ∧ (after i).state = (s j).chain.state ∧
        (after i).randomness = (s j).chain.randomness ∧
        (after i).currentDifficulty = (s j).chain.currentDifficulty := by
  have hholds := exchange_holds h hshallow hearings (fun i => Holds.self h i) htimely
  have hbest : ∀ i, ∃ j, Holds depth s i j (exchange E depth (fun i => (s i).chain) hearings i) ∧
      ∀ k, (s k).chain.rank ≤ (s j).chain.rank := by
    intro i
    obtain ⟨j, hj, hmax⟩ := Gossip.gossip_best (fun j => (s j).chain.rank) (fun i => i) hall i
    exact ⟨j, hj ▸ hholds i, hmax⟩
  refine ⟨fun i j => ?_, fun i => ?_⟩
  · obtain ⟨i', hi, hmax⟩ := hbest i
    obtain ⟨j', hj, hmax'⟩ := hbest j
    rw [(hi.rank h i).1, (hj.rank h j).1]
    exact le_antisymm (hmax' i') (hmax j')
  · obtain ⟨j, hj, hmax⟩ := hbest i
    refine ⟨j, hmax, hj.blocks_eq, ?_, ?_, ?_⟩
    · exact (congrArg Blockchain.state hj.taken).trans rfl
    · exact (congrArg Blockchain.randomness hj.taken).trans rfl
    · exact (congrArg Blockchain.currentDifficulty hj.taken).trans rfl

/-- A fresh node and one that is a block ahead agree once each has heard the other. -/
theorem exchange_converges_sample : ∃ s : Bool → NodeState,
    (s false).chain.rank < (s true).chain.rank ∧ ∀ i j,
      (exchange (Sample.node [Sample.reward]) 1 (fun i => (s i).chain)
        [⟨true, false, Sample.morning⟩, ⟨false, true, Sample.morning⟩] i).rank =
      (exchange (Sample.node [Sample.reward]) 1 (fun i => (s i).chain)
        [⟨true, false, Sample.morning⟩, ⟨false, true, Sample.morning⟩] j).rank := by
  obtain ⟨s', hrun, halone, hlen, hfinal, ⟨theirs, htheirs, hhash⟩, htimely⟩ := Sample.exists_ahead
  obtain ⟨s, hs⟩ : ∃ s : Bool → NodeState, s = fun i => bif i then s' else Sample.started := ⟨_, rfl⟩
  have hfalse : s false = Sample.started := by rw [hs]; rfl
  have htrue : s true = s' := by rw [hs]; rfl
  have hroot : Sample.started.chain.blocks.head? = some Sample.rootBlock := rfl
  have hnetwork : Network (Sample.node [Sample.reward]) (fun _ => Sample.started) s := by
    refine ⟨fun _ => Sample.started_joined, fun i => ?_, fun _ _ => rfl, fun i => ?_⟩
    all_goals cases i
    · rw [hfalse]
      exact .refl
    · rw [htrue]
      exact hrun
    · rw [hfalse]
      decide
    · rw [htrue, halone.base, hlen]
      decide
  have hreached : ∀ k, Reached 1 s k → k = 0 := by
    rintro k ⟨l, hl⟩
    cases l
    · rw [hfalse] at hl
      have hl : 0 + k ≤ 0 ∨ k + 1 < 1 := hl
      omega
    · rw [htrue, halone.base, hfinal, hlen] at hl
      have hl : 0 + k ≤ 0 ∨ k + 1 < 2 := hl
      omega
  have hshallow : Shallow 1 s := by
    intro k hk i j
    rw [hreached k hk, ← List.head?_eq_getElem?, ← List.head?_eq_getElem?]
    cases i <;> cases j
    · exact ⟨Sample.rootBlock, Sample.rootBlock, by rw [hfalse]; rfl, by rw [hfalse]; rfl, rfl⟩
    · exact ⟨Sample.rootBlock, theirs, by rw [hfalse]; rfl, by rw [htrue]; exact htheirs, hhash⟩
    · exact ⟨theirs, Sample.rootBlock, by rw [htrue]; exact htheirs, by rw [hfalse]; rfl, hhash.symm⟩
    · exact ⟨theirs, theirs, by rw [htrue]; exact htheirs, by rw [htrue]; exact htheirs, rfl⟩
  refine ⟨s, ?_, (exchange_converges hnetwork hshallow (fun g hg j => ?_) fun i j => ?_).1⟩
  · rw [hfalse, htrue]
    exact Sample.rank_lt_of_length halone hlen
  · have hnow : g.now = Sample.morning := by
      rcases List.mem_cons.mp hg with rfl | hg
      · rfl
      · rw [List.mem_singleton.mp hg]
    rw [hnow]
    cases j
    · rw [hfalse]
      intro tip htip
      have htip : some Sample.rootBlock = some tip := htip
      rw [← Option.some.inj htip]
      decide
    · rw [htrue]
      exact htimely
  · by_cases hij : i = j
    · rw [hij]
      exact Gossip.informed_self _ j
    · refine Gossip.informed_of_mem ?_
      cases i <;> cases j <;> first | exact absurd rfl hij | decide

end Exchange
