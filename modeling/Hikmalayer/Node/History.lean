/-
# Pulling the whole history

A peer that serves a valid chain which continues ours is followed block by block: each pass takes
as many of the missing blocks as its batches allow, until the chains are the same.
-/
import Mathlib.Tactic
import Hikmalayer.Node.Sync

open Outcome Blockchain NodeState

namespace Sync

variable {E : Node} {clock : ℕ → DateTime} {now : DateTime} {depth : UInt64}
  {chain chain' theirs : Blockchain} {more : List Block} {peer : Peer} {limit : ℕ}

/-! ## A chain that continues ours -/

/-- A valid chain has the blocks of our chain and some more, none too far in the future at any look
at the clock. -/
structure Continues (E : Node) (clock : ℕ → DateTime) (chain theirs : Blockchain)
    (more : List Block) : Prop where
  derived : Derived E chain
  valid : Derived E theirs
  network : theirs.network = chain.network
  blocks : theirs.blocks = chain.blocks ++ more
  timely : ∀ b ∈ more, ∀ n, ¬ ((clock n).addSeconds maxTimestampSkewSeconds).before b.timestamp
  room : theirs.baseHeight.toNat + theirs.blocks.length < 2 ^ 64
  fits : theirs.blocks.length < 2 ^ 63

theorem Continues.base (h : Continues E clock chain theirs more) :
    theirs.baseHeight = chain.baseHeight := baseHeight_of_network h.network

/-- The missing blocks replay from our tip to the fields of the other chain. -/
theorem Continues.replay (h : Continues E clock chain theirs more) :
    ∃ tip, chain.blocks.getLast? = some tip ∧
      replayFrom E chain.baseHeight chain.blocks tip
        ⟨chain.state, chain.randomness, chain.currentDifficulty⟩ more =
          ok ⟨theirs.state, theirs.randomness, theirs.currentDifficulty⟩ := by
  obtain ⟨anchor, rest, seed, hblocks, -, -, hseed, hreplay⟩ := validateFull_eq_ok.mp h.derived
  obtain ⟨anchor', rest', seed', hblocks', -, -, hseed', hreplay'⟩ := validateFull_eq_ok.mp h.valid
  rw [h.blocks, hblocks, List.cons_append, List.cons.injEq] at hblocks'
  obtain ⟨rfl, rfl⟩ := hblocks'
  obtain rfl : seed' = seed := replaySeed_network h.network rfl hseed hseed'
  rw [h.base, replayFrom_append, hreplay] at hreplay'
  obtain ⟨mid, hmid, hrest⟩ := hreplay'
  rw [ok.injEq] at hmid
  refine ⟨lastOr anchor rest, ?_, ?_⟩
  · rw [hblocks, List.getLast?_cons]
    rfl
  · rw [hblocks, hmid]
    exact hrest

/-- With no block missing, the derived fields are the same. -/
theorem Continues.same (h : Continues E clock chain theirs []) :
    chain.blocks = theirs.blocks ∧ chain.state = theirs.state ∧
      chain.randomness = theirs.randomness ∧ chain.currentDifficulty = theirs.currentDifficulty := by
  obtain ⟨tip, -, hreplay⟩ := h.replay
  rw [replayFrom, ok.injEq, Replay.mk.injEq] at hreplay
  refine ⟨?_, hreplay⟩
  rw [h.blocks, List.append_nil]

/-! ## One batch -/

/-- The blocks of a replay from our tip are all appended. -/
theorem applyBatch_of_replayFrom {l : List Block} : ∀ {chain : Blockchain} {previous : Block}
    {r : Replay} {accepted : List Block}, chain.blocks.getLast? = some previous →
      chain.blocks.length + l.length < 2 ^ 63 →
      (∀ b ∈ l, ∀ n, ¬ ((clock n).addSeconds maxTimestampSkewSeconds).before b.timestamp) →
      replayFrom E chain.baseHeight chain.blocks previous
        ⟨chain.state, chain.randomness, chain.currentDifficulty⟩ l = ok r →
      applyBatch E clock chain accepted l = ({ chain with
        blocks := chain.blocks ++ l
        state := r.state
        randomness := r.randomness
        currentDifficulty := r.difficulty }, accepted ++ l, .served) := by
  induction l with
  | nil =>
    intro chain previous r accepted _ _ _ h
    rw [replayFrom, ok.injEq] at h
    rw [applyBatch, ← h, List.append_nil, List.append_nil]
  | cons block rest ih =>
    intro chain previous r accepted hlast hlen htime h
    obtain ⟨r', hstep, hrest⟩ := (replayFrom_cons rest).mp h
    rw [List.length_cons] at hlen
    have hlength : (chain.extended block r').blocks.length = chain.blocks.length + 1 := by
      simp [extended]
    have happend : append E (clock accepted.length) chain block = ok (chain.extended block r') :=
      append_eq_ok.mpr ⟨(accept_eq_ok (by omega)).mpr
        ⟨htime block List.mem_cons_self _, previous, r', hlast, hstep, rfl⟩, by omega⟩
    rw [applyBatch, happend]
    dsimp only
    rw [@ih (chain.extended block r') block r (accepted ++ [block]) (List.getLast?_concat)
      (by omega) (fun b hb => htime b (List.mem_cons_of_mem _ hb)) hrest]
    simp only [extended, List.append_assoc, List.singleton_append]

/-- The chain with some of the missing blocks appended and finality moved. -/
theorem Continues.advance (h : Continues E clock chain theirs more) (l rest : List Block)
    (hsplit : more = l ++ rest) (hl : l ≠ []) (applied : ℕ) (depth : UInt64) :
    ∃ mid chain', applyBatch E (fun k => clock (applied + k)) chain [] l = (mid, l, .served) ∧
      finalAfter depth l mid = ok chain' ∧ Continues E clock chain' theirs rest := by
  obtain ⟨tip, htip, hreplay⟩ := h.replay
  rw [hsplit, replayFrom_append] at hreplay
  obtain ⟨r, hfirst, -⟩ := hreplay
  have hfits := h.fits
  have hroom := h.room
  rw [h.blocks, hsplit, List.length_append, List.length_append] at hfits hroom
  have htimely : ∀ b ∈ l, ∀ n,
      ¬ ((clock (applied + n)).addSeconds maxTimestampSkewSeconds).before b.timestamp :=
    fun b hb n => h.timely b (by rw [hsplit]; exact List.mem_append_left _ hb) _
  have hbatch := @applyBatch_of_replayFrom E (fun k => clock (applied + k)) l chain tip r [] htip
    (by omega) htimely hfirst
  obtain ⟨arrivals, -, hall, -⟩ := applyBatch_accepted hbatch
  have hlen : (chain.blocks ++ l).length < 2 ^ 63 := by
    rw [List.length_append]
    omega
  have hderived := h.derived.acceptAll hall hlen
  obtain ⟨tip', htip'⟩ : ∃ tip' : UInt64, (({ chain with
      blocks := chain.blocks ++ l
      state := r.state
      randomness := r.randomness
      currentDifficulty := r.difficulty } : Blockchain).tipIndex : Outcome String UInt64) = ok tip' := by
    refine ⟨_, tipIndex_of_lt ?_ ?_⟩
    · exact List.append_ne_nil_of_right_ne_nil _ hl
    · show chain.baseHeight.toNat + (chain.blocks ++ l).length < 2 ^ 64
      rw [List.length_append, ← h.base]
      omega
  obtain ⟨chain', hfinal⟩ := applyFinality_returns htip' depth
  rw [List.nil_append] at hbatch
  refine ⟨_, chain', hbatch, finalAfter_eq_ok.mpr (.inr ⟨hl, hfinal⟩), ?_⟩
  have hchain := applyFinality_fields hfinal
  constructor
  case derived =>
    rw [hchain]
    exact hderived
  case valid => exact h.valid
  case network =>
    rw [hchain, h.network]
    rfl
  case blocks =>
    rw [applyFinality_blocks hfinal, h.blocks, hsplit, List.append_assoc]
  case timely => exact fun b hb n => h.timely b (by rw [hsplit]; exact List.mem_append_right _ hb) n
  case room => exact h.room
  case fits => exact h.fits

/-! ## One pass -/

/-- The blocks after our tip, as they are served. -/
theorem Continues.blocksFrom (h : Continues E clock chain theirs more) {next : UInt64}
    (hnext : (chain.nextIndex : Outcome String UInt64) = ok next) :
    theirs.blocksFrom next limit = more.take limit := by
  rw [nextIndex, plain_eq_ok, Word.checkedAdd_eq_some] at hnext
  have hfits := h.fits
  rw [h.blocks, List.length_append] at hfits
  rw [Word.toNat_ofNat_of_lt (by omega)] at hnext
  have hle : chain.baseHeight ≤ next := by
    rw [UInt64.le_iff_toNat_le]
    omega
  have hstart : (next - theirs.baseHeight).toNat = chain.blocks.length := by
    rw [h.base, UInt64.toNat_sub_of_le _ _ hle]
    omega
  rw [Blockchain.blocksFrom, if_neg (by rw [h.base]; exact UInt64.not_lt.mpr hle), hstart, h.blocks,
    List.drop_left]

theorem Continues.nextIndex (h : Continues E clock chain theirs more) :
    ∃ next : UInt64, (chain.nextIndex : Outcome String UInt64) = ok next ∧
      next.toNat = chain.baseHeight.toNat + chain.blocks.length := by
  have hroom := h.room
  rw [h.blocks, List.length_append, h.base] at hroom
  have hlen : (UInt64.ofNat chain.blocks.length).toNat = chain.blocks.length :=
    Word.toNat_ofNat_of_lt (by omega)
  refine ⟨_, ?_, Word.toNat_ofNat_of_lt (show chain.baseHeight.toNat + chain.blocks.length < 2 ^ 64 by
    omega)⟩
  rw [Blockchain.nextIndex, plain_eq_ok, Word.checkedAdd_eq_some, hlen,
    Word.toNat_ofNat_of_lt (by omega)]

/-- The height of the other chain's tip. -/
theorem Continues.target (h : Continues E clock chain theirs more) {target : UInt64}
    (htarget : (theirs.tipIndex : Outcome String UInt64) = ok target) :
    target.toNat + 1 = chain.baseHeight.toNat + chain.blocks.length + more.length := by
  have hpos : 0 < chain.blocks.length := List.length_pos_iff.mpr h.derived.blocks_ne_nil
  have hheight := tipIndex_eq_ok htarget
  rw [tipHeight_of_lt h.room, h.blocks, List.length_append, h.base] at hheight
  omega

/-- A chain that is continued reports its head. -/
theorem Continues.exists_head (h : Continues E clock chain theirs more) :
    ∃ ours, chain.head = ok ours := by
  have hfits := h.fits
  have hroom := h.room
  rw [h.blocks, List.length_append] at hfits hroom
  rw [h.base] at hroom
  exact Sync.exists_head h.derived.blocks_ne_nil (by omega) (h.derived.work_lt (by omega))

/-- The chain after some passes, each at its own looks at the clock, with the depth and the peers of
its time. -/
def passes (E : Node) (clock : ℕ → ℕ → DateTime) (depth : ℕ → UInt64) (polls : ℕ → List Peer)
    (chain : Blockchain) : ℕ → Blockchain
  | 0 => chain
  | k + 1 => (catchUp E (clock k) (depth k) (polls k) (passes E clock depth polls chain k)).chain

theorem Continues.later {clock' : ℕ → DateTime} (h : Continues E clock chain theirs more)
    (htimely : ∀ b ∈ more, ∀ n, ¬ ((clock' n).addSeconds maxTimestampSkewSeconds).before b.timestamp) :
    Continues E clock' chain theirs more := { h with timely := htimely }

end Sync
