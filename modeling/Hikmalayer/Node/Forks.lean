/-
# Blocks of a fork

How a node takes a block whose parent is not its tip.  The handler goes by the text of the first
check that fails, and the check on the parent comes fourth: at the next height, a fork block that
is dated before the local tip or carries another difficulty is taken for misbehaviour.
-/
import Mathlib.Tactic
import Hikmalayer.Node.Boot
import Hikmalayer.Consensus.Extension

open Outcome

namespace Blockchain

variable {E : Node} {chain : Blockchain} {now : DateTime} {block tip : Block} {index : UInt64}

/-- The structural errors that tell of another tip. -/
def tipMismatches : List BlockError :=
  [.structural "Block index does not match chain tip",
    .structural "Block previous hash does not match chain tip"]

/-- Their texts are those that the handler looks for. -/
theorem containsText_tipMismatches : ∀ error ∈ tipMismatches,
    containsText error.reason "chain tip" = true := by
  decide +kernel

/-- The other errors of the header's place are not taken for one. -/
theorem containsText_precedes :
    containsText "Block timestamp precedes its parent" "chain tip" = false ∧
      containsText "Block difficulty does not match retarget schedule" "chain tip" = false := by
  decide +kernel

/-- At another height than the next one; or dated no earlier than the local tip, with the
difficulty that the local chain asks for. -/
def ReachesParentCheck (chain : Blockchain) (block : Block) : Prop :=
  ∃ index tip, (chain.nextIndex : Outcome String UInt64) = ok index ∧
    chain.blocks.getLast? = some tip ∧ (block.index ≠ index ∨
      ¬ block.timestamp.before tip.timestamp ∧ block.difficulty = chain.currentDifficulty)

/-- The first check that a block with another parent fails. -/
theorem checkPosition_fork {place : Position} (hparent : block.previousHash ≠ place.previousHash) :
    checkPosition block place =
      if block.index ≠ place.index then
        err (.structural "Block index does not match chain tip")
      else if block.timestamp.before place.parentTimestamp then
        err (.misbehaviour "Block timestamp precedes its parent")
      else if block.difficulty ≠ place.difficulty then
        err (.misbehaviour "Block difficulty does not match retarget schedule")
      else err (.structural "Block previous hash does not match chain tip") := by
  rw [checkPosition]
  by_cases hindex : block.index = place.index
  · rw [ensure_pos hindex, ok_bind, if_neg (not_not.mpr hindex)]
    by_cases htime : block.timestamp.before place.parentTimestamp
    · rw [ensure_neg (not_not.mpr htime), if_pos htime]
      rfl
    · rw [ensure_pos htime, ok_bind, if_neg htime]
      by_cases hdifficulty : block.difficulty = place.difficulty
      · rw [ensure_pos hdifficulty, ok_bind, if_neg (not_not.mpr hdifficulty), ensure_neg hparent]
        rfl
      · rw [ensure_neg hdifficulty, if_pos hdifficulty]
        rfl
  · rw [ensure_neg hindex, if_pos hindex]
    rfl

/-- A block with another parent that is not from the future is refused for its place, or the
chain has no place for it. -/
theorem validateBlockCandidate_fork (hfuture :
    ¬ (now.addSeconds maxTimestampSkewSeconds).before block.timestamp)
    (hparent : block.previousHash ≠ chain.latestHash) (htip : chain.blocks.getLast? = some tip)
    (hindex : (chain.nextIndex : Outcome String UInt64) = ok index) :
    validateBlockCandidate E chain now block =
      if block.index ≠ index then err "Block index does not match chain tip"
      else if block.timestamp.before tip.timestamp then err "Block timestamp precedes its parent"
      else if block.difficulty ≠ chain.currentDifficulty then
        err "Block difficulty does not match retarget schedule"
      else err "Block previous hash does not match chain tip" := by
  have hplace : (chain.nextPosition tip.timestamp : Outcome String Position) =
      ok ⟨index, chain.latestHash, chain.randomness, tip.timestamp, chain.currentDifficulty⟩ := by
    rw [nextPosition, hindex]
    rfl
  rw [validateBlockCandidate, ensure_pos hfuture, ok_bind, htip, Option.map_some, okOr_some,
    ok_bind, hplace, ok_bind, validateBlockAt, checkPosition_fork hparent]
  split_ifs <;> rfl

/-- Such a block is refused as one of another tip exactly when its parent is looked at, or its
height is not the next one. -/
theorem mismatch_iff (hfuture :
    ¬ (now.addSeconds maxTimestampSkewSeconds).before block.timestamp)
    (hparent : block.previousHash ≠ chain.latestHash) :
    (∃ error ∈ tipMismatches, validateBlockCandidate E chain now block = err error.reason) ↔
      ReachesParentCheck chain block := by
  constructor
  · rintro ⟨error, herror, hrefused⟩
    have hcontains := containsText_tipMismatches error herror
    have hrefused' := hrefused
    rw [validateBlockCandidate, ensure_pos hfuture, ok_bind] at hrefused'
    cases htip : chain.blocks.getLast? with
    | none =>
      rw [htip] at hrefused'
      have hempty : "Chain is empty" = error.reason := err.inj hrefused'
      rw [← hempty] at hcontains
      exact absurd hcontains (by decide +kernel)
    | some tip =>
      cases hindex : (chain.nextIndex : Outcome String UInt64) with
      | err message =>
        simp only [nextIndex, plain] at hindex
        split at hindex <;> cases hindex
      | panicked =>
        rw [htip, Option.map_some, okOr_some, ok_bind, nextPosition, hindex] at hrefused'
        cases hrefused'
      | ok index =>
        refine ⟨index, tip, hindex, htip, ?_⟩
        rw [validateBlockCandidate_fork hfuture hparent htip hindex] at hrefused
        split_ifs at hrefused with hnext htime hdifficulty
        · exact Or.inl hnext
        · rw [← err.inj hrefused, containsText_precedes.1] at hcontains
          cases hcontains
        · rw [← err.inj hrefused, containsText_precedes.2] at hcontains
          cases hcontains
        · exact Or.inr ⟨htime, not_not.mp hdifficulty⟩
  · rintro ⟨index, tip, hindex, htip, hplace⟩
    rw [validateBlockCandidate_fork hfuture hparent htip hindex]
    by_cases hnext : block.index ≠ index
    · exact ⟨_, List.mem_cons_self, if_pos hnext⟩
    · obtain ⟨htime, hdifficulty⟩ := hplace.resolve_left hnext
      refine ⟨_, List.mem_cons_of_mem _ List.mem_cons_self, ?_⟩
      rw [if_neg hnext, if_neg htime, if_neg (not_not.mpr hdifficulty)]
      rfl

end Blockchain

namespace Settings

open Blockchain

variable {cfg : Settings} {i : Surroundings} {s : AppState} {block : Block}

/-- A block is taken as one of a fork: it is refused for another tip, a synchronization starts, and
nobody is charged. -/
structure TreatedAsFork (cfg : Settings) (i : Surroundings) (s : AppState) (block : Block) :
    Prop where
  mismatch : ∃ error ∈ tipMismatches,
    validateBlockCandidate cfg.node s.chain i.now.time block = err error.reason
  reaction : ∀ source depth, ∃ turn, cfg.run i s (.acceptPeerBlock source block depth) = some turn ∧
    turn.state = s ∧ [.syncWithPeers] ∈ turn.started ∧ ∀ e, .penalizePeer e ∉ turn.next

/-- What the handler does about a block that is refused. -/
theorem run_refused {message : String} (source : Source) (depth : UInt64)
    (h : validateBlockCandidate cfg.node s.chain i.now.time block = err message) :
    cfg.run i s (.acceptPeerBlock source block depth) =
      some ⟨s, blameFor source message ++ [.answer source (.error message)],
        refusedBlock message, []⟩ := by
  rw [run, runAcceptPeerBlock, appendFinal, append, h]
  rfl

/-- A block whose parent is not the tip, and which is not from the future, is taken as one of a
fork exactly when the checks reach its parent or stop at its height. -/
theorem fork_recognized_iff (hfuture :
    ¬ (i.now.time.addSeconds maxTimestampSkewSeconds).before block.timestamp)
    (hparent : block.previousHash ≠ s.chain.latestHash) :
    TreatedAsFork cfg i s block ↔ ReachesParentCheck s.chain block := by
  rw [← mismatch_iff (E := cfg.node) hfuture hparent]
  refine ⟨TreatedAsFork.mismatch, fun hmismatch => ⟨hmismatch, fun source depth => ?_⟩⟩
  obtain ⟨error, herror, hrefused⟩ := hmismatch
  have hcontains := containsText_tipMismatches error herror
  refine ⟨_, run_refused source depth hrefused, rfl, ?_, fun e he => ?_⟩
  · show [ServerAction.syncWithPeers] ∈ refusedBlock error.reason
    rw [refusedBlock, if_pos hcontains]
    exact List.mem_singleton_self _
  · cases source with
    | envelope e' =>
      rw [blameFor, if_pos hcontains] at he
      simp at he
    | route => simp [blameFor] at he

end Settings

/-! ## Two chains of a sole validator -/

namespace Sample

open Blockchain

/-- A node of the toy network whose tip is the block dated two minutes ahead. -/
def aheadState : AppState := { firstState [reward] with chain := aheadChain }

/-- The second block of the chain that is dated in the morning. -/
def morningBlock : Block := nextBlock [reward] (chainOf [reward] 1000000000000000000 1)

theorem morningBlock_parent : morningBlock.previousHash ≠ aheadChain.latestHash := by
  have hhash : (nextBlock [reward] (root [reward] 1000000000000000000)).hash ≠ aheadBlock.hash := by
    decide +kernel
  exact hhash

theorem accept_first : accept (node [reward]) morning (root [reward] 1000000000000000000)
    (nextBlock [reward] (root [reward] 1000000000000000000)) =
      ok (chainOf [reward] 1000000000000000000 1) :=
  accept_chainOf (n := 0) (by decide) (by decide) rfl

theorem accept_morningBlock : accept (node [reward]) morning
    (chainOf [reward] 1000000000000000000 1) morningBlock =
      ok (chainOf [reward] 1000000000000000000 2) :=
  accept_chainOf (by decide) (by decide) rfl

end Sample

namespace Settings

open Blockchain

/-- The block dated ahead, at the height of the local tip, is taken as one of a fork. -/
theorem fork_recognized_sample : TreatedAsFork (Sample.settings [Sample.reward])
    Sample.quietMorning
    { Sample.firstState [Sample.reward] with
      chain := Sample.chainOf [Sample.reward] 1000000000000000000 1 } Sample.aheadBlock := by
  have hfuture : ¬ (Sample.quietMorning.now.time.addSeconds maxTimestampSkewSeconds).before
      Sample.aheadBlock.timestamp := by
    show ¬ (Sample.morning.addSeconds 120).before (Sample.morning.addSeconds 120)
    decide
  have hhash : (Sample.root [Sample.reward] 1000000000000000000).latestHash ≠
      (Sample.nextBlock [Sample.reward] (Sample.root [Sample.reward] 1000000000000000000)).hash := by
    decide +kernel
  have hparent : Sample.aheadBlock.previousHash ≠
      (Sample.chainOf [Sample.reward] 1000000000000000000 1).latestHash := hhash
  refine (fork_recognized_iff hfuture hparent).mpr ⟨2, _, rfl, rfl, Or.inl ?_⟩
  show (1 : UInt64) ≠ 2
  decide

/-- A block that is valid on a chain with the same root is refused as misbehaviour, and whoever
relays it is charged. -/
theorem fork_mistaken : ∃ (s : AppState) (other other' : Blockchain) (block : Block),
    Derived (Sample.node [Sample.reward]) s.chain ∧ Derived (Sample.node [Sample.reward]) other ∧
    s.chain.blocks.head? = other.blocks.head? ∧
    accept (Sample.node [Sample.reward]) Sample.morning other block = ok other' ∧
    ¬ (Sample.quietMorning.now.time.addSeconds maxTimestampSkewSeconds).before block.timestamp ∧
    block.previousHash ≠ s.chain.latestHash ∧
    (∀ e depth, ∃ turn, (Sample.settings [Sample.reward]).run Sample.quietMorning s
      (.acceptPeerBlock (.envelope e) block depth) = some turn ∧ turn.started = [] ∧
        .penalizePeer e ∈ turn.next) ∧
    ¬ TreatedAsFork (Sample.settings [Sample.reward]) Sample.quietMorning s block := by
  have hfuture : ¬ (Sample.quietMorning.now.time.addSeconds maxTimestampSkewSeconds).before
      Sample.morningBlock.timestamp := by
    show ¬ (Sample.morning.addSeconds 120).before Sample.morning
    decide
  have htime : Sample.morningBlock.timestamp.before Sample.aheadBlock.timestamp := by
    show Sample.morning.before (Sample.morning.addSeconds 120)
    decide
  have hrefused : validateBlockCandidate (Sample.node [Sample.reward]) Sample.aheadChain
      Sample.quietMorning.now.time Sample.morningBlock = err "Block timestamp precedes its parent" := by
    rw [validateBlockCandidate_fork hfuture Sample.morningBlock_parent
      (show Sample.aheadChain.blocks.getLast? = some Sample.aheadBlock from rfl)
      (show (Sample.aheadChain.nextIndex : Outcome String UInt64) = ok 2 from rfl),
      if_neg (by decide), if_pos htime]
  have hroot : Derived (Sample.node [Sample.reward])
      (Sample.root [Sample.reward] 1000000000000000000) :=
    derived_genesis (E := Sample.node [Sample.reward]) Sample.newWithGenesisOnChain_root
  refine ⟨Sample.aheadState, Sample.chainOf [Sample.reward] 1000000000000000000 1, _,
    Sample.morningBlock, ?_, ?_, rfl, Sample.accept_morningBlock, hfuture,
    Sample.morningBlock_parent, fun e depth => ?_, fun hfork => ?_⟩
  · exact hroot.accept (by decide) Sample.accept_aheadBlock
  · exact hroot.accept (by decide) Sample.accept_first
  · refine ⟨_, run_refused (.envelope e) depth hrefused, ?_, ?_⟩
    · show refusedBlock "Block timestamp precedes its parent" = []
      rw [refusedBlock, if_neg (by rw [containsText_precedes.1]; simp)]
    · refine List.mem_append_left _ ?_
      rw [blameFor, if_neg (by rw [containsText_precedes.1]; simp)]
      exact List.mem_singleton_self _
  · obtain ⟨index, tip, hindex, htip, hplace⟩ :=
      (fork_recognized_iff hfuture Sample.morningBlock_parent).mp hfork
    cases hindex
    cases htip
    rcases hplace with hnext | ⟨hlater, -⟩
    · exact hnext rfl
    · exact hlater htime

end Settings
