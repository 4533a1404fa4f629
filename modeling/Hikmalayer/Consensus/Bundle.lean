/-
# What binds a checkpoint bundle

The hash of the anchor binds the state of a bundle: it commits to the state root, with which
an import compares the state.  The beacon and the difficulty after the anchor are
taken from the bundle as they come.
-/
import Mathlib.Tactic
import Hikmalayer.Consensus.Checkpoint

open Outcome

namespace Blockchain

variable {E : Node} {b₁ b₂ bundle : CheckpointBundle} {c₁ c₂ chain : Blockchain}

/-- An imported chain starts at the bundle's anchor and checkpoint. -/
theorem fromBundle_eq_ok (h : fromBundle E bundle = ok chain) :
    chain.blocks.head? = some bundle.anchor ∧
      replaySeed E chain bundle.anchor = ok ⟨bundle.checkpoint.state, bundle.checkpoint.randomness,
        bundle.checkpoint.difficulty⟩ ∧
      Stands E bundle.anchor.index.toNat bundle.anchor ⟨bundle.checkpoint.state,
        bundle.checkpoint.randomness, bundle.checkpoint.difficulty⟩ := by
  obtain ⟨hderived, hblocks, -, hbase, -, hcp⟩ := fromCheckpoint_eq_ok h
  obtain ⟨root, rest, seed, hsplit, hvalid, hindex, hseed, -⟩ := validateFull_eq_ok.mp hderived
  rw [hblocks, List.cons.injEq] at hsplit
  obtain ⟨rfl, -⟩ := hsplit
  have hstart : seed = ⟨bundle.checkpoint.state, bundle.checkpoint.randomness,
      bundle.checkpoint.difficulty⟩ := by
    rw [replaySeed, hcp] at hseed
    simp only [Outcome.bind_eq_ok, pure_eq, ok.injEq] at hseed
    obtain ⟨_, -, hseed⟩ := hseed
    exact hseed.symm
  have hstands := replaySeed_stands hvalid hindex hseed
  rw [hstart] at hseed hstands
  rw [hbase] at hstands
  exact ⟨by rw [hblocks]; rfl, hseed, hstands⟩

/-- What two imports hash: the header texts of the anchors and the serialized states. -/
def importedTexts (E : Env) (b₁ b₂ : CheckpointBundle) : Set (List UInt8) :=
  {utf8 (b₁.anchor.preimage E), utf8 (b₂.anchor.preimage E), utf8 (E.stateJson b₁.checkpoint.state),
    utf8 (E.stateJson b₂.checkpoint.state)}

/-- Anchors of one hash carry one state. -/
theorem state_bound (h₁ : fromBundle E b₁ = ok c₁) (h₂ : fromBundle E b₂ = ok c₂)
    (hhash : b₁.anchor.hash = b₂.anchor.hash) (hfree : E.CollisionFree (importedTexts E b₁ b₂))
    (hjson : Set.InjOn E.stateJson {b₁.checkpoint.state, b₂.checkpoint.state}) :
    b₁.checkpoint.state = b₂.checkpoint.state := by
  have hs₁ := (fromBundle_eq_ok h₁).2.2
  have hs₂ := (fromBundle_eq_ok h₂).2.2
  have hroot₁ : b₁.anchor.stateRoot = sha256Hex E (E.stateJson b₁.checkpoint.state) := hs₁.stateRoot
  have hroot₂ : b₂.anchor.stateRoot = sha256Hex E (E.stateJson b₂.checkpoint.state) := hs₂.stateRoot
  have htext : b₁.anchor.preimage E = b₂.anchor.preimage E :=
    Block.preimage_eq_of_hash hfree (by simp [importedTexts]) (by simp [importedTexts])
      (Block.hash_of_hasValidPow hs₁.pow) (Block.hash_of_hasValidPow hs₂.pow) hhash
  have hroots : b₁.anchor.stateRoot = b₂.anchor.stateRoot :=
    (Block.header_determined (Block.isDigestText_merkleRoot hs₁.merkle)
      (by rw [hroot₁]; exact isDigestText_sha256Hex E _)
      (Block.isDigestText_merkleRoot hs₂.merkle)
      (by rw [hroot₂]; exact isDigestText_sha256Hex E _) htext).2.2.1
  rw [hroot₁, hroot₂] at hroots
  refine hjson (by simp) (by simp) (sha256Hex_inj hfree ?_ ?_ hroots)
  · simp [importedTexts]
  · simp [importedTexts]

/-- Two imported chains go on from their anchors alike: with the same state, beacon and
difficulty. -/
def AgreeAtAnchor (E : Env) (c₁ c₂ : Blockchain) : Prop :=
  ∃ a₁ a₂ seed, c₁.blocks.head? = some a₁ ∧ c₂.blocks.head? = some a₂ ∧
    replaySeed E c₁ a₁ = ok seed ∧ replaySeed E c₂ a₂ = ok seed

/-- Imported chains with one state agree at their anchors exactly when their bundles name the
same beacon and the same difficulty. -/
theorem agreeAtAnchor_iff (h₁ : fromBundle E b₁ = ok c₁) (h₂ : fromBundle E b₂ = ok c₂)
    (hstate : b₁.checkpoint.state = b₂.checkpoint.state) :
    AgreeAtAnchor E c₁ c₂ ↔ b₁.checkpoint.randomness = b₂.checkpoint.randomness ∧
      b₁.checkpoint.difficulty = b₂.checkpoint.difficulty := by
  obtain ⟨hhead₁, hseed₁, -⟩ := fromBundle_eq_ok h₁
  obtain ⟨hhead₂, hseed₂, -⟩ := fromBundle_eq_ok h₂
  constructor
  · rintro ⟨a₁, a₂, seed, ha₁, ha₂, hs₁, hs₂⟩
    rw [hhead₁, Option.some.injEq] at ha₁
    rw [hhead₂, Option.some.injEq] at ha₂
    subst ha₁ ha₂
    rw [hseed₁, ok.injEq] at hs₁
    rw [hseed₂, ok.injEq, ← hs₁, Replay.mk.injEq] at hs₂
    exact ⟨hs₂.2.1.symm, hs₂.2.2.symm⟩
  · rintro ⟨hrandomness, hdifficulty⟩
    refine ⟨_, _, _, hhead₁, hhead₂, hseed₁, ?_⟩
    rw [hseed₂, hstate, hrandomness, hdifficulty]

/-- Of a bundle that can be imported, any beacon and any difficulty can be replaced. -/
theorem fromBundle_forged (h : fromBundle E bundle = ok chain) (randomness : String)
    (difficulty : UInt64) :
    ∃ forged, fromBundle E { bundle with
        checkpoint := ⟨bundle.checkpoint.state, randomness, difficulty⟩
        forwardBlocks := [] } = ok forged ∧
      forged.randomness = randomness ∧ forged.currentDifficulty = difficulty := by
  have hstands := (fromBundle_eq_ok h).2.2
  obtain ⟨-, -, hmod, -⟩ := fromCheckpoint_eq_ok h
  obtain ⟨forged, hforged, -, -, -, hrandomness, hdifficulty⟩ :=
    @fromCheckpoint_of_replay E bundle.difficulty bundle.genesisSupply bundle.genesisTreasury
      bundle.genesisValidatorPublicKey bundle.genesisValidatorVrfPublicKey
      bundle.genesisValidatorAllowlist _ ⟨bundle.checkpoint.state, randomness, difficulty⟩ [] _ hmod
      ⟨hstands.pow, hstands.merkle, rfl, hstands.stateRoot⟩ rfl
  exact ⟨forged, hforged, hrandomness, hdifficulty⟩

end Blockchain

/-! ## The bundle of a toy chain -/

namespace Sample

open Blockchain

theorem chainOf_getLast? {pool : List Transaction} {supply : UInt64} (n : ℕ) :
    (chainOf pool supply (n + 1)).blocks.getLast? = some (nextBlock pool (chainOf pool supply n)) := by
  show ((chainOf pool supply n).blocks ++ [_]).getLast? = _
  rw [List.getLast?_concat]

/-- The bundle of the toy chain at height 10 has the tip as its anchor, and the chain's own
fields as its checkpoint. -/
theorem exportBundle_chainOf :
    ∃ bundle restored,
      exportBundle (node [reward]) (chainOf [reward] 1000000000000000 10) = ok bundle ∧
      fromBundle (node [reward]) bundle = ok restored ∧
      bundle.anchor = nextBlock [reward] (chainOf [reward] 1000000000000000 9) ∧
      bundle.checkpoint.state = (chainOf [reward] 1000000000000000 10).state ∧
      bundle.checkpoint.difficulty = 2 := by
  have halone : Alone (chainOf [reward] 1000000000000000 10) :=
    chainOf_alone (by decide) (by decide)
  have hroot : Rooted (node [reward]) (root [reward] 1000000000000000) :=
    .genesis newWithGenesisOnChain_root
  have hgrounded := (chainOf_built (show 10 < 19 by decide)).grounded hroot.derived
  obtain ⟨bundle, restored, hexport, himport, hpruned⟩ := hgrounded.derived.export_import
    (by rw [halone.base]; rfl) (chainOf_tipIndex (show 10 < 19 by decide)) (by decide)
  obtain ⟨hderived, hblocks, hmod, hbase, -, -⟩ := fromCheckpoint_eq_ok himport
  -- the cut is at height 10, so nothing is replayed after the anchor
  have hlength := hpruned.length
  rw [chainOf_length, halone.base, hblocks, List.length_cons, hbase] at hlength
  have hzero : (0 : UInt64).toNat = 0 := rfl
  have hpos := hpruned.pos
  have hboundary := hpruned.boundary
  rw [hbase] at hpos hboundary
  have hforward : bundle.forwardBlocks = [] := List.length_eq_zero_iff.mp (by omega)
  have hlast := hpruned.getLast?
  rw [hblocks, hforward] at hlast
  have hanchor : bundle.anchor = nextBlock [reward] (chainOf [reward] 1000000000000000 9) := by
    have htip : (chainOf [reward] 1000000000000000 10).blocks.getLast? =
        some (nextBlock [reward] (chainOf [reward] 1000000000000000 9)) := chainOf_getLast? 9
    rw [htip] at hlast
    exact Option.some.inj hlast
  obtain ⟨-, hseed, -⟩ := fromBundle_eq_ok himport
  obtain ⟨root, rest, seed, hsplit, -, -, hstart, hreplay⟩ := validateFull_eq_ok.mp hderived
  rw [hblocks, hforward, List.cons.injEq] at hsplit
  obtain ⟨rfl, rfl⟩ := hsplit
  rw [hseed, ok.injEq] at hstart
  rw [replayFrom, ok.injEq, ← hstart, Replay.mk.injEq] at hreplay
  obtain ⟨hstate, -, hdifficulty⟩ := hreplay
  refine ⟨bundle, restored, hexport, himport, hanchor, hstate.trans hpruned.state, ?_⟩
  rw [hdifficulty, hpruned.difficulty, halone.difficulty, chainOf_length]
  rfl

/-- The header text of that anchor and the serialized state have different digests. -/
theorem anchor_digest_ne :
    (digest (utf8 ((nextBlock [reward] (chainOf [reward] 1000000000000000 9)).preimage
      (env [reward])))).bytes ≠
      (digest (utf8 (stateText (chainOf [reward] 1000000000000000 10).state))).bytes := by
  decide +kernel

/-- So the texts that its import hashes have different digests. -/
theorem collisionFree_chainOf {bundle forged : CheckpointBundle}
    (hanchor : bundle.anchor = nextBlock [reward] (chainOf [reward] 1000000000000000 9))
    (hstate : bundle.checkpoint.state = (chainOf [reward] 1000000000000000 10).state)
    (hsame : forged.anchor = bundle.anchor)
    (hkept : forged.checkpoint.state = bundle.checkpoint.state) :
    (env [reward]).CollisionFree (importedTexts (env [reward]) bundle forged) := by
  have htexts : importedTexts (env [reward]) bundle forged =
      {utf8 (bundle.anchor.preimage (env [reward])),
        utf8 ((env [reward]).stateJson bundle.checkpoint.state)} := by
    rw [importedTexts, hsame, hkept, Set.insert_idem, Set.pair_eq_singleton]
  rw [htexts, hanchor, hstate]
  refine Set.injOn_pair.mpr fun h => absurd ?_ anchor_digest_ne
  exact congrArg Digest.bytes h

end Sample

namespace Blockchain

/-! ## The anchor hash and the seed of the replay -/

/-- Imports of one anchor hash agree on the state, and on all that follows from the anchor
exactly when their bundles name the same beacon and the same difficulty. -/
theorem bundle_bound_iff (h₁ : fromBundle E b₁ = ok c₁) (h₂ : fromBundle E b₂ = ok c₂)
    (hhash : b₁.anchor.hash = b₂.anchor.hash) (hfree : E.CollisionFree (importedTexts E b₁ b₂))
    (hjson : Set.InjOn E.stateJson {b₁.checkpoint.state, b₂.checkpoint.state}) :
    b₁.checkpoint.state = b₂.checkpoint.state ∧
      (AgreeAtAnchor E c₁ c₂ ↔ b₁.checkpoint.randomness = b₂.checkpoint.randomness ∧
        b₁.checkpoint.difficulty = b₂.checkpoint.difficulty) := by
  have hstate := state_bound h₁ h₂ hhash hfree hjson
  exact ⟨hstate, agreeAtAnchor_iff h₁ h₂ hstate⟩

/-- The toy chain's bundle, imported twice. -/
theorem bundle_bound_iff_sample :
    ∃ bundle restored, exportBundle (Sample.node [Sample.reward])
        (Sample.chainOf [Sample.reward] 1000000000000000 10) = ok bundle ∧
      fromBundle (Sample.node [Sample.reward]) bundle = ok restored ∧
      AgreeAtAnchor (Sample.node [Sample.reward]) restored restored := by
  obtain ⟨bundle, restored, hexport, himport, hanchor, hstate, -⟩ := Sample.exportBundle_chainOf
  have hbound := bundle_bound_iff himport himport rfl
    (Sample.collisionFree_chainOf hanchor hstate rfl rfl) (by simp)
  exact ⟨bundle, restored, hexport, himport, hbound.2.mpr ⟨rfl, rfl⟩⟩

/-- Of the toy chain's bundle, a server can replace beacon and difficulty: both versions
have the same anchor and are imported, and the two nodes go on differently. -/
theorem bundle_beacon_forged :
    ∃ bundle forged c₁ c₂, exportBundle (Sample.node [Sample.reward])
        (Sample.chainOf [Sample.reward] 1000000000000000 10) = ok bundle ∧
      fromBundle (Sample.node [Sample.reward]) bundle = ok c₁ ∧
      fromBundle (Sample.node [Sample.reward]) forged = ok c₂ ∧
      bundle.anchor.hash = forged.anchor.hash ∧
      (Sample.env [Sample.reward]).CollisionFree
        (importedTexts (Sample.env [Sample.reward]) bundle forged) ∧
      Set.InjOn (Sample.env [Sample.reward]).stateJson
        {bundle.checkpoint.state, forged.checkpoint.state} ∧
      ¬ AgreeAtAnchor (Sample.node [Sample.reward]) c₁ c₂ ∧
      c₂.randomness = "chosen" ∧ c₂.currentDifficulty = 1 := by
  obtain ⟨bundle, restored, hexport, himport, hanchor, hstate, hdifficulty⟩ :=
    Sample.exportBundle_chainOf
  obtain ⟨forged, hforged, hrandomness, hchosen⟩ := fromBundle_forged himport "chosen" 1
  refine ⟨bundle, _, restored, forged, hexport, himport, hforged, rfl,
    Sample.collisionFree_chainOf hanchor hstate rfl rfl, by simp, ?_, hrandomness, hchosen⟩
  intro hagree
  have hsame : bundle.checkpoint.difficulty = 1 :=
    ((agreeAtAnchor_iff himport hforged rfl).mp hagree).2
  rw [hdifficulty] at hsame
  exact absurd hsame (by decide)

end Blockchain
