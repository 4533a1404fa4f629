/-
# What the integrity probes answer

On a healthy chain the quick probe agrees with the full replay and there is never evidence against
a validator.  The probe of single blocks looks at positions as if they were heights, so that on a
chain from a checkpoint it only vouches for blocks at positions above the base height.
-/
import Mathlib.Tactic
import Hikmalayer.Model.Integrity
import Hikmalayer.Consensus.Checkpoint
import Hikmalayer.Node.Recovery

open Outcome Blockchain

namespace Blockchain

variable {E : Node} {chain : Blockchain}

/-! ## The quick probe -/

/-- The last of replayed blocks names the block before it. -/
theorem replayFrom_linked {baseHeight : UInt64} {seen l : List Block} {previous block : Block}
    {r t : Replay} (h : replayFrom E baseHeight seen previous r (l ++ [block]) = ok t) :
    block.previousHash = (lastOr previous l).hash := by
  obtain ⟨mid, -, h⟩ := (replayFrom_append l [block]).mp h
  obtain ⟨r', hstep, -⟩ := (replayFrom_cons []).mp h
  obtain ⟨_, -, hvalid, -⟩ := advance_eq_ok.mp hstep
  simp only [validateBlockAt, checkPosition, Outcome.bind_eq_ok, ensure_eq_ok] at hvalid
  obtain ⟨_, ⟨_, -, _, -, _, -, _, hprevious, -⟩, -⟩ := hvalid
  exact hprevious

/-- The probe of the tip does not contradict the full replay. -/
theorem Derived.quickIntegrity (h : Derived E chain) (fits : chain.blocks.length < 2 ^ 63) :
    chain.quickIntegrity E = true := by
  obtain ⟨anchor, rest, seed, hblocks, hvalid, hindex, hseed, hreplay⟩ := validateFull_eq_ok.mp h
  have hlength : chain.blocks.length = rest.length + 1 := by rw [hblocks, List.length_cons]
  have hstands := replayFrom_stands hreplay
    (replaySeed_stands hvalid hindex hseed : Stands E (_ + [anchor].length - 1) anchor seed)
    (by rw [List.singleton_append, List.length_cons]; omega)
  unfold Blockchain.quickIntegrity
  rw [hblocks, getLast?_cons_lastOr]
  simp only [Bool.and_eq_true, Bool.or_eq_true, decide_eq_true_eq]
  refine ⟨⟨hstands.stateRoot, hstands.pow⟩, ?_⟩
  rcases List.eq_nil_or_concat rest with rfl | ⟨init, tip, rfl⟩
  · exact .inl Nat.one_lt_two
  · right
    rw [List.concat_eq_append] at hreplay ⊢
    have hlast : lastOr anchor (init ++ [tip]) = tip := by
      rw [lastOr, List.getLast?_concat, Option.getD_some]
    have hbefore : (anchor :: (init ++ [tip]))[(anchor :: (init ++ [tip])).length - 2]? =
        some (lastOr anchor init) := by
      have hindex : (anchor :: (init ++ [tip])).length - 2 = (anchor :: init).length - 1 := by
        simp only [List.length_cons, List.length_append, List.length_nil]
        omega
      rw [hindex, ← List.cons_append, List.getElem?_append_left (by simp), ← List.getLast?_eq_getElem?,
        getLast?_cons_lastOr]
    rw [hlast, hbefore, Option.any_some, decide_eq_true_eq]
    exact replayFrom_linked hreplay

/-! ## The probe of a block -/

/-- There is no evidence in a valid chain. -/
theorem Derived.evaluateSlashEvidence (h : Derived E chain)
    (hroom : chain.baseHeight.toNat + chain.blocks.length < 2 ^ 64) (index : UInt64)
    (now : DateTime) : chain.evaluateSlashEvidence E index now = err (
      if index = 0 then "Cannot slash genesis block"
      else if index < chain.baseHeight ∨
        chain.baseHeight.toNat + chain.blocks.length ≤ index.toNat then "Block index out of range"
      else if index = chain.baseHeight then "Cannot evaluate the checkpoint anchor"
      else "Block does not contain slashable behavior") := by
  have hnext : chain.nextIndex = (ok (UInt64.ofNat (chain.baseHeight.toNat + chain.blocks.length)) :
      Outcome String _) := by
    rw [nextIndex, plain_eq_ok, Word.checkedAdd_eq_some, Word.toNat_ofNat_of_lt hroom,
      Word.toNat_ofNat_of_lt (by omega)]
  unfold Blockchain.evaluateSlashEvidence
  by_cases hzero : index = 0
  · rw [if_pos hzero, ensure_neg (not_not.mpr hzero)]
    rfl
  · rw [if_neg hzero, ensure_pos hzero, ok_bind]
    by_cases hlow : index < chain.baseHeight
    · rw [if_pos (.inl hlow), ensure_neg (not_not.mpr hlow)]
      rfl
    · rw [ensure_pos hlow, ok_bind, hnext, ok_bind]
      by_cases hhigh : chain.baseHeight.toNat + chain.blocks.length ≤ index.toNat
      · have hle : UInt64.ofNat (chain.baseHeight.toNat + chain.blocks.length) ≤ index := by
          rw [UInt64.le_iff_toNat_le, Word.toNat_ofNat_of_lt hroom]
          exact hhigh
        rw [if_pos (.inr hhigh), ensure_neg (not_not.mpr hle)]
        rfl
      · have hlt : ¬ UInt64.ofNat (chain.baseHeight.toNat + chain.blocks.length) ≤ index := by
          rw [UInt64.le_iff_toNat_le, Word.toNat_ofNat_of_lt hroom]
          exact hhigh
        rw [if_neg (not_or.mpr ⟨hlow, hhigh⟩), ensure_pos hlt, ok_bind]
        dsimp only
        rw [UInt64.toNat_sub_of_le _ _ (UInt64.not_lt.mp hlow)]
        rw [UInt64.lt_iff_toNat_lt] at hlow
        by_cases hanchor : index = chain.baseHeight
        · rw [if_pos hanchor, ensure_neg (by rw [hanchor]; omega)]
          rfl
        · have hne : index.toNat ≠ chain.baseHeight.toNat := fun h => hanchor (Word.toNat_ext h)
          rw [if_neg hanchor, ensure_pos (by omega), ok_bind, h]

/-- Which positions the probe of a block vouches for. -/
theorem Derived.validateBlock (h : Derived E chain)
    (hroom : chain.baseHeight.toNat + chain.blocks.length < 2 ^ 64) (index : UInt64)
    (now : DateTime) : ∃ r, chain.validateBlock E index now = ok r ∧
      (r.isValid = true ↔ index.toNat < chain.blocks.length ∧
        (index = 0 ∨ chain.baseHeight < index)) := by
  obtain ⟨anchor, rest, seed, hblocks, hvalid, -⟩ := validateFull_eq_ok.mp h
  unfold Blockchain.validateBlock
  rw [h.evaluateSlashEvidence hroom]
  rcases hget : chain.blocks[index.toNat]? with _ | block
  · refine ⟨_, rfl, iff_of_false Bool.false_ne_true ?_⟩
    rw [List.getElem?_eq_none_iff] at hget
    omega
  · obtain ⟨hlt, -⟩ := List.getElem?_eq_some_iff.mp hget
    by_cases hzero : index = 0
    · have hroot : block = anchor := by
        rw [hzero, hblocks] at hget
        exact (Option.some.inj hget).symm
      simp only [if_pos hzero]
      refine ⟨_, rfl, iff_of_true ?_ ⟨hlt, .inl hzero⟩⟩
      rw [hroot]
      exact hvalid.1
    · simp only [if_neg hzero]
      have hlow : ¬ chain.baseHeight.toNat + chain.blocks.length ≤ index.toNat := by omega
      by_cases habove : chain.baseHeight < index
      · have hne : index ≠ chain.baseHeight := fun h => UInt64.lt_irrefl _ (h ▸ habove)
        rw [if_neg (not_or.mpr ⟨UInt64.not_lt.mpr (UInt64.le_of_lt habove), hlow⟩), if_neg hne]
        exact ⟨_, rfl, iff_of_true rfl ⟨hlt, .inr habove⟩⟩
      · have hrefused : ¬ (index.toNat < chain.blocks.length ∧
            (index = 0 ∨ chain.baseHeight < index)) := fun h => h.2.elim hzero habove
        by_cases hanchor : index = chain.baseHeight
        · have hinside : ¬ (index < chain.baseHeight ∨
              chain.baseHeight.toNat + chain.blocks.length ≤ index.toNat) := by
            rw [hanchor] at hlow ⊢
            exact not_or.mpr ⟨UInt64.lt_irrefl _, hlow⟩
          rw [if_neg hinside, if_pos hanchor]
          exact ⟨_, rfl, iff_of_false Bool.false_ne_true hrefused⟩
        · have hbelow : index < chain.baseHeight :=
            UInt64.lt_of_le_of_ne (UInt64.not_lt.mp habove) hanchor
          have houtside : index < chain.baseHeight ∨
              chain.baseHeight.toNat + chain.blocks.length ≤ index.toNat := .inl hbelow
          rw [if_pos houtside]
          exact ⟨_, rfl, iff_of_false Bool.false_ne_true hrefused⟩

end Blockchain

namespace Settings

variable {cfg : Settings} {Allowed : ServerConfig → ServerEvent → Prop} {c : ServerConfig}

/-! ## The probes of a node -/

/-- In every run the quick probe, the full replay and the report agree that the chain is sound, and
no block is slashable.  The probe of a block vouches for the root and for the positions above the
base height: on a chain from a checkpoint, not for the blocks in between. -/
theorem probes_sound {disk : Option AppSnapshot} {state : AppState}
    (hinitial : Healthy cfg.node cfg.initialChain cfg.initialChain) (hdisk : Saved cfg disk)
    (hboot : cfg.boot disk = some state) (h : cfg.Runs Allowed ⟨state, [], [], []⟩ c) :
    c.state.chain.quickIntegrity cfg.node = true ∧
      c.state.chain.isValid cfg.node = ok true ∧
      c.state.chain.validateReport cfg.node = ok (true, none) ∧
      ∀ (index : UInt64) (now : DateTime),
        (∃ error, c.state.chain.evaluateSlashEvidence cfg.node index now = err error) ∧
        ∃ r, c.state.chain.validateBlock cfg.node index now = ok r ∧
          (r.isValid = true ↔ index.toNat < c.state.chain.blocks.length ∧
            (index = 0 ∨ cfg.initialChain.baseHeight < index)) := by
  obtain ⟨⟨hderived, hnetwork, -⟩, hsettled, hfits⟩ :=
    (h.sound hinitial (hdisk.sound hinitial hboot)).chain
  have hroom := hsettled.room hfits
  have hfull : validateFull cfg.node c.state.chain = ok ⟨c.state.chain.state,
      c.state.chain.randomness, c.state.chain.currentDifficulty⟩ := hderived
  refine ⟨hderived.quickIntegrity hfits, ?_, ?_, fun index now => ?_⟩
  · rw [isValid, hfull]
  · rw [validateReport, hfull]
  · rw [← baseHeight_of_network hnetwork]
    exact ⟨⟨_, hderived.evaluateSlashEvidence hroom index now⟩,
      hderived.validateBlock hroom index now⟩

/-- The probes of the toy node when it has come up. -/
theorem probes_sound_sample :
    (Sample.firstState []).chain.quickIntegrity (Sample.settings []).node = true :=
  (@probes_sound _ Unrestricted _ _ _ (Sample.initial_healthy [])
    (fun _ h => absurd h (Option.some_ne_none _).symm) (Sample.boot_settings []) .start).1

end Settings
