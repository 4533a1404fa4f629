/-
# Checkpoints

A bundle cuts a chain at its latest retarget boundary.  The restored chain lacks the blocks
before the cut, yet it looks back exactly as far as the full one: a retarget window ends at
a multiple of the interval and so starts at the cut or after it.
-/
import Mathlib.Tactic
import Hikmalayer.Consensus.Incremental

open Outcome

namespace Blockchain

variable {E : Node} {chain restored : Blockchain}

/-! ## A chain without its first blocks -/

/-- The retarget window past a cut does not reach behind it. -/
theorem retarget_pruned {ε : Type} {pre blocks : List Block} {base base' index current : UInt64}
    (hbase : base.toNat % 10 = 0) (hbase' : base'.toNat % 10 = 0) (hpos : 0 < base'.toNat)
    (hcut : base'.toNat = base.toNat + pre.length) (hne : blocks ≠ [])
    (hindex : index.toNat + 1 = base'.toNat + blocks.length) :
    (retarget (pre ++ blocks) index base current : Outcome ε UInt64) =
      retarget blocks index base' current := by
  have hlen : 0 < blocks.length := List.length_pos_iff.mpr hne
  unfold retarget
  cases hnext : Word.checkedAdd index 1 with
  | none => rfl
  | some next =>
    rw [Word.checkedAdd_eq_some] at hnext
    have hone : (1 : UInt64).toNat = 1 := rfl
    rw [plain_some, ok_bind, ok_bind]
    by_cases hdue : next % retargetInterval ≠ 0
    · rw [if_pos hdue, if_pos hdue]
    · have hmod : next.toNat % 10 = 0 := by
        have hzero := congrArg UInt64.toNat (not_not.mp hdue)
        rw [UInt64.toNat_mod] at hzero
        exact hzero
      rw [if_neg hdue, if_neg hdue]
      have hten : retargetInterval.toNat = 10 := rfl
      have hstart' : (if base' = 0 then max (blocks.length - retargetInterval.toNat) 1
          else blocks.length - retargetInterval.toNat) = blocks.length - 10 := by
        rw [if_neg (fun h => absurd (congrArg UInt64.toNat h) hpos.ne'), hten]
      have hstart : (if base = 0 then max ((pre ++ blocks).length - retargetInterval.toNat) 1
          else (pre ++ blocks).length - retargetInterval.toNat) =
          pre.length + (blocks.length - 10) := by
        rw [List.length_append, hten]
        split
        · rename_i hzero
          have hnat : base.toNat = 0 := congrArg UInt64.toNat hzero
          omega
        · omega
      show (sliceFrom (pre ++ blocks) (if base = 0 then _ else _) >>= _) =
        (sliceFrom blocks (if base' = 0 then _ else _) >>= _)
      rw [hstart, hstart', sliceFrom, sliceFrom, if_pos (by rw [List.length_append]; omega),
        if_pos (by omega), List.drop_append, List.drop_eq_nil_of_le (Nat.le_add_right _ _),
        Nat.add_sub_cancel_left, List.nil_append]

/-- A chain from which the blocks before a retarget boundary have been cut. -/
structure Pruned (chain restored : Blockchain) : Prop where
  cut : ∃ pre, chain.blocks = pre ++ restored.blocks ∧
    restored.baseHeight.toNat = chain.baseHeight.toNat + pre.length
  base : chain.baseHeight.toNat % 10 = 0
  boundary : restored.baseHeight.toNat % 10 = 0
  pos : 0 < restored.baseHeight.toNat
  nonempty : restored.blocks ≠ []
  state : restored.state = chain.state
  randomness : restored.randomness = chain.randomness
  difficulty : restored.currentDifficulty = chain.currentDifficulty

theorem Pruned.length (h : Pruned chain restored) :
    restored.baseHeight.toNat + restored.blocks.length =
      chain.baseHeight.toNat + chain.blocks.length := by
  obtain ⟨pre, hblocks, hbase⟩ := h.cut
  rw [hblocks, List.length_append]
  omega

theorem Pruned.getLast? (h : Pruned chain restored) :
    restored.blocks.getLast? = chain.blocks.getLast? := by
  obtain ⟨pre, hblocks, -⟩ := h.cut
  rw [hblocks, List.getLast?_append_of_ne_nil _ h.nonempty]

theorem checkedAdd_eq_of_sum {a b c d : UInt64} (h : a.toNat + b.toNat = c.toNat + d.toNat) :
    Word.checkedAdd a b = Word.checkedAdd c d := by
  ext x
  rw [Word.checkedAdd_eq_some, Word.checkedAdd_eq_some, h]

theorem Pruned.nextIndex {ε : Type} (h : Pruned chain restored)
    (hlen : chain.blocks.length < 2 ^ 64) :
    (restored.nextIndex : Outcome ε UInt64) = chain.nextIndex := by
  have hle : restored.blocks.length ≤ chain.blocks.length := by
    obtain ⟨pre, hblocks, -⟩ := h.cut
    rw [hblocks, List.length_append]
    omega
  rw [Blockchain.nextIndex, Blockchain.nextIndex, checkedAdd_eq_of_sum]
  rw [Word.toNat_ofNat_of_lt hlen, Word.toNat_ofNat_of_lt (by omega)]
  exact h.length

/-- Both validate a candidate alike. -/
theorem Pruned.validateBlockCandidate (h : Pruned chain restored)
    (hlen : chain.blocks.length < 2 ^ 64) (now : DateTime) (block : Block) :
    validateBlockCandidate E restored now block = validateBlockCandidate E chain now block := by
  have hlatest : restored.latestHash = chain.latestHash := by
    rw [latestHash, latestHash, h.getLast?]
  simp only [Blockchain.validateBlockCandidate, nextPosition, h.nextIndex hlen, hlatest,
    h.getLast?, h.state, h.randomness, h.difficulty]

/-- What a node with any of the two chains goes on with. -/
def derivedFields (chain : Blockchain) : ChainState × String × UInt64 :=
  (chain.state, chain.randomness, chain.currentDifficulty)

theorem Pruned.derivedFields (h : Pruned chain restored) :
    restored.derivedFields = chain.derivedFields := by
  rw [Blockchain.derivedFields, Blockchain.derivedFields, h.state, h.randomness, h.difficulty]

theorem adjustedDifficulty_ne_err {ε : Type} {window : List Block} {current : UInt64} {e : ε} :
    (adjustedDifficulty current window : Outcome ε UInt64) ≠ err e := by
  intro h
  rw [adjustedDifficulty] at h
  split at h
  · cases h
  · simp only [Outcome.bind_eq_err, plain_ne_err, false_or] at h
    obtain ⟨first, -, last, -, h⟩ := h
    split at h
    · simp only [Outcome.bind_eq_err, plain_ne_err, false_or] at h
      obtain ⟨_, -, h⟩ := h
      cases h
    · split at h <;> cases h

theorem sliceFrom_ne_err {ε : Type} {blocks : List Block} {start : ℕ} {e : ε} :
    (sliceFrom blocks start : Outcome ε (List Block)) ≠ err e := by
  intro h
  rw [sliceFrom] at h
  split at h <;> cases h

/-- The arithmetic of a commit can only abort. -/
theorem commitBlock_ne_err {ε : Type} {block : Block} {post : ChainState} {e : ε} :
    (commitBlock E chain block post : Outcome ε Blockchain) ≠ err e := by
  intro h
  simp only [commitBlock, tipIndex, nextIndex, Outcome.bind_eq_err, plain_ne_err, pure_eq,
    reduceCtorEq, and_false, exists_false, or_false, false_or] at h
  obtain ⟨tip, -, h⟩ := h
  simp only [retarget, Outcome.bind_eq_err, plain_ne_err, false_or] at h
  obtain ⟨next, -, h⟩ := h
  split at h
  · cases h
  · rw [Outcome.bind_eq_err] at h
    rcases h with h | ⟨window, -, h⟩
    · exact sliceFrom_ne_err h
    · exact adjustedDifficulty_ne_err h

/-- Committing one block to both leaves both alike, or stops both. -/
theorem Pruned.commitBlock (h : Pruned chain restored) (hlen : chain.blocks.length + 1 < 2 ^ 64)
    (block : Block) (post : ChainState) :
    (∃ chain' restored', (commitBlock E chain block post : Outcome String Blockchain) = ok chain' ∧
      (commitBlock E restored block post : Outcome String Blockchain) = ok restored' ∧
      Pruned chain' restored' ∧ chain'.blocks.length = chain.blocks.length + 1) ∨
    (commitBlock E chain block post : Outcome String Blockchain) = panicked ∧
      (commitBlock E restored block post : Outcome String Blockchain) = panicked := by
  obtain ⟨pre, hblocks, hbase⟩ := h.cut
  have hle : restored.blocks.length ≤ chain.blocks.length := by
    rw [hblocks, List.length_append]
    omega
  have hindex : Word.checkedAdd restored.baseHeight (UInt64.ofNat restored.blocks.length) =
      Word.checkedAdd chain.baseHeight (UInt64.ofNat chain.blocks.length) := by
    refine checkedAdd_eq_of_sum ?_
    rw [Word.toNat_ofNat_of_lt (by omega), Word.toNat_ofNat_of_lt (by omega)]
    exact h.length
  have hretarget : ∀ index, Word.checkedAdd chain.baseHeight (UInt64.ofNat chain.blocks.length) =
      some index → (retarget (chain.blocks ++ [block]) index chain.baseHeight
        chain.currentDifficulty : Outcome String UInt64) =
      retarget (restored.blocks ++ [block]) index restored.baseHeight
        restored.currentDifficulty := by
    intro index hi
    rw [Word.checkedAdd_eq_some, Word.toNat_ofNat_of_lt (by omega)] at hi
    rw [hblocks, List.append_assoc, h.difficulty]
    refine retarget_pruned h.base h.boundary h.pos hbase (by simp) ?_
    rw [List.length_append, List.length_singleton]
    have hlength := h.length
    omega
  rcases hc : (Blockchain.commitBlock E chain block post : Outcome String Blockchain) with
    chain' | e | _
  · left
    obtain ⟨index, difficulty, hi, hd, rfl⟩ := (commitBlock_eq_ok hlen).mp hc
    have hcommit : (Blockchain.commitBlock E restored block post : Outcome String Blockchain) =
        ok (restored.extended block ⟨post,
          Vrf.nextRandomness E restored.randomness (block.vrfOutput.getD ""), difficulty⟩) :=
      (commitBlock_eq_ok (by omega)).mpr ⟨index, difficulty, hindex.trans hi, (hretarget index hi).symm.trans hd, rfl⟩
    refine ⟨_, _, rfl, hcommit, ⟨⟨pre, ?_, hbase⟩, h.base, h.boundary, h.pos, ?_, rfl, ?_, rfl⟩, ?_⟩
    · show chain.blocks ++ [block] = pre ++ (restored.blocks ++ [block])
      rw [hblocks, List.append_assoc]
    · simp [extended]
    · show Vrf.nextRandomness E restored.randomness _ = Vrf.nextRandomness E chain.randomness _
      rw [h.randomness]
    · simp [extended]
  · exact absurd hc commitBlock_ne_err
  · right
    refine ⟨rfl, ?_⟩
    rcases hr : (Blockchain.commitBlock E restored block post : Outcome String Blockchain) with
      restored' | e | _
    · obtain ⟨index, difficulty, hi, hd, -⟩ := (commitBlock_eq_ok (by omega)).mp hr
      have hi := hindex.symm.trans hi
      have hcommit : (Blockchain.commitBlock E chain block post : Outcome String Blockchain) =
          ok (chain.extended block ⟨post,
            Vrf.nextRandomness E chain.randomness (block.vrfOutput.getD ""), difficulty⟩) :=
        (commitBlock_eq_ok hlen).mpr ⟨index, difficulty, hi, (hretarget index hi).trans hd, rfl⟩
      rw [hcommit] at hc
      cases hc
    · exact absurd hr commitBlock_ne_err
    · rfl

/-! ## Going on -/

/-- A node offered a block: it commits a valid one and drops any other. -/
def receive (E : Node) (chain : Blockchain) (now : DateTime) (block : Block) :
    Outcome String Blockchain :=
  match validateBlockCandidate E chain now block with
  | ok post => commitBlock E chain block post
  | err _ => ok chain
  | panicked => panicked

/-- A node offered blocks one after the other. -/
def receiveAll (E : Node) : Blockchain → List (DateTime × Block) → Outcome String Blockchain
  | chain, [] => ok chain
  | chain, (now, block) :: rest => do
    let chain ← receive E chain now block
    receiveAll E chain rest

/-- Whatever is offered, both end alike, or both stop. -/
theorem Pruned.receiveAll {arrivals : List (DateTime × Block)} :
    ∀ {chain restored : Blockchain}, Pruned chain restored →
      chain.blocks.length + arrivals.length < 2 ^ 63 →
      (∃ chain' restored', receiveAll E chain arrivals = ok chain' ∧
        receiveAll E restored arrivals = ok restored' ∧ Pruned chain' restored' ∧
        chain'.blocks.length < 2 ^ 63) ∨
      receiveAll E chain arrivals = panicked ∧ receiveAll E restored arrivals = panicked := by
  induction arrivals with
  | nil =>
    intro chain restored h hlen
    left
    exact ⟨chain, restored, rfl, rfl, h, hlen⟩
  | cons arrival rest ih =>
    intro chain restored h hlen
    obtain ⟨now, block⟩ := arrival
    rw [List.length_cons] at hlen
    have hvalid := h.validateBlockCandidate (E := E) (by omega) now block
    simp only [Blockchain.receiveAll, receive, hvalid]
    rcases Blockchain.validateBlockCandidate E chain now block with post | e | _
    · rcases h.commitBlock (E := E) (by omega) block post with
        ⟨chain', restored', hc, hr, hpruned, hlength⟩ | ⟨hc, hr⟩
      · simp only [hc, hr, ok_bind]
        exact ih hpruned (by omega)
      · right
        simp only [hc, hr]
        exact ⟨rfl, rfl⟩
    · exact ih h (by omega)
    · right
      exact ⟨rfl, rfl⟩

/-! ## Exporting and importing -/

/-- A block with its position and the replay that ends with it. -/
structure Stands (E : Env) (height : ℕ) (block : Block) (r : Replay) : Prop where
  pow : block.hasValidPow E = true
  merkle : block.hasValidMerkleRoot E = true
  index : block.index.toNat = height
  stateRoot : block.stateRoot = r.state.stateRoot E

theorem advance_stands {baseHeight : UInt64} {seen : List Block} {previous current : Block}
    {r r' : Replay} (h : advance E baseHeight seen previous r current = ok r')
    (hseen : seen.length < 2 ^ 64) :
    Stands E (baseHeight.toNat + seen.length) current r' := by
  obtain ⟨index, hindex, hvalid, -, -⟩ := advance_eq_ok.mp h
  rw [Word.checkedAdd_eq_some, Word.toNat_ofNat_of_lt hseen] at hindex
  simp only [validateBlockAt, checkPosition, executeBlock, Outcome.bind_eq_ok, ensure_eq_ok] at hvalid
  obtain ⟨_, ⟨_, hi, -⟩, _, -, _, hmerkle, _, hpow, _, -, _, -, _, -, _, hroot, h⟩ := hvalid
  rw [pure_eq, ok.injEq] at h
  rw [h] at hroot
  exact ⟨hpow, hmerkle, by rw [hi, hindex], hroot.symm⟩

/-- The last block of a replay stands at its end. -/
theorem replayFrom_stands {baseHeight : UInt64} {l : List Block} {t : Replay} :
    ∀ {seen : List Block} {previous : Block} {r : Replay},
      replayFrom E baseHeight seen previous r l = ok t →
      Stands E (baseHeight.toNat + seen.length - 1) previous r →
      (seen ++ l).length < 2 ^ 64 →
      Stands E (baseHeight.toNat + (seen ++ l).length - 1) (lastOr previous l) t := by
  induction l with
  | nil =>
    intro seen previous r h hstands _
    rw [replayFrom, ok.injEq] at h
    rw [List.append_nil, ← h]
    exact hstands
  | cons block rest ih =>
    intro seen previous r h hstands hlen
    obtain ⟨r', hstep, hrest⟩ := (replayFrom_cons rest).mp h
    have hsplit : seen ++ block :: rest = (seen ++ [block]) ++ rest := by
      rw [List.append_assoc, List.singleton_append]
    have hseen : seen.length < 2 ^ 64 := by
      rw [List.length_append] at hlen
      omega
    rw [lastOr_cons, hsplit]
    refine ih hrest ?_ (by rw [← hsplit]; exact hlen)
    have hlast := advance_stands hstep hseen
    rw [List.length_append, List.length_singleton]
    exact hlast

/-- A replay past a cut does not need the blocks before it. -/
theorem replayFrom_pruned {pre l : List Block} {base base' : UInt64} {t : Replay}
    (hbase : base.toNat % 10 = 0) (hbase' : base'.toNat % 10 = 0) (hpos : 0 < base'.toNat)
    (hcut : base'.toNat = base.toNat + pre.length) :
    ∀ {seen : List Block} {previous : Block} {r : Replay},
      (pre ++ seen ++ l).length < 2 ^ 64 →
      replayFrom E base (pre ++ seen) previous r l = ok t →
      replayFrom E base' seen previous r l = ok t := by
  induction l with
  | nil => exact fun _ h => h
  | cons block rest ih =>
    intro seen previous r hlen h
    obtain ⟨r', hstep, hrest⟩ := (replayFrom_cons rest).mp h
    simp only [List.length_append, List.length_cons] at hlen
    rw [List.append_assoc] at hrest
    refine (replayFrom_cons rest).mpr ⟨r', ?_, ih ?_ hrest⟩
    · obtain ⟨index, hindex, hvalid, hrandomness, hdifficulty⟩ := advance_eq_ok.mp hstep
      have hindex' : Word.checkedAdd base' (UInt64.ofNat seen.length) = some index := by
        rw [← hindex]
        refine checkedAdd_eq_of_sum ?_
        rw [Word.toNat_ofNat_of_lt (by omega),
          Word.toNat_ofNat_of_lt (by rw [List.length_append]; omega), List.length_append]
        omega
      refine advance_eq_ok.mpr ⟨index, hindex', hvalid, hrandomness, ?_⟩
      rw [← hdifficulty, List.append_assoc]
      refine (retarget_pruned hbase hbase' hpos hcut (by simp) ?_).symm
      rw [Word.checkedAdd_eq_some, Word.toNat_ofNat_of_lt (by omega)] at hindex'
      rw [List.length_append, List.length_singleton]
      omega
    · simp only [List.length_append, List.length_singleton]
      omega

/-- The root of a replay stands at its start. -/
theorem replaySeed_stands {anchor : Block} {seed : Replay}
    (hvalid : anchor.hasValidPow E = true ∧ anchor.hasValidMerkleRoot E = true)
    (hindex : anchor.index = chain.baseHeight) (h : replaySeed E chain anchor = ok seed) :
    Stands E chain.baseHeight.toNat anchor seed := by
  refine ⟨hvalid.1, hvalid.2, by rw [hindex], ?_⟩
  unfold replaySeed at h
  split at h
  · simp only [Outcome.bind_eq_ok, ensure_eq_ok, pure_eq, ok.injEq] at h
    obtain ⟨_, hroot, rfl⟩ := h
    exact hroot
  · simp only [Outcome.bind_eq_ok, ensure_eq_ok, pure_eq, ok.injEq] at h
    obtain ⟨_, hroot, rfl⟩ := h
    exact hroot.symm

/-- A chain cut after some blocks is the replay of these, and the rest of the replay goes on
from there. -/
theorem Derived.cut (h : Derived E chain) (hroom : chain.blocks.length < 2 ^ 64) {k : ℕ}
    (hk : k < chain.blocks.length) :
    ∃ mid pre anchor, chain.blocks.take (k + 1) = pre ++ [anchor] ∧ pre.length = k ∧
      validateFull E { chain with
        blocks := chain.blocks.take (k + 1)
        finalizedHeight := chain.baseHeight } = ok mid ∧
      Stands E (chain.baseHeight.toNat + k) anchor mid ∧
      replayFrom E chain.baseHeight (pre ++ [anchor]) anchor mid (chain.blocks.drop (k + 1)) =
        ok ⟨chain.state, chain.randomness, chain.currentDifficulty⟩ := by
  obtain ⟨root, rest, seed, hblocks, hvalid, hindex, hseed, hreplay⟩ := validateFull_eq_ok.mp h
  have hlength : chain.blocks.length = rest.length + 1 := by rw [hblocks, List.length_cons]
  have htake : chain.blocks.take (k + 1) = root :: rest.take k := by
    rw [hblocks, List.take_succ_cons]
  have hdrop : chain.blocks.drop (k + 1) = rest.drop k := by rw [hblocks, List.drop_succ_cons]
  have htakeLength : (rest.take k).length = k := by
    rw [List.length_take]
    omega
  rw [← List.take_append_drop k rest, replayFrom_append] at hreplay
  obtain ⟨mid, hmid, hrest⟩ := hreplay
  have hlast : (root :: rest.take k).getLast (List.cons_ne_nil _ _) = lastOr root (rest.take k) := by
    have hsome := getLast?_cons_lastOr root (rest.take k)
    rw [List.getLast?_eq_some_getLast (List.cons_ne_nil _ _), Option.some.injEq] at hsome
    exact hsome
  have hsplit : (root :: rest.take k).dropLast ++ [lastOr root (rest.take k)] =
      root :: rest.take k := by
    rw [← hlast, List.dropLast_append_getLast]
  have hstands := replayFrom_stands hmid (replaySeed_stands hvalid hindex hseed)
    (by rw [List.length_append, htakeLength]; simp; omega)
  refine ⟨mid, (root :: rest.take k).dropLast, lastOr root (rest.take k), by rw [hsplit, htake],
    by rw [List.length_dropLast, List.length_cons, htakeLength, Nat.add_sub_cancel], ?_, ?_, ?_⟩
  · exact validateFull_eq_ok.mpr ⟨root, rest.take k, seed, htake, hvalid, hindex, hseed, hmid⟩
  · rw [List.length_append, htakeLength] at hstands
    have hheight : chain.baseHeight.toNat + ([root].length + k) - 1 =
        chain.baseHeight.toNat + k := by
      rw [List.length_singleton]
      omega
    rw [hheight] at hstands
    exact hstands
  · rw [hsplit, hdrop]
    exact hrest

/-- An anchor with a matching state, and blocks that replay from it, can be imported. -/
theorem fromCheckpoint_of_replay {difficulty supply : UInt64} {treasury : String}
    {publicKey vrfPublicKey : Option String} {allowlist : List String} {anchor : Block}
    {cp : CheckpointRoot} {forward : List Block} {r : Replay}
    (hmod : anchor.index % retargetInterval = 0)
    (hstands : Stands E anchor.index.toNat anchor ⟨cp.state, cp.randomness, cp.difficulty⟩)
    (h : replayFrom E anchor.index [anchor] anchor ⟨cp.state, cp.randomness, cp.difficulty⟩ forward =
      ok r) :
    ∃ restored, fromCheckpoint E difficulty treasury publicKey vrfPublicKey supply allowlist anchor
        cp forward = ok restored ∧
      restored.blocks = anchor :: forward ∧ restored.baseHeight = anchor.index ∧
      restored.state = r.state ∧ restored.randomness = r.randomness ∧
      restored.currentDifficulty = r.difficulty := by
  have hroot : anchor.stateRoot = cp.state.stateRoot E := hstands.stateRoot
  rw [fromCheckpoint, ensure_pos hmod, ok_bind, ensure_pos hroot, ok_bind]
  have hseed : ∀ chain : Blockchain, chain.checkpoint = some cp →
      replaySeed E chain anchor = ok ⟨cp.state, cp.randomness, cp.difficulty⟩ := by
    intro chain hcp
    rw [replaySeed, hcp]
    show (ensure (anchor.stateRoot = cp.state.stateRoot E) _ >>= _) = _
    rw [ensure_pos hroot]
    rfl
  rw [Blockchain.rebuildState, validateFull_eq_ok.mpr ⟨anchor, forward, _, rfl,
    ⟨hstands.pow, hstands.merkle⟩, rfl, hseed _ rfl, h⟩]
  exact ⟨_, rfl, rfl, rfl, rfl, rfl, rfl⟩

/-- The first blocks of a chain with what they replay to. -/
def truncated (chain : Blockchain) (k : ℕ) (mid : Replay) : Blockchain :=
  { chain with
    blocks := chain.blocks.take (k + 1)
    finalizedHeight := chain.baseHeight
    state := mid.state
    randomness := mid.randomness
    currentDifficulty := mid.difficulty }

/-- The bundle of a chain at an anchor, with the blocks from a position on. -/
def bundleAt (chain : Blockchain) (anchor : Block) (mid : Replay) (start : ℕ) :
    CheckpointBundle where
  difficulty := chain.difficulty
  genesisTreasury := chain.genesisTreasury
  genesisValidatorPublicKey := chain.genesisValidatorPublicKey
  genesisValidatorVrfPublicKey := chain.genesisValidatorVrfPublicKey
  genesisSupply := chain.genesisSupply
  genesisValidatorAllowlist := chain.genesisValidatorAllowlist
  genesisChainId := chain.genesisChainId
  anchor := anchor
  checkpoint := ⟨mid.state, mid.randomness, mid.difficulty⟩
  forwardBlocks := chain.blocks.drop start

/-- A chain whose tip has reached the first retarget boundary can be exported, and what is
imported is the chain without the blocks before the cut. -/
theorem Derived.export_import {tip : UInt64} (h : Derived E chain)
    (hbase : chain.baseHeight % retargetInterval = 0)
    (htip : (chain.tipIndex : Outcome String UInt64) = ok tip) (hge : retargetInterval ≤ tip) :
    ∃ bundle restored, exportBundle E chain = ok bundle ∧ fromBundle E bundle = ok restored ∧
      Pruned chain restored := by
  have hroom := h.room hbase
  have hten : retargetInterval.toNat = 10 := rfl
  have hpos : 0 < chain.blocks.length := List.length_pos_iff.mpr h.blocks_ne_nil
  have hmod : chain.baseHeight.toNat % 10 = 0 := by
    have hzero := congrArg UInt64.toNat hbase
    rw [UInt64.toNat_mod] at hzero
    exact hzero
  have htipNat := tipIndex_eq_ok htip
  rw [tipHeight, Word.toNat_ofNat_of_lt (by omega)] at htipNat
  rw [UInt64.le_iff_toNat_le, hten] at hge
  have hboundary : (tip / retargetInterval * retargetInterval).toNat = tip.toNat / 10 * 10 := by
    rw [UInt64.toNat_mul, UInt64.toNat_div, hten, Nat.mod_eq_of_lt]
    have hlt := Word.toNat_lt tip
    omega
  obtain ⟨k, hk⟩ : ∃ k, tip.toNat / 10 * 10 = chain.baseHeight.toNat + k :=
    ⟨_, (Nat.add_sub_of_le (by omega)).symm⟩
  obtain ⟨mid, pre, anchor, htake, hpre, hvalid, hstands, hrest⟩ :=
    h.cut (k := k) (by omega) (by omega)
  have hsub : Word.checkedSub (tip / retargetInterval * retargetInterval) chain.baseHeight =
      some (UInt64.ofNat k) := by
    rw [Word.checkedSub_eq_some, hboundary, Word.toNat_ofNat_of_lt (by omega)]
    omega
  have hlocal : (UInt64.ofNat k).toNat = k := Word.toNat_ofNat_of_lt (by omega)
  have hrebuild : Blockchain.rebuildState E { chain with
      blocks := chain.blocks.take (k + 1)
      finalizedHeight := chain.baseHeight } = ok (chain.truncated k mid) := by
    rw [Blockchain.rebuildState, hvalid]
    rfl
  have hexport : (chain.truncated k mid).exportCheckpoint =
      ok (anchor, ⟨mid.state, mid.randomness, mid.difficulty⟩) := by
    have hlength : (chain.truncated k mid).blocks.length = k + 1 := by
      show (chain.blocks.take (k + 1)).length = k + 1
      rw [htake, List.length_append, hpre, List.length_singleton]
    have hne : (chain.truncated k mid).blocks ≠ [] :=
      List.ne_nil_of_length_pos (by omega)
    have hcutTip : ((chain.truncated k mid).tipIndex : Outcome String UInt64) =
        ok (UInt64.ofNat (chain.baseHeight.toNat + (k + 1) - 1)) := by
      rw [tipIndex_of_lt hne (show chain.baseHeight.toNat + _ < _ by rw [hlength]; omega), hlength]
      rfl
    have hcutNat : (UInt64.ofNat (chain.baseHeight.toNat + (k + 1) - 1)).toNat =
        chain.baseHeight.toNat + k := Word.toNat_ofNat_of_lt (by omega)
    have hlast : (chain.truncated k mid).blocks.getLast? = some anchor := by
      show (chain.blocks.take (k + 1)).getLast? = some anchor
      rw [htake, List.getLast?_concat]
    rw [exportCheckpoint, hcutTip, ok_bind, ensure_pos, ok_bind, hlast]
    · rfl
    · rintro (hzero | hnot)
      · have hnat := congrArg UInt64.toNat hzero
        rw [hcutNat, UInt64.toNat_zero] at hnat
        omega
      · apply hnot
        refine Word.toNat_ext ?_
        rw [UInt64.toNat_mod, hcutNat, hten, UInt64.toNat_zero]
        omega
  have hbundle : exportBundle E chain = ok (chain.bundleAt anchor mid (k + 1)) := by
    have hnonzero : tip / retargetInterval * retargetInterval ≠ 0 := by
      intro hzero
      have hnat := congrArg UInt64.toNat hzero
      rw [hboundary, UInt64.toNat_zero] at hnat
      omega
    have hslice : (sliceFrom chain.blocks (k + 1) : Outcome String (List Block)) =
        ok (chain.blocks.drop (k + 1)) := if_pos (by omega)
    rw [exportBundle, htip, ok_bind]
    simp only [ensure_pos hnonzero, ok_bind, hsub, plain_some, hlocal, hrebuild, hexport, hslice]
    rfl
  have hanchor : anchor.index.toNat = chain.baseHeight.toNat + k := hstands.index
  have hindexMod : anchor.index % retargetInterval = 0 := by
    refine Word.toNat_ext ?_
    rw [UInt64.toNat_mod, hanchor, hten, UInt64.toNat_zero]
    omega
  have hsplit : chain.blocks = pre ++ (anchor :: chain.blocks.drop (k + 1)) := by
    conv_lhs => rw [← List.take_append_drop (k + 1) chain.blocks, htake]
    rw [List.append_assoc, List.singleton_append]
  have hlater : replayFrom E anchor.index [anchor] anchor mid (chain.blocks.drop (k + 1)) =
      ok ⟨chain.state, chain.randomness, chain.currentDifficulty⟩ := by
    refine replayFrom_pruned hmod (by omega) (by omega) (by omega) ?_ hrest
    rw [← htake, List.take_append_drop]
    omega
  obtain ⟨restored, hrestored, hpruned⟩ : ∃ restored, fromBundle E (chain.bundleAt anchor mid (k + 1)) =
      ok restored ∧ Pruned chain restored := by
    obtain ⟨restored, hrestored, hblocks, hindex, hstate, hrandomness, hdifficulty⟩ :=
      @fromCheckpoint_of_replay E chain.difficulty chain.genesisSupply chain.genesisTreasury
        chain.genesisValidatorPublicKey chain.genesisValidatorVrfPublicKey
        chain.genesisValidatorAllowlist _ ⟨mid.state, mid.randomness, mid.difficulty⟩ _ _ hindexMod
        ⟨hstands.pow, hstands.merkle, rfl, hstands.stateRoot⟩ hlater
    refine ⟨restored, hrestored, ⟨⟨pre, ?_, ?_⟩, hmod, ?_, ?_, ?_, hstate, hrandomness,
      hdifficulty⟩⟩
    · rw [hblocks]
      exact hsplit
    · rw [hindex, hanchor, hpre]
    · rw [hindex]
      omega
    · rw [hindex]
      omega
    · rw [hblocks]
      exact List.cons_ne_nil _ _
  exact ⟨_, restored, hbundle, hrestored, hpruned⟩

/-! ## A restored node -/

/-- A node restored from the bundle of a chain stands at the same tip with the same derived
fields, and whatever blocks are offered to both, it stops when the original does, or goes on
to the same fields and the same verdict on every block. -/
theorem checkpoint_indistinguishable {start : Blockchain} {now : DateTime.Reading} {tip : UInt64}
    (hroot : Rooted E start) (h : Built E start now chain)
    (htip : (chain.tipIndex : Outcome String UInt64) = ok tip) (hge : retargetInterval ≤ tip) :
    ∃ bundle restored, exportBundle E chain = ok bundle ∧ fromBundle E bundle = ok restored ∧
      restored.blocks.getLast? = chain.blocks.getLast? ∧
      restored.derivedFields = chain.derivedFields ∧
      ∀ arrivals : List (DateTime × Block), chain.blocks.length + arrivals.length < 2 ^ 63 →
        (∃ chain' restored', receiveAll E chain arrivals = ok chain' ∧
          receiveAll E restored arrivals = ok restored' ∧
          restored'.derivedFields = chain'.derivedFields ∧
          ∀ now block, validateBlockCandidate E restored' now block =
            validateBlockCandidate E chain' now block) ∨
        receiveAll E chain arrivals = panicked ∧ receiveAll E restored arrivals = panicked := by
  have hgrounded := h.grounded hroot.derived
  have hbase : chain.baseHeight % retargetInterval = 0 := by
    have hsame : chain.network.baseHeight = start.network.baseHeight := by rw [hgrounded.network]
    have hsame : chain.baseHeight = start.baseHeight := hsame
    rw [hsame]
    exact hroot.base.1
  obtain ⟨bundle, restored, hexport, himport, hpruned⟩ :=
    hgrounded.derived.export_import hbase htip hge
  refine ⟨bundle, restored, hexport, himport, hpruned.getLast?, hpruned.derivedFields,
    fun arrivals hlen => ?_⟩
  rcases hpruned.receiveAll (E := E) hlen with ⟨chain', restored', hc, hr, hpruned', hlen'⟩ | hstop
  · left
    exact ⟨chain', restored', hc, hr, hpruned'.derivedFields, fun now block =>
      hpruned'.validateBlockCandidate (by omega) now block⟩
  · right
    exact hstop

end Blockchain

theorem Sample.chainOf_built {n : ℕ} (hn : n < 19) :
    Blockchain.Built (Sample.node [Sample.reward]) (Sample.root [Sample.reward] 1000000000000000)
      ⟨Sample.morning, rfl⟩ (Sample.chainOf [Sample.reward] 1000000000000000 n) := by
  induction n with
  | zero => exact .start _
  | succ n ih =>
    refine .commit (ih (by omega)) (Sample.accept_chainOf (by decide) (by omega) rfl) ?_
    rw [Sample.chainOf_length]
    omega

theorem Sample.chainOf_tipIndex {ε : Type} {n : ℕ} (hn : n < 19) :
    ((Sample.chainOf [Sample.reward] 1000000000000000 n).tipIndex : Outcome ε UInt64) =
      ok (UInt64.ofNat n) := by
  have halone : Sample.Alone (Sample.chainOf [Sample.reward] 1000000000000000 n) :=
    Sample.chainOf_alone (by decide) hn
  have hlength : (Sample.chainOf [Sample.reward] 1000000000000000 n).blocks.length = n + 1 :=
    Sample.chainOf_length n
  have hbase : (Sample.chainOf [Sample.reward] 1000000000000000 n).baseHeight.toNat = 0 := by
    rw [halone.base]
    rfl
  rw [Blockchain.tipIndex_of_lt halone.nonempty (by rw [hbase, hlength]; omega), hbase, hlength,
    Nat.zero_add, Nat.add_sub_cancel]

/-- A toy chain restored at height 10. -/
theorem Blockchain.checkpoint_indistinguishable_sample :
    ∃ bundle restored, exportBundle (Sample.node [Sample.reward])
        (Sample.chainOf [Sample.reward] 1000000000000000 10) = ok bundle ∧
      fromBundle (Sample.node [Sample.reward]) bundle = ok restored ∧
      restored.derivedFields =
        (Sample.chainOf [Sample.reward] 1000000000000000 10).derivedFields := by
  obtain ⟨bundle, restored, hexport, himport, -, hfields, -⟩ :=
    checkpoint_indistinguishable (E := Sample.node [Sample.reward])
      (.genesis (E := Sample.node [Sample.reward]) Sample.newWithGenesisOnChain_root)
      (Sample.chainOf_built (show 10 < 19 by decide))
      (Sample.chainOf_tipIndex (show 10 < 19 by decide)) (by decide)
  exact ⟨bundle, restored, hexport, himport, hfields⟩
