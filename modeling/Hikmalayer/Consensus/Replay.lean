/-
# Replaying a chain

`validate_full` block by block: one step of it is `advance`, a replay over two lists of
blocks is a replay over the first and then the second, and appending a validated block to
a chain whose derived fields are those of its replay keeps them so.
-/
import Mathlib.Tactic
import Hikmalayer.Model.Chain

open Outcome

namespace Blockchain

variable {E : Node} {baseHeight : UInt64} {seen : List Block} {previous current : Block}
  {r r' : Replay}

/-! ## One step -/

/-- One step of a replay: validate, fold the VRF output, retarget. -/
def advance (E : Node) (baseHeight : UInt64) (seen : List Block) (previous : Block) (r : Replay)
    (current : Block) : Outcome (ℕ × BlockError) Replay := do
  let index ← plain (Word.checkedAdd baseHeight (UInt64.ofNat seen.length))
  let state ← (validateBlockAt E current
    ⟨index, previous.hash, r.randomness, previous.timestamp, r.difficulty⟩ r.state).mapErr
      fun error => (seen.length, error)
  let randomness := Vrf.nextRandomness E r.randomness (current.vrfOutput.getD "")
  let difficulty ← retarget (seen ++ [current]) index baseHeight r.difficulty
  return ⟨state, randomness, difficulty⟩

theorem replayFrom_cons (rest : List Block) {t : Replay} :
    replayFrom E baseHeight seen previous r (current :: rest) = ok t ↔
      ∃ r', advance E baseHeight seen previous r current = ok r' ∧
        replayFrom E baseHeight (seen ++ [current]) current r' rest = ok t := by
  simp only [replayFrom, advance, Outcome.bind_eq_ok, pure_eq, ok.injEq]
  constructor
  · rintro ⟨index, hi, state, hs, difficulty, hd, h⟩
    exact ⟨_, ⟨index, hi, state, hs, difficulty, hd, rfl⟩, h⟩
  · rintro ⟨_, ⟨index, hi, state, hs, difficulty, hd, rfl⟩, h⟩
    exact ⟨index, hi, state, hs, difficulty, hd, h⟩

/-- What a step that succeeds says. -/
theorem advance_eq_ok :
    advance E baseHeight seen previous r current = ok r' ↔
      ∃ index, Word.checkedAdd baseHeight (UInt64.ofNat seen.length) = some index ∧
        validateBlockAt E current
          ⟨index, previous.hash, r.randomness, previous.timestamp, r.difficulty⟩ r.state =
            ok r'.state ∧
        r'.randomness = Vrf.nextRandomness E r.randomness (current.vrfOutput.getD "") ∧
        (retarget (seen ++ [current]) index baseHeight r.difficulty :
          Outcome (ℕ × BlockError) UInt64) = ok r'.difficulty := by
  simp only [advance, Outcome.bind_eq_ok, plain_eq_ok, mapErr_eq_ok, pure_eq, ok.injEq]
  constructor
  · rintro ⟨index, hi, state, hs, difficulty, hd, rfl⟩
    exact ⟨index, hi, hs, rfl, hd⟩
  · rintro ⟨index, hi, hs, hr, hd⟩
    refine ⟨index, hi, _, hs, _, hd, ?_⟩
    rw [← hr]

/-! ## Retargeting -/

theorem adjustedDifficulty_ok_iff {ε ε' : Type} {window : List Block} {current d : UInt64} :
    (adjustedDifficulty current window : Outcome ε UInt64) = ok d ↔
      (adjustedDifficulty current window : Outcome ε' UInt64) = ok d := by
  unfold adjustedDifficulty
  by_cases hlen : window.length < 2
  · rw [if_pos hlen, if_pos hlen, pure_eq, pure_eq, ok.injEq, ok.injEq]
  · rw [if_neg hlen, if_neg hlen]
    simp only [Outcome.bind_eq_ok, plain_eq_ok]
    refine exists_congr fun first => and_congr_right fun _ => exists_congr fun last =>
      and_congr_right fun _ => ?_
    split
    · simp only [Outcome.bind_eq_ok, plain_eq_ok, pure_eq, ok.injEq]
    · split <;> simp only [pure_eq, ok.injEq]

theorem sliceFrom_eq_ok {ε : Type} {blocks window : List Block} {start : ℕ} :
    (sliceFrom blocks start : Outcome ε (List Block)) = ok window ↔
      start ≤ blocks.length ∧ blocks.drop start = window := by
  unfold sliceFrom
  split
  · rename_i h
    rw [ok.injEq, and_iff_right h]
  · rename_i h
    simp [h]

/-- The retarget is computed alike wherever it is called from. -/
theorem retarget_ok_iff {ε ε' : Type} {blocks : List Block} {index current d : UInt64} :
    (retarget blocks index baseHeight current : Outcome ε UInt64) = ok d ↔
      (retarget blocks index baseHeight current : Outcome ε' UInt64) = ok d := by
  unfold retarget
  simp only [Outcome.bind_eq_ok, plain_eq_ok]
  refine exists_congr fun next => and_congr_right fun _ => ?_
  split
  · simp only [pure_eq, ok.injEq]
  · simp only [Outcome.bind_eq_ok, sliceFrom_eq_ok]
    exact exists_congr fun window => and_congr_right fun _ => adjustedDifficulty_ok_iff

/-- A retarget that is computed leaves room for the next height. -/
theorem retarget_room {ε : Type} {blocks : List Block} {index current d : UInt64}
    (h : (retarget blocks index baseHeight current : Outcome ε UInt64) = ok d) :
    index.toNat + 1 < 2 ^ 64 := by
  simp only [retarget, Outcome.bind_eq_ok, plain_eq_ok, Word.checkedAdd_eq_some] at h
  obtain ⟨next, hnext, -⟩ := h
  have hlt := Word.toNat_lt next
  have hone : (1 : UInt64).toNat = 1 := rfl
  omega

/-! ## Replays over several blocks -/

/-- The last of some blocks, or the one before them. -/
def lastOr (previous : Block) (blocks : List Block) : Block := blocks.getLast?.getD previous

theorem lastOr_cons (previous block : Block) (rest : List Block) :
    lastOr previous (block :: rest) = lastOr block rest := by
  unfold lastOr
  cases rest with
  | nil => rfl
  | cons b rest => rw [List.getLast?_cons_cons]; simp [List.getLast?_cons]

/-- A replay over two lists is one over the first and then the second. -/
theorem replayFrom_append (l₁ l₂ : List Block) {t : Replay} :
    replayFrom E baseHeight seen previous r (l₁ ++ l₂) = ok t ↔
      ∃ mid, replayFrom E baseHeight seen previous r l₁ = ok mid ∧
        replayFrom E baseHeight (seen ++ l₁) (lastOr previous l₁) mid l₂ = ok t := by
  induction l₁ generalizing seen previous r with
  | nil =>
    rw [List.nil_append, List.append_nil]
    constructor
    · exact fun h => ⟨r, rfl, h⟩
    · rintro ⟨mid, hmid, h⟩
      rw [replayFrom, ok.injEq] at hmid
      rw [hmid]
      exact h
  | cons block rest ih =>
    rw [List.cons_append, replayFrom_cons, lastOr_cons]
    have hseen : seen ++ block :: rest = (seen ++ [block]) ++ rest := by
      rw [List.append_assoc, List.singleton_append]
    constructor
    · rintro ⟨r', hstep, h⟩
      obtain ⟨mid, hmid, h⟩ := ih.mp h
      refine ⟨mid, (replayFrom_cons rest).mpr ⟨r', hstep, hmid⟩, ?_⟩
      rw [hseen]
      exact h
    · rintro ⟨mid, hmid, h⟩
      obtain ⟨r', hstep, hmid⟩ := (replayFrom_cons rest).mp hmid
      rw [hseen] at h
      exact ⟨r', hstep, ih.mpr ⟨mid, hmid, h⟩⟩

/-- A replay that ends leaves room for the next height: the retarget computes it. -/
theorem replayFrom_room {l : List Block} {t : Replay}
    (h : replayFrom E baseHeight seen previous r l = ok t) (hseen : seen.length < 2 ^ 64)
    (hl : l ≠ []) : baseHeight.toNat + (seen ++ l).length < 2 ^ 64 := by
  induction l generalizing seen previous r with
  | nil => exact absurd rfl hl
  | cons block rest ih =>
    obtain ⟨r', hstep, hrest⟩ := (replayFrom_cons rest).mp h
    obtain ⟨index, hindex, -, -, hretarget⟩ := advance_eq_ok.mp hstep
    have hindexRoom := retarget_room hretarget
    rw [Word.checkedAdd_eq_some, Word.toNat_ofNat_of_lt hseen] at hindex
    have hsnoc : baseHeight.toNat + (seen ++ [block]).length < 2 ^ 64 := by
      rw [List.length_append, List.length_singleton]
      omega
    cases rest with
    | nil => exact hsnoc
    | cons b rest =>
      have hlen : (seen ++ [block]).length < 2 ^ 64 := by omega
      have hroom := ih hrest hlen (List.cons_ne_nil b rest)
      rw [List.append_assoc, List.singleton_append] at hroom
      exact hroom

/-! ## Chains -/

variable {chain chain' : Blockchain} {block : Block} {post : ChainState}

/-- The fields a node derives are those of a replay of its blocks. -/
def Derived (E : Node) (chain : Blockchain) : Prop :=
  validateFull E chain = ok ⟨chain.state, chain.randomness, chain.currentDifficulty⟩

/-- What a successful replay of a chain says. -/
theorem validateFull_eq_ok :
    validateFull E chain = ok r ↔
      ∃ anchor rest seed, chain.blocks = anchor :: rest ∧
        (anchor.hasValidPow E = true ∧ anchor.hasValidMerkleRoot E = true) ∧
        anchor.index = chain.baseHeight ∧ replaySeed E chain anchor = ok seed ∧
        replayFrom E chain.baseHeight [anchor] anchor seed rest = ok r := by
  simp only [validateFull, Outcome.bind_eq_ok, okOr_eq_ok, ensure_eq_ok]
  cases hb : chain.blocks with
  | nil => simp
  | cons anchor rest =>
    simp only [List.head?_cons, Option.some.injEq, List.tail_cons, List.cons.injEq]
    constructor
    · rintro ⟨_, rfl, _, hvalid, _, hindex, seed, hseed, h⟩
      exact ⟨anchor, rest, seed, ⟨rfl, rfl⟩, hvalid, hindex, hseed, h⟩
    · rintro ⟨_, _, seed, ⟨rfl, rfl⟩, hvalid, hindex, hseed, h⟩
      exact ⟨anchor, rfl, (), hvalid, (), hindex, seed, hseed, h⟩

theorem Derived.blocks_ne_nil (h : Derived E chain) : chain.blocks ≠ [] := by
  obtain ⟨anchor, rest, _, hb, -⟩ := validateFull_eq_ok.mp h
  rw [hb]
  exact List.cons_ne_nil anchor rest

/-- The heights of a replayed chain fit a word. -/
theorem Derived.room (h : Derived E chain) (hbase : chain.baseHeight % retargetInterval = 0) :
    chain.baseHeight.toNat + chain.blocks.length < 2 ^ 64 := by
  obtain ⟨anchor, rest, seed, hb, -, -, -, hreplay⟩ := validateFull_eq_ok.mp h
  cases rest with
  | nil =>
    have hlt := Word.toNat_lt chain.baseHeight
    have hmod := congrArg UInt64.toNat hbase
    rw [UInt64.toNat_mod] at hmod
    have hmod : chain.baseHeight.toNat % 10 = 0 := hmod
    rw [hb, List.length_singleton]
    omega
  | cons b rest =>
    have hroom := replayFrom_room hreplay (by simp) (List.cons_ne_nil b rest)
    rw [List.singleton_append] at hroom
    rw [hb]
    exact hroom

/-- Rebuilding a chain whose fields are derived gives it back. -/
theorem Derived.rebuildState (h : Derived E chain) : rebuildState E chain = ok chain := by
  unfold Blockchain.rebuildState
  rw [h]
  rfl

/-- A rebuilt chain has derived fields. -/
theorem derived_of_rebuildState (h : Blockchain.rebuildState E chain = ok chain') :
    Derived E chain' ∧ chain' = { chain with
      state := chain'.state
      randomness := chain'.randomness
      currentDifficulty := chain'.currentDifficulty } := by
  simp only [Blockchain.rebuildState, Outcome.bind_eq_ok, mapErr_eq_ok, pure_eq, ok.injEq] at h
  obtain ⟨r, hr, rfl⟩ := h
  exact ⟨hr, rfl⟩

/-! ## Roots -/

/-- The chain that a genesis block and state start. -/
def genesisChain (difficulty : UInt64) (genesisTreasury : String)
    (genesisValidatorPublicKey genesisValidatorVrfPublicKey : Option String)
    (genesisSupply : UInt64) (genesisValidatorAllowlist : List String) (genesisChainId : String)
    (genesisRequireHybridSignatures : Bool) (genesisValidatorPqPublicKey : Option String)
    (block : Block) (state : ChainState) : Blockchain where
  blocks := [block]
  difficulty := difficulty
  finalizedHeight := 0
  genesisTreasury := genesisTreasury
  genesisValidatorPublicKey := genesisValidatorPublicKey
  genesisValidatorVrfPublicKey := genesisValidatorVrfPublicKey
  genesisSupply := genesisSupply
  genesisValidatorAllowlist := genesisValidatorAllowlist
  genesisChainId := genesisChainId
  genesisRequireHybridSignatures := genesisRequireHybridSignatures
  genesisValidatorPqPublicKey := genesisValidatorPqPublicKey
  state := state
  randomness := block.hash
  currentDifficulty := difficulty
  baseHeight := 0
  checkpoint := none

section Genesis

variable {ε : Type} {E : Env} {chainId treasury : String} {difficulty supply : UInt64}
  {publicKey vrfPublicKey pqPublicKey : Option String} {allowlist : List String} {hybrid : Bool}

/-- A genesis chain holds the mined block of its genesis state. -/
theorem newWithGenesisOnChain_eq_ok :
    (newWithGenesisOnChain E chainId difficulty treasury publicKey vrfPublicKey supply allowlist
      hybrid pqPublicKey : Outcome ε Blockchain) = ok chain ↔
      ∃ block state, ChainState.seatGenesisValidatorPqKey E
          { ChainState.genesisForChain chainId treasury publicKey vrfPublicKey supply allowlist with
            requireHybridSignatures := hybrid } treasury pqPublicKey = state ∧
        (Block.genesis E (Pow.clampDifficulty difficulty) (state.stateRoot E) :
          Outcome ε Block) = ok block ∧
        genesisChain (Pow.clampDifficulty difficulty) treasury publicKey vrfPublicKey supply
          allowlist chainId hybrid pqPublicKey block state = chain := by
  rw [newWithGenesisOnChain, Outcome.bind_eq_ok]
  constructor
  · rintro ⟨block, hblock, h⟩
    rw [pure_eq, ok.injEq] at h
    exact ⟨block, _, rfl, hblock, h⟩
  · rintro ⟨block, _, rfl, hblock, rfl⟩
    exact ⟨block, hblock, rfl⟩

/-- Without a checkpoint a replay starts at the genesis state. -/
theorem replaySeed_genesis {anchor : Block} {state : ChainState} (hcp : chain.checkpoint = none)
    (hstate : chain.genesisState E = state) (hroot : state.stateRoot E = anchor.stateRoot) :
    replaySeed E chain anchor = ok ⟨state, anchor.hash, chain.difficulty⟩ := by
  subst hstate
  rw [replaySeed, hcp]
  show (ensure ((chain.genesisState E).stateRoot E = anchor.stateRoot) _ >>= _) = _
  rw [ensure_pos hroot]
  rfl

/-- A genesis chain is its own replay. -/
theorem derived_genesis {E : Node} {ε : Type}
    (h : (newWithGenesisOnChain E chainId difficulty treasury publicKey vrfPublicKey supply allowlist
      hybrid pqPublicKey : Outcome ε Blockchain) = ok chain) : Derived E chain := by
  obtain ⟨block, state, hstate, hblock, rfl⟩ := newWithGenesisOnChain_eq_ok.mp h
  have hfields : block.index = 0 ∧ block.stateRoot = state.stateRoot E := by
    simp only [Block.genesis, Block.newAt, Outcome.bind_eq_ok, pure_eq, ok.injEq] at hblock
    obtain ⟨_, _, rfl⟩ := hblock
    exact ⟨rfl, rfl⟩
  obtain ⟨-, hpow, hmerkle⟩ := Block.newAt_valid hblock
  have hseed : replaySeed E (genesisChain (Pow.clampDifficulty difficulty) treasury publicKey
      vrfPublicKey supply allowlist chainId hybrid pqPublicKey block state) block =
      ok ⟨state, block.hash, Pow.clampDifficulty difficulty⟩ :=
    replaySeed_genesis rfl hstate hfields.2.symm
  exact validateFull_eq_ok.mpr ⟨block, [], _, rfl, ⟨hpow, hmerkle⟩, hfields.1, hseed, rfl⟩

/-- How a chain imported from a checkpoint relates to what it was built from. -/
theorem fromCheckpoint_eq_ok {E : Node} {anchor : Block} {cp : CheckpointRoot}
    {forward : List Block}
    (h : fromCheckpoint E difficulty treasury publicKey vrfPublicKey supply allowlist anchor cp
      forward = ok chain) :
    Derived E chain ∧ chain.blocks = anchor :: forward ∧ anchor.index % retargetInterval = 0 ∧
      chain.baseHeight = anchor.index ∧ chain.finalizedHeight = anchor.index ∧
      chain.checkpoint = some cp := by
  simp only [fromCheckpoint, Outcome.bind_eq_ok, ensure_eq_ok] at h
  obtain ⟨_, hmod, _, _, h⟩ := h
  obtain ⟨hderived, hfields⟩ := derived_of_rebuildState h
  exact ⟨hderived, by rw [hfields], hmod, by rw [hfields], by rw [hfields], by rw [hfields]⟩

end Genesis

/-- A chain as a node starts with it: from genesis, or imported from a checkpoint. -/
inductive Rooted (E : Node) : Blockchain → Prop
  | genesis {chainId treasury : String} {difficulty supply : UInt64}
      {publicKey vrfPublicKey pqPublicKey : Option String} {allowlist : List String}
      {hybrid : Bool} {chain : Blockchain}
      (h : (newWithGenesisOnChain E chainId difficulty treasury publicKey vrfPublicKey supply
        allowlist hybrid pqPublicKey : Outcome String Blockchain) = ok chain) : Rooted E chain
  | checkpoint {treasury : String} {difficulty supply : UInt64}
      {publicKey vrfPublicKey : Option String} {allowlist : List String} {anchor : Block}
      {cp : CheckpointRoot} {forward : List Block} {chain : Blockchain}
      (h : fromCheckpoint E difficulty treasury publicKey vrfPublicKey supply allowlist anchor cp
        forward = ok chain) : Rooted E chain

theorem Rooted.derived (h : Rooted E chain) : Derived E chain := by
  cases h with
  | genesis h => exact derived_genesis h
  | checkpoint h => exact (fromCheckpoint_eq_ok h).1

/-- A root sits at a multiple of the retarget interval, and is all that is final. -/
theorem Rooted.base (h : Rooted E chain) :
    chain.baseHeight % retargetInterval = 0 ∧ chain.finalizedHeight = chain.baseHeight := by
  cases h with
  | genesis h =>
    obtain ⟨_, _, _, _, rfl⟩ := newWithGenesisOnChain_eq_ok.mp h
    exact ⟨rfl, rfl⟩
  | checkpoint h =>
    obtain ⟨-, -, hmod, hbase, hfinal, -⟩ := fromCheckpoint_eq_ok h
    rw [hbase, hfinal]
    exact ⟨hmod, rfl⟩

/-! ## Accepting a block -/

/-- Validate a block for the tip and commit it, as every handler does. -/
def accept (E : Node) (now : DateTime) (chain : Blockchain) (block : Block) :
    Outcome String Blockchain := do
  let post ← validateBlockCandidate E chain now block
  commitBlock E chain block post

/-- What a valid candidate for the tip says. -/
theorem validateBlockCandidate_eq_ok {now : DateTime} :
    validateBlockCandidate E chain now block = ok post ↔
      ¬ (now.addSeconds maxTimestampSkewSeconds).before block.timestamp ∧
      ∃ parent index, chain.blocks.getLast? = some parent ∧
        Word.checkedAdd chain.baseHeight (UInt64.ofNat chain.blocks.length) = some index ∧
        validateBlockAt E block
          ⟨index, parent.hash, chain.randomness, parent.timestamp, chain.currentDifficulty⟩
          chain.state = ok post := by
  simp only [validateBlockCandidate, nextPosition, nextIndex, Outcome.bind_eq_ok, ensure_eq_ok,
    okOr_eq_ok, plain_eq_ok, mapErr_eq_ok, pure_eq, ok.injEq, Option.map_eq_some_iff]
  constructor
  · rintro ⟨_, htime, _, ⟨parent, hparent, rfl⟩, _, ⟨index, hindex, rfl⟩, h⟩
    refine ⟨htime, parent, index, hparent, hindex, ?_⟩
    rw [latestHash, hparent] at h
    exact h
  · rintro ⟨htime, parent, index, hparent, hindex, h⟩
    refine ⟨(), htime, _, ⟨parent, hparent, rfl⟩, _, ⟨index, hindex, rfl⟩, ?_⟩
    rw [latestHash, hparent]
    exact h

/-- A chain with a block appended and its derived fields replaced. -/
def extended (chain : Blockchain) (block : Block) (r : Replay) : Blockchain :=
  { chain with
    blocks := chain.blocks ++ [block]
    state := r.state
    randomness := r.randomness
    currentDifficulty := r.difficulty }

/-- While the next height fits a word, committing a block is one step of the replay. -/
theorem commitBlock_eq_ok {ε : Type} (hroom : chain.blocks.length + 1 < 2 ^ 64) :
    (commitBlock E chain block post : Outcome ε Blockchain) = ok chain' ↔
      ∃ index difficulty,
        Word.checkedAdd chain.baseHeight (UInt64.ofNat chain.blocks.length) = some index ∧
        (retarget (chain.blocks ++ [block]) index chain.baseHeight chain.currentDifficulty :
          Outcome ε UInt64) = ok difficulty ∧
        chain' = chain.extended block
          ⟨post, Vrf.nextRandomness E chain.randomness (block.vrfOutput.getD ""), difficulty⟩ := by
  have hone : (1 : UInt64).toNat = 1 := rfl
  have hlen : (UInt64.ofNat (chain.blocks.length + 1)).toNat = chain.blocks.length + 1 :=
    Word.toNat_ofNat_of_lt hroom
  have hlen' : (UInt64.ofNat chain.blocks.length).toNat = chain.blocks.length :=
    Word.toNat_ofNat_of_lt (by omega)
  simp only [commitBlock, tipIndex, nextIndex, Outcome.bind_eq_ok, plain_eq_ok, pure_eq, ok.injEq,
    List.length_append, List.length_singleton, extended]
  constructor
  · rintro ⟨tip, ⟨next, hnext, rfl⟩, difficulty, hd, rfl⟩
    rw [Word.checkedAdd_eq_some, hlen] at hnext
    have hlt := Word.toNat_lt next
    have htip : (Word.saturatingSub next 1).toNat =
        chain.baseHeight.toNat + chain.blocks.length := by
      rw [Word.saturatingSub_toNat]
      omega
    refine ⟨Word.saturatingSub next 1, difficulty, ?_, hd, rfl⟩
    rw [Word.checkedAdd_eq_some, hlen', htip]
  · rintro ⟨index, difficulty, hindex, hd, rfl⟩
    have hlt := retarget_room hd
    rw [Word.checkedAdd_eq_some, hlen'] at hindex
    have hnext : Word.checkedAdd chain.baseHeight (UInt64.ofNat (chain.blocks.length + 1)) =
        some (UInt64.ofNat (index.toNat + 1)) := by
      rw [Word.checkedAdd_eq_some, hlen, Word.toNat_ofNat_of_lt hlt]
      omega
    have htip : Word.saturatingSub (UInt64.ofNat (index.toNat + 1)) 1 = index := by
      refine Word.toNat_ext ?_
      rw [Word.saturatingSub_toNat, Word.toNat_ofNat_of_lt hlt]
      omega
    exact ⟨_, ⟨_, hnext, rfl⟩, difficulty, by rw [htip]; exact hd, rfl⟩

/-- Accepting a block appends it and replaces the derived fields. -/
theorem accept_extended {now : DateTime} (h : accept E now chain block = ok chain') :
    ∃ r, chain' = chain.extended block r := by
  simp only [accept, commitBlock, Outcome.bind_eq_ok, pure_eq, ok.injEq] at h
  obtain ⟨post, -, _, -, difficulty, -, rfl⟩ := h
  exact ⟨⟨post, _, difficulty⟩, rfl⟩

theorem getLast?_cons_lastOr (anchor : Block) (rest : List Block) :
    (anchor :: rest).getLast? = some (lastOr anchor rest) := by
  rw [List.getLast?_cons]
  rfl

/-- While the next height fits a word, accepting a block is one step of the replay. -/
theorem accept_eq_ok {now : DateTime} (hroom : chain.blocks.length + 1 < 2 ^ 64) :
    accept E now chain block = ok chain' ↔
      ¬ (now.addSeconds maxTimestampSkewSeconds).before block.timestamp ∧
      ∃ parent r, chain.blocks.getLast? = some parent ∧
        advance E chain.baseHeight chain.blocks parent
          ⟨chain.state, chain.randomness, chain.currentDifficulty⟩ block = ok r ∧
        chain' = chain.extended block r := by
  simp only [accept, Outcome.bind_eq_ok, validateBlockCandidate_eq_ok, commitBlock_eq_ok hroom,
    advance_eq_ok]
  constructor
  · rintro ⟨post, ⟨htime, parent, index, hparent, hindex, hvalid⟩, index', difficulty, hindex', hd,
      rfl⟩
    rw [hindex, Option.some.injEq] at hindex'
    subst hindex'
    exact ⟨htime, parent, _, hparent, ⟨index, hindex, hvalid, rfl, retarget_ok_iff.mp hd⟩, rfl⟩
  · rintro ⟨htime, parent, r, hparent, ⟨index, hindex, hvalid, hrandom, hd⟩, rfl⟩
    refine ⟨r.state, ⟨htime, parent, index, hparent, hindex, hvalid⟩, index, r.difficulty, hindex,
      retarget_ok_iff.mp hd, ?_⟩
    rw [← hrandom]

/-- Accepting a block keeps the derived fields derived. -/
theorem Derived.accept {now : DateTime} (h : Derived E chain)
    (hroom : chain.blocks.length + 1 < 2 ^ 64)
    (ha : Blockchain.accept E now chain block = ok chain') : Derived E chain' := by
  obtain ⟨-, parent, r, hparent, hstep, rfl⟩ := (accept_eq_ok hroom).mp ha
  obtain ⟨anchor, rest, seed, hb, hvalid, hindex, hseed, hreplay⟩ := validateFull_eq_ok.mp h
  have hlast : parent = lastOr anchor rest := by
    rw [hb, getLast?_cons_lastOr, Option.some.injEq] at hparent
    exact hparent.symm
  refine validateFull_eq_ok.mpr ⟨anchor, rest ++ [block], seed, ?_, hvalid, hindex, hseed, ?_⟩
  · show chain.blocks ++ [block] = _
    rw [hb, List.cons_append]
  · refine (replayFrom_append rest [block]).mpr ⟨_, hreplay, (replayFrom_cons []).mpr ⟨r, ?_, rfl⟩⟩
    rw [← hlast, List.singleton_append, ← hb]
    exact hstep

/-! ## Blocks in a row -/

/-- Accept blocks one after the other, each at its time of arrival. -/
def acceptAll (E : Node) : Blockchain → List (DateTime × Block) → Outcome String Blockchain
  | chain, [] => ok chain
  | chain, (now, block) :: rest => do
    let chain ← accept E now chain block
    acceptAll E chain rest

/-- Accepted blocks are appended; of the other fields only the derived ones change. -/
theorem acceptAll_fields {arrivals : List (DateTime × Block)} :
    ∀ {chain}, acceptAll E chain arrivals = ok chain' →
      chain'.blocks = chain.blocks ++ arrivals.map Prod.snd ∧
        chain' = { chain with
          blocks := chain'.blocks
          state := chain'.state
          randomness := chain'.randomness
          currentDifficulty := chain'.currentDifficulty } := by
  induction arrivals with
  | nil =>
    intro chain h
    rw [acceptAll, ok.injEq] at h
    subst h
    exact ⟨(List.append_nil _).symm, rfl⟩
  | cons arrival rest ih =>
    intro chain h
    simp only [acceptAll, Outcome.bind_eq_ok] at h
    obtain ⟨mid, hmid, h⟩ := h
    obtain ⟨r, rfl⟩ := accept_extended hmid
    obtain ⟨hblocks, hfields⟩ := ih h
    refine ⟨?_, hfields⟩
    rw [hblocks, extended, List.append_assoc]
    rfl

end Blockchain
