/-
# Blocks that hold only their reward

A block whose only transaction is its reward executes on every state at which nothing is
due, and leaves such a state.  The toy node's sole validator grows a chain of such blocks,
through the first retarget.
-/
import Mathlib.Tactic
import Hikmalayer.Consensus.Replay
import Hikmalayer.Consensus.Equivocation

open Outcome Exec

/-! ## Executing the reward -/

namespace ChainState

variable {E : Node} {s : ChainState}

/-- Nothing is due at the next block boundary, and the base fee is at its floor. -/
structure Quiet (s : ChainState) : Prop where
  unbonding : s.unbonding = ∅
  vesting : s.vesting = ∅
  feePot : s.feePot = 0
  baseFee : s.baseFee = txFee

/-- The state after a reward, in clamping arithmetic. -/
def rewarded (s : ChainState) (validator : String) (amount : UInt64) : ChainState :=
  (s.setBalance validator (Word.saturatingAdd (s.balanceOf validator) amount)).setSupply
    (Word.saturatingAdd s.totalSupply amount) s.burned

theorem Quiet.rewarded (h : s.Quiet) (validator : String) (amount : UInt64) :
    (s.rewarded validator amount).Quiet :=
  ⟨h.unbonding, h.vesting, h.feePot, h.baseFee⟩

theorem applyVerified_reward {tx : Transaction} {height : UInt64} (hE : E.saturation = .clamp)
    (htype : tx.transactionType = .reward) :
    applyVerified E tx height s = ok ((), s.rewarded tx.recipient tx.amount) := by
  simp only [applyVerified, applyBranch, htype, Exec.bind_eq_ok, Exec.read_eq_ok, applyReward,
    credit, Exec.update_eq_ok, Outcome.bind_eq_ok, plain_eq_ok, pure_eq, ok.injEq]
  refine ⟨(), s, ⟨?_, rfl⟩, (), s, ⟨?_, rfl⟩, (), _, ⟨_, ?_, rfl⟩, _, ?_, rfl⟩
  · rw [verifyChainScope, htype, if_pos (Or.inl rfl)]
  · rw [verifySignaturePolicy, htype]
    split <;> rfl
  · rw [hE]
    rfl
  · rw [hE]
    rfl

/-- A block boundary at which nothing is due leaves the state alone. -/
theorem endBlock_quiet {height : UInt64} {validator : String} (hE : E.saturation = .clamp)
    (h : s.Quiet) : endBlock E height validator s = ok ((), s) := by
  have hunbonding : s.unbonding.keys = [] := by rw [h.unbonding]; rfl
  have hvesting : s.vesting.keys = [] := by rw [h.vesting]; rfl
  have hfee : nextBaseFee E s.baseFee 0 = ok s.baseFee := by
    rw [h.baseFee, nextBaseFee, hE]
    decide
  simp only [endBlock, settleFees, Exec.bind_eq_ok, Exec.read_eq_ok, ok.injEq]
  refine ⟨_, s, ⟨rfl, rfl⟩, (), s, by rw [hunbonding]; rfl, _, s, ⟨rfl, rfl⟩, (), s,
    by rw [hvesting]; rfl, (), s, ?_, _, s, ⟨rfl, rfl⟩, ?_⟩
  · rw [Exec.update_eq_ok, h.feePot]
    have hzero : (if 0 < s.baseFee then 0 / s.baseFee else 0) = 0 := by
      rw [h.baseFee]
      rfl
    rw [hzero, hfee]
    rfl
  · rw [h.feePot]
    rfl

/-- A block that holds only its reward executes. -/
theorem executeBlock_reward {block : Block} {validator text : String} {tx : Transaction}
    (hE : E.saturation = .clamp) (h : s.Quiet) (hblock : block.transactions = [text])
    (hparse : E.parseTx text = some tx) (htype : tx.transactionType = .reward)
    (hsender : tx.sender = none) (hrecipient : tx.recipient = validator)
    (hamount : tx.amount = blockReward block.index)
    (hroot : (s.rewarded validator tx.amount).stateRoot E = block.stateRoot) :
    executeBlock E validator block s = ok (s.rewarded validator tx.amount) := by
  have hverify : tx.verifyForBlock E validator = ok () := by
    simp only [Transaction.verifyForBlock, htype, Outcome.bind_eq_ok, ensure_eq_ok]
    exact ⟨(), hsender, hrecipient⟩
  have hfirst : executeTransaction E validator block.index s text =
      ok (s.rewarded validator tx.amount, tx) := by
    simp only [executeTransaction, Outcome.bind_eq_ok, okOr_eq_ok, mapErr_eq_ok, ensure_eq_ok,
      finalState_eq_ok, pure_eq, ok.injEq]
    refine ⟨tx, hparse, (), hverify, _, ?_, (), fun _ => hamount, rfl⟩
    rw [applyVerified_reward hE htype, hrecipient]
  simp only [executeBlock, hblock, executeTransactions, hfirst, ok_bind, htype, if_true,
    Outcome.bind_eq_ok, ensure_eq_ok, mapErr_eq_ok, finalState_eq_ok, pure_eq, ok.injEq]
  exact ⟨(), trivial, _, endBlock_quiet hE (h.rewarded validator tx.amount), (), hroot, rfl⟩

end ChainState

/-! ## The toy node's validator alone -/

namespace Sample

open Blockchain

/-- The genesis block of a supply. -/
def genesisBlock (pool : List Transaction) (supply : UInt64) : Block :=
  let timestamp := DateTime.ofTimestamp genesisTimestamp
  let merkleRoot := computeMerkleRoot (env pool) [genesisData]
  let stateRoot := (genesis supply).stateRoot (env pool)
  let payload := Block.hashPayload (env pool) 0 merkleRoot stateRoot timestamp none none "0"
  ⟨0, timestamp, [genesisData], merkleRoot, stateRoot, "0", 1, 0,
    sha256Hex (env pool) (payload ++ toString (0 : UInt64)), none, none, none, none, none, none⟩

/-- The chain of a genesis with holder 7 as treasury and validator. -/
def root (pool : List Transaction) (supply : UInt64) : Blockchain :=
  genesisChain 1 (address 7) (some (publicKey 7)) (some (publicKey 7)) supply [] defaultChainId false
    none (genesisBlock pool supply) (genesis supply)

variable {pool : List Transaction} {supply : UInt64} {chain : Blockchain}

theorem newWithGenesisOnChain_root :
    (newWithGenesisOnChain (env pool) defaultChainId 1 (address 7) (some (publicKey 7))
      (some (publicKey 7)) supply [] false none : Outcome String Blockchain) =
      ok (root pool supply) := by
  refine newWithGenesisOnChain_eq_ok.mpr ⟨genesisBlock pool supply, genesis supply, ?_, ?_, rfl⟩
  · have hclassical : Hybrid.isHybridAddress (address 7) = false := by decide +kernel
    rw [ChainState.seatGenesisValidatorPqKey, hclassical]
    rfl
  · exact Block.newAt_first (startsWithZeroes_digest (Or.inl rfl) _)

/-- The position after the tip. -/
def nextPlace (chain : Blockchain) (parentTimestamp : DateTime) : Position :=
  ⟨chain.baseHeight + UInt64.ofNat chain.blocks.length, chain.latestHash, chain.randomness,
    parentTimestamp, chain.currentDifficulty⟩

section Sealed

variable {n m : UInt8} {timestamp now : DateTime} {round : UInt64} {parent : Block}
  {transactions : List String} {stateRoot primary : String} {stake : UInt64} {post : ChainState}
  (hbase : chain.baseHeight = 0) (hlen : chain.blocks.length < 9)
  (hparent : chain.blocks.getLast? = some parent)
  (hdiff : chain.currentDifficulty = 1 ∨ chain.currentDifficulty = 2)
  (hskew : ¬ (now.addSeconds maxTimestampSkewSeconds).before timestamp)
  (htime : ¬ timestamp.before parent.timestamp)
  (hprimary : (Pos.selectStakerWithSeed (env pool)
    (Vrf.slotInput chain.randomness (UInt64.ofNat chain.blocks.length))
    chain.state.validatorSet : Outcome BlockError _) = ok (some primary))
  (hslot : (findSlot (env pool) chain.randomness (UInt64.ofNat chain.blocks.length)
    chain.state.validatorSet (address n)
    (roundList (openRounds parent.timestamp timestamp)) : Outcome BlockError _) = ok (some
      (Vrf.slotInputAtRound chain.randomness (UInt64.ofNat chain.blocks.length) round)))
  (hreg : chain.state.stakers[address n]? = some ⟨stake, publicKey n, publicKey m, ""⟩)
  (hexec : executeBlock (node pool) (address n) (sealWith pool n m timestamp round
    (nextPlace chain parent.timestamp) transactions stateRoot) chain.state = ok post)

include hbase hparent in
theorem nextPlace_eq : nextPlace chain parent.timestamp = ⟨UInt64.ofNat chain.blocks.length,
    parent.hash, chain.randomness, parent.timestamp, chain.currentDifficulty⟩ := by
  rw [nextPlace, hbase, UInt64.zero_add, latestHash, hparent]
  rfl

include hbase in
theorem checkedAdd_baseHeight : Word.checkedAdd chain.baseHeight
    (UInt64.ofNat chain.blocks.length) = some (UInt64.ofNat chain.blocks.length) := by
  rw [hbase, Word.checkedAdd_eq_some]
  exact (Nat.zero_add _).symm

include hbase hparent hdiff hskew htime hprimary hslot hreg hexec in
/-- A sealed block of a leader is a valid candidate when it executes. -/
theorem validateBlockCandidate_sealWith :
    validateBlockCandidate (node pool) chain now (sealWith pool n m timestamp round
      (nextPlace chain parent.timestamp) transactions stateRoot) = ok post := by
  rw [nextPlace_eq hbase hparent] at hexec ⊢
  exact validateBlockCandidate_eq_ok.mpr ⟨hskew, parent, _, hparent, checkedAdd_baseHeight hbase,
    validateBlockAt_sealWith hdiff htime hprimary hslot hreg hexec⟩

include hbase hlen hparent hdiff hskew htime hprimary hslot hreg hexec in
/-- Before the first retarget, a sealed block of a leader is accepted when it executes. -/
theorem accept_sealWith :
    accept (node pool) now chain (sealWith pool n m timestamp round
      (nextPlace chain parent.timestamp) transactions stateRoot) =
        ok (chain.extended (sealWith pool n m timestamp round (nextPlace chain parent.timestamp)
          transactions stateRoot) ⟨post, Vrf.nextRandomness (env pool) chain.randomness
            (hexEncode (vrfOutput m (Vrf.slotInputAtRound chain.randomness
              (UInt64.ofNat chain.blocks.length) round))), chain.currentDifficulty⟩) := by
  have hnext : Word.checkedAdd (UInt64.ofNat chain.blocks.length) 1 =
      some (UInt64.ofNat (chain.blocks.length + 1)) := by
    have hone : (1 : UInt64).toNat = 1 := rfl
    rw [Word.checkedAdd_eq_some, hone, Word.toNat_ofNat_of_lt (by omega),
      Word.toNat_ofNat_of_lt (by omega)]
  have hnotdue : UInt64.ofNat (chain.blocks.length + 1) % retargetInterval ≠ 0 := by
    have hpos : 0 < chain.blocks.length :=
      List.length_pos_iff.mpr (List.ne_nil_of_mem (List.mem_of_getLast? hparent))
    intro hmod
    have hval := congrArg UInt64.toNat hmod
    rw [UInt64.toNat_mod, Word.toNat_ofNat_of_lt (by omega)] at hval
    have hval : (chain.blocks.length + 1) % 10 = 0 := hval
    omega
  have hvalid := validateBlockCandidate_sealWith hbase hparent hdiff hskew htime hprimary hslot hreg
    hexec
  refine (Outcome.bind_eq_ok).mpr ⟨post, hvalid, (commitBlock_eq_ok (by omega)).mpr
    ⟨_, chain.currentDifficulty, checkedAdd_baseHeight hbase, ?_, ?_⟩⟩
  · rw [retarget, hnext, plain_some, ok_bind, if_pos hnotdue]
    rfl
  · rw [nextPlace_eq hbase hparent]
    rfl

include hbase hlen hparent hdiff hskew htime hreg in
/-- Before the first retarget, a sealed block of the sole validator is accepted when it executes. -/
theorem accept_sole (hstake : 0 < stake)
    (hset : chain.state.validatorSet = [⟨address n, stake, some (publicKey n)⟩])
    (hexec : executeBlock (node pool) (address n) (sealWith pool n m timestamp 0
      (nextPlace chain parent.timestamp) transactions stateRoot) chain.state = ok post) :
    accept (node pool) now chain (sealWith pool n m timestamp 0
      (nextPlace chain parent.timestamp) transactions stateRoot) =
        ok (chain.extended (sealWith pool n m timestamp 0 (nextPlace chain parent.timestamp)
          transactions stateRoot) ⟨post, Vrf.nextRandomness (env pool) chain.randomness
            (hexEncode (vrfOutput m (Vrf.slotInputAtRound chain.randomness
              (UInt64.ofNat chain.blocks.length) 0))), chain.currentDifficulty⟩) := by
  have hprimary : (Pos.selectStakerWithSeed (env pool)
      (Vrf.slotInput chain.randomness (UInt64.ofNat chain.blocks.length))
      chain.state.validatorSet : Outcome BlockError _) = ok (some (address n)) := by
    rw [hset]
    exact selectStakerWithSeed_single _ _ _ hstake
  have hplace := nextPlace_eq hbase hparent
  have hslot : (findSlot (env pool) chain.randomness (UInt64.ofNat chain.blocks.length)
      chain.state.validatorSet (address n)
      (roundList (openRounds parent.timestamp timestamp)) : Outcome BlockError _) = ok (some
        (Vrf.slotInputAtRound chain.randomness (UInt64.ofNat chain.blocks.length) 0)) :=
    @findSlot_single pool n ⟨UInt64.ofNat chain.blocks.length, parent.hash, chain.randomness,
      parent.timestamp, chain.currentDifficulty⟩ _ _ _ _ hstake hset
  exact accept_sealWith hbase hlen hparent hdiff hskew htime hprimary hslot hreg hexec

end Sealed

/-- The block that holder 7 seals on a chain, with the reward alone. -/
def nextBlock (pool : List Transaction) (chain : Blockchain) : Block :=
  sealBlock pool 7 ⟨chain.baseHeight + UInt64.ofNat chain.blocks.length, chain.latestHash,
    chain.randomness, morning, chain.currentDifficulty⟩ ["reward"]
    ((chain.state.rewarded (address 7) reward.amount).stateRoot (env pool))

/-- The chain with that block; the difficulty rises at the first retarget. -/
def grown (pool : List Transaction) (chain : Blockchain) : Blockchain :=
  chain.extended (nextBlock pool chain) ⟨chain.state.rewarded (address 7) reward.amount,
    Vrf.nextRandomness (env pool) chain.randomness ((nextBlock pool chain).vrfOutput.getD ""),
    if chain.blocks.length = 9 then 2 else chain.currentDifficulty⟩

/-- The chain after some of these blocks. -/
def chainOf (pool : List Transaction) (supply : UInt64) : ℕ → Blockchain
  | 0 => root pool supply
  | n + 1 => grown pool (chainOf pool supply n)

/-- A chain that holder 7 alone has grown. -/
structure Alone (chain : Blockchain) : Prop where
  base : chain.baseHeight = 0
  nonempty : chain.blocks ≠ []
  timely : ∀ b ∈ chain.blocks, ¬ morning.before b.timestamp
  stamped : ∀ b ∈ chain.blocks.tail, b.timestamp = morning
  difficulty : chain.currentDifficulty = if chain.blocks.length < 10 then 1 else 2
  quiet : chain.state.Quiet
  validators : chain.state.validatorSet =
    [⟨address 7, genesisValidatorStake, some (publicKey 7)⟩]
  registered : chain.state.stakers[address 7]? =
    some ⟨genesisValidatorStake, publicKey 7, publicKey 7, ""⟩

theorem Alone.root (h : genesisValidatorStake ≤ supply) : Alone (root pool supply) where
  base := rfl
  nonempty := List.cons_ne_nil _ _
  timely := by
    intro b hb
    rw [List.mem_singleton.mp hb]
    show ¬ morning.before (DateTime.ofTimestamp genesisTimestamp)
    decide
  stamped := by
    intro b hb
    cases hb
  difficulty := rfl
  quiet := ⟨rfl, rfl, rfl, rfl⟩
  validators := genesis_validatorSet h
  registered := by
    show (genesis supply).stakers[address 7]? = _
    rw [genesis_stakers h, OrderedMap.lookup_insert_self]

/-- The reward of the early heights is that of the first. -/
theorem blockReward_early {n : ℕ} (hpos : 0 < n) (hn : n < 19) :
    reward.amount = blockReward (UInt64.ofNat n) := by
  interval_cases n <;> decide

/-- When all blocks of a window carry one time, the difficulty rises. -/
theorem adjustedDifficulty_stamped {ε : Type} {window : List Block} (hlen : 2 ≤ window.length)
    (h : ∀ b ∈ window, b.timestamp = morning) :
    (adjustedDifficulty 1 window : Outcome ε UInt64) = ok 2 := by
  have hne : window ≠ [] := List.ne_nil_of_length_pos (by omega)
  have hfirst := List.head?_eq_some_head hne
  have hlast := List.getLast?_eq_some_getLast hne
  have hspan : morning.numSecondsSince morning = 0 := by decide
  rw [adjustedDifficulty, if_neg (by omega), hfirst, hlast, plain_some, ok_bind, plain_some,
    ok_bind, h _ (List.head_mem hne), h _ (List.getLast_mem hne), hspan]
  show (if (0 : ℤ).tdiv ((window.length : ℤ) - 1) < targetBlockSeconds / 2 then _ else _) = _
  rw [Int.zero_tdiv]
  rfl

theorem Alone.retarget_eq {ε : Type} (h : Alone chain) (hlen : chain.blocks.length < 19) :
    (retarget (chain.blocks ++ [nextBlock pool chain]) (UInt64.ofNat chain.blocks.length)
      chain.baseHeight chain.currentDifficulty : Outcome ε UInt64) =
      ok (if chain.blocks.length = 9 then 2 else chain.currentDifficulty) := by
  have hnat : (UInt64.ofNat chain.blocks.length).toNat = chain.blocks.length :=
    Word.toNat_ofNat_of_lt (by omega)
  have hone : (1 : UInt64).toNat = 1 := rfl
  have hnext : Word.checkedAdd (UInt64.ofNat chain.blocks.length) 1 =
      some (UInt64.ofNat (chain.blocks.length + 1)) := by
    rw [Word.checkedAdd_eq_some, hnat, hone, Word.toNat_ofNat_of_lt (by omega)]
  have hpos : 0 < chain.blocks.length := List.length_pos_iff.mpr h.nonempty
  rw [retarget, hnext, plain_some, ok_bind]
  by_cases hnine : chain.blocks.length = 9
  · have hdue : ¬ UInt64.ofNat (chain.blocks.length + 1) % retargetInterval ≠ 0 := by
      rw [hnine]
      decide
    have hdrop : (chain.blocks ++ [nextBlock pool chain]).drop 1 =
        chain.blocks.tail ++ [nextBlock pool chain] := by
      rw [List.drop_append_of_le_length (by omega), List.drop_one]
    have hstart : (if chain.baseHeight = 0 then
        max ((chain.blocks ++ [nextBlock pool chain]).length - retargetInterval.toNat) 1
        else (chain.blocks ++ [nextBlock pool chain]).length - retargetInterval.toNat) = 1 := by
      rw [if_pos h.base, List.length_append, hnine]
      rfl
    rw [if_neg hdue, if_pos hnine]
    show (sliceFrom (chain.blocks ++ [nextBlock pool chain]) (if chain.baseHeight = 0 then _ else _)
      >>= _) = _
    rw [hstart, sliceFrom, if_pos (by simp), ok_bind, hdrop, h.difficulty, if_pos (by omega)]
    refine adjustedDifficulty_stamped (by simp [hnine]) fun b hb => ?_
    rcases List.mem_append.mp hb with hb | hb
    · exact h.stamped b hb
    · rw [List.mem_singleton.mp hb]
      rfl
  · have hnotdue : UInt64.ofNat (chain.blocks.length + 1) % retargetInterval ≠ 0 := by
      intro hmod
      have hval := congrArg UInt64.toNat hmod
      rw [UInt64.toNat_mod, Word.toNat_ofNat_of_lt (by omega)] at hval
      have hval : (chain.blocks.length + 1) % 10 = 0 := hval
      omega
    rw [if_pos hnotdue, if_neg hnine]
    rfl

/-- Holder 7's next block is accepted. -/
theorem Alone.accept_grown (h : Alone chain) (hlen : chain.blocks.length < 19)
    (hparse : (env pool).parseTx "reward" = some reward) :
    accept (node pool) morning chain (nextBlock pool chain) = ok (grown pool chain) := by
  have hpos : 0 < chain.blocks.length := List.length_pos_iff.mpr h.nonempty
  obtain ⟨parent, hparent⟩ : ∃ parent, chain.blocks.getLast? = some parent :=
    ⟨_, List.getLast?_eq_some_getLast h.nonempty⟩
  have hindex : Word.checkedAdd chain.baseHeight (UInt64.ofNat chain.blocks.length) =
      some (UInt64.ofNat chain.blocks.length) := by
    rw [h.base, Word.checkedAdd_eq_some]
    exact (Nat.zero_add _).symm
  have hbase : chain.baseHeight + UInt64.ofNat chain.blocks.length =
      UInt64.ofNat chain.blocks.length := by
    rw [h.base, UInt64.zero_add]
  have hlatest : chain.latestHash = parent.hash := by
    rw [latestHash, hparent]
    rfl
  have hdifficulty : chain.currentDifficulty = 1 ∨ chain.currentDifficulty = 2 := by
    rw [h.difficulty]
    split
    · exact Or.inl rfl
    · exact Or.inr rfl
  refine (accept_eq_ok (by omega)).mpr ⟨?_, parent, _, hparent,
    advance_eq_ok.mpr ⟨_, hindex, ?_, rfl, h.retarget_eq hlen⟩, rfl⟩
  · show ¬ (morning.addSeconds maxTimestampSkewSeconds).before morning
    decide
  · have hnext : nextBlock pool chain = sealBlock pool 7 ⟨UInt64.ofNat chain.blocks.length,
        parent.hash, chain.randomness, parent.timestamp, chain.currentDifficulty⟩ ["reward"]
        ((chain.state.rewarded (address 7) reward.amount).stateRoot (env pool)) := by
      rw [nextBlock, hlatest, hbase]
      rfl
    rw [hnext]
    refine validateBlockAt_sealBlock hdifficulty
      (h.timely parent (List.mem_of_getLast? hparent)) (by decide) h.validators h.registered ?_
    exact ChainState.executeBlock_reward rfl h.quiet rfl hparse rfl rfl rfl
      (blockReward_early hpos hlen) rfl

theorem Alone.grown (h : Alone chain) (hlen : chain.blocks.length < 19) :
    Alone (grown pool chain) where
  base := h.base
  nonempty := by simp [Sample.grown, extended]
  timely := by
    intro b hb
    rcases List.mem_append.mp hb with hb | hb
    · exact h.timely b hb
    · rw [List.mem_singleton.mp hb]
      show ¬ morning.before morning
      decide
  stamped := by
    intro b hb
    have htail : (Sample.grown pool chain).blocks.tail =
        chain.blocks.tail ++ [nextBlock pool chain] :=
      List.tail_append_of_ne_nil h.nonempty
    rw [htail] at hb
    rcases List.mem_append.mp hb with hb | hb
    · exact h.stamped b hb
    · rw [List.mem_singleton.mp hb]
      rfl
  difficulty := by
    have hlength : (Sample.grown pool chain).blocks.length = chain.blocks.length + 1 := by
      simp [Sample.grown, extended]
    rw [hlength]
    show (if chain.blocks.length = 9 then 2 else chain.currentDifficulty) = _
    rw [h.difficulty]
    split_ifs <;> first | rfl | omega
  quiet := h.quiet.rewarded _ _
  validators := h.validators
  registered := h.registered

theorem chainOf_length (n : ℕ) : (chainOf pool supply n).blocks.length = n + 1 := by
  induction n with
  | zero => rfl
  | succ n ih =>
    show ((chainOf pool supply n).blocks ++ [_]).length = _
    rw [List.length_append, ih]
    rfl

theorem chainOf_alone (h : genesisValidatorStake ≤ supply) {n : ℕ} (hn : n < 19) :
    Alone (chainOf pool supply n) := by
  induction n with
  | zero => exact Alone.root h
  | succ n ih => exact (ih (by omega)).grown (by rw [chainOf_length]; omega)

/-- Each of the first blocks of holder 7 is accepted. -/
theorem accept_chainOf (h : genesisValidatorStake ≤ supply) {n : ℕ} (hn : n < 18)
    (hparse : (env pool).parseTx "reward" = some reward) :
    accept (node pool) morning (chainOf pool supply n) (nextBlock pool (chainOf pool supply n)) =
      ok (chainOf pool supply (n + 1)) :=
  (chainOf_alone h (by omega)).accept_grown (by rw [chainOf_length]; omega) hparse

end Sample
