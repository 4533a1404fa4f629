/-
# Extending an accepted tip

The primary leader of the next slot plans over an empty pool, builds and seals a block.  On
every chain grown from genesis the plan succeeds, and the sealed block is a valid candidate
exactly when the clock is not behind the tip's timestamp.
-/
import Mathlib.Tactic
import Hikmalayer.Model.Mining
import Hikmalayer.Consensus.Incremental
import Hikmalayer.Consensus.Rounds
import Hikmalayer.Consensus.Growth

open Outcome Exec

namespace Blockchain

variable {E : Node} {chain root : Blockchain} {now : DateTime.Reading} {r r' : Replay}

/-! ## What a replay keeps -/

/-- Retargeting stays within the bounds of the difficulty. -/
theorem adjustedDifficulty_inBounds {ε : Type} {current next : UInt64} {window : List Block}
    (hcurrent : Pow.isDifficultyInBounds current = true)
    (h : (adjustedDifficulty current window : Outcome ε UInt64) = ok next) :
    Pow.isDifficultyInBounds next = true := by
  have hone : (1 : UInt64).toNat = 1 := rfl
  have hfive : (5 : UInt64).toNat = 5 := rfl
  simp only [Pow.isDifficultyInBounds, Pow.minDifficulty, Pow.maxDifficulty, Bool.and_eq_true,
    decide_eq_true_eq, UInt64.le_iff_toNat_le, hone, hfive] at hcurrent ⊢
  unfold adjustedDifficulty at h
  by_cases hlen : window.length < 2
  · rw [if_pos hlen, pure_eq, ok.injEq] at h
    exact h ▸ hcurrent
  · rw [if_neg hlen] at h
    simp only [Outcome.bind_eq_ok, plain_eq_ok] at h
    obtain ⟨first, -, last, -, h⟩ := h
    split_ifs at h with hfast hslow
    · simp only [Outcome.bind_eq_ok, plain_eq_ok, Word.checkedAdd_eq_some, pure_eq, ok.injEq] at h
      obtain ⟨raised, hraised, rfl⟩ := h
      rw [Word.min_toNat, hraised, hone, Pow.maxDifficulty, hfive]
      omega
    · rw [pure_eq, ok.injEq] at h
      rw [← h, Word.max_toNat, Word.saturatingSub_toNat, Pow.minDifficulty, hone]
      omega
    · rw [pure_eq, ok.injEq] at h
      exact h ▸ hcurrent

theorem retarget_inBounds {ε : Type} {blocks : List Block}
    {index baseHeight current next : UInt64} (hcurrent : Pow.isDifficultyInBounds current = true)
    (h : (retarget blocks index baseHeight current : Outcome ε UInt64) = ok next) :
    Pow.isDifficultyInBounds next = true := by
  unfold retarget at h
  rw [Outcome.bind_eq_ok] at h
  obtain ⟨height, -, h⟩ := h
  by_cases hdue : height % retargetInterval ≠ 0
  · rw [if_pos hdue, pure_eq, ok.injEq] at h
    exact h ▸ hcurrent
  · rw [if_neg hdue] at h
    simp only [Outcome.bind_eq_ok] at h
    obtain ⟨window, -, h⟩ := h
    exact adjustedDifficulty_inBounds hcurrent h

/-- A difficulty within the bounds is not clamped. -/
theorem clampDifficulty_inBounds {difficulty : UInt64}
    (h : Pow.isDifficultyInBounds difficulty = true) : Pow.clampDifficulty difficulty = difficulty := by
  have hclamp := Pow.clampDifficulty_toNat difficulty
  have hone : (1 : UInt64).toNat = 1 := rfl
  have hfive : (5 : UInt64).toNat = 5 := rfl
  simp only [Pow.isDifficultyInBounds, Pow.minDifficulty, Pow.maxDifficulty, Bool.and_eq_true,
    decide_eq_true_eq, UInt64.le_iff_toNat_le, hone, hfive] at h
  refine Word.toNat_ext ?_
  omega

/-- A replayed position: its state is reachable and its difficulty within the bounds. -/
structure Sane (E : Node) (r : Replay) : Prop where
  reachable : ChainState.Reachable E r.state
  inBounds : Pow.isDifficultyInBounds r.difficulty = true

theorem Sane.advance (hE : E.saturation = .clamp) (hr : Sane E r) {baseHeight : UInt64}
    {seen : List Block} {previous current : Block}
    (h : advance E baseHeight seen previous r current = ok r') : Sane E r' := by
  obtain ⟨index, -, hvalid, -, hretarget⟩ := advance_eq_ok.mp h
  exact ⟨hr.reachable.validateBlockAt hE hvalid, retarget_inBounds hr.inBounds hretarget⟩

theorem Sane.replayFrom (hE : E.saturation = .clamp) {baseHeight : UInt64} {l : List Block} :
    ∀ {r : Replay} {seen : List Block} {previous : Block}, Sane E r →
      replayFrom E baseHeight seen previous r l = ok r' → Sane E r' := by
  induction l with
  | nil =>
    intro r seen previous hr h
    rw [Blockchain.replayFrom, ok.injEq] at h
    exact h ▸ hr
  | cons block rest ih =>
    intro r seen previous hr h
    obtain ⟨mid, hstep, hrest⟩ := (replayFrom_cons rest).mp h
    exact ih (hr.advance hE hstep) hrest

/-! ## Chains grown from genesis -/

section Genesis

variable {chainId treasury : String} {difficulty supply : UInt64}
  {publicKey vrfPublicKey pqPublicKey : Option String} {allowlist : List String} {hybrid : Bool}
  (hE : E.saturation = .clamp) (htreasury : isValidAddress treasury = true)
  (hroot : (newWithGenesisOnChain E chainId difficulty treasury publicKey vrfPublicKey supply
    allowlist hybrid pqPublicKey : Outcome String Blockchain) = ok root)
  (hbuilt : Built E root now chain)

include hroot hbuilt in
/-- A chain built from genesis sits at height 0 and has room for one more block. -/
theorem Built.genesis_base : chain.baseHeight = 0 ∧ chain.blocks.length < 2 ^ 64 := by
  have hg := hbuilt.grounded (derived_genesis hroot)
  obtain ⟨block, state, -, -, rfl⟩ := newWithGenesisOnChain_eq_ok.mp hroot
  have hbase : chain.baseHeight = 0 := by
    have hnetwork := congrArg Blockchain.baseHeight hg.network
    exact hnetwork
  refine ⟨hbase, ?_⟩
  have hroom := hg.derived.room (by rw [hbase]; rfl)
  omega

include hE htreasury hroot hbuilt in
/-- The derived fields of a chain built from genesis are sane. -/
theorem Built.genesis_sane :
    Sane E ⟨chain.state, chain.randomness, chain.currentDifficulty⟩ := by
  have hg := hbuilt.grounded (derived_genesis hroot)
  obtain ⟨block, state, hstate, -, rfl⟩ := newWithGenesisOnChain_eq_ok.mp hroot
  obtain ⟨anchor, rest, seed, -, -, -, hseed, hreplay⟩ := validateFull_eq_ok.mp hg.derived
  have hcp : chain.checkpoint = none := congrArg Blockchain.checkpoint hg.network
  have hdifficulty : chain.difficulty = Pow.clampDifficulty difficulty :=
    congrArg Blockchain.difficulty hg.network
  have hgenesis : chain.genesisState E = state := by
    have hsame := congrArg (fun c => genesisState E c) hg.network
    exact hsame.trans hstate
  have hfirst : ChainState.Reachable E state := by
    have hbuilt : ChainState.GenesisState E supply state := by
      rw [← hstate]
      exact .seated treasury pqPublicKey htreasury
        (.policy hybrid (.built chainId treasury publicKey vrfPublicKey allowlist htreasury))
    exact .genesis hbuilt
  rw [replaySeed, hcp] at hseed
  simp only [Outcome.bind_eq_ok, ensure_eq_ok, pure_eq, ok.injEq] at hseed
  obtain ⟨_, -, rfl⟩ := hseed
  refine Sane.replayFrom hE ⟨?_, ?_⟩ hreplay
  · rw [hgenesis]
    exact hfirst
  · rw [hdifficulty]
    exact Pow.isDifficultyInBounds_clamp difficulty

end Genesis

/-! ## The primary leader -/

theorem scanStakers_ok_iff {ε ε' : Type} {leader : Option String} {set : List Staker} :
    ∀ {point : UInt64}, (Pos.scanStakers point set : Outcome ε _) = ok leader ↔
      (Pos.scanStakers point set : Outcome ε' _) = ok leader := by
  induction set with
  | nil =>
    intro point
    simp only [Pos.scanStakers, pure_eq, ok.injEq]
  | cons staker rest ih =>
    intro point
    unfold Pos.scanStakers
    by_cases hinside : point < staker.stake
    · simp only [if_pos hinside, pure_eq, ok.injEq]
    · simp only [if_neg hinside, Outcome.bind_eq_ok, plain_eq_ok]
      exact exists_congr fun left => and_congr_right fun _ => ih

/-- The draw is the same wherever it is made. -/
theorem selectStakerWithSeed_ok_iff {ε ε' : Type} {E : Env} {seed : String}
    {leader : Option String} {set : List Staker} :
    (Pos.selectStakerWithSeed E seed set : Outcome ε _) = ok leader ↔
      (Pos.selectStakerWithSeed E seed set : Outcome ε' _) = ok leader := by
  unfold Pos.selectStakerWithSeed
  simp only [Outcome.bind_eq_ok, plain_eq_ok]
  refine exists_congr fun stake => and_congr_right fun _ => ?_
  by_cases hzero : stake = 0
  · simp only [if_pos hzero, pure_eq, ok.injEq]
  · simp only [if_neg hzero]
    exact scanStakers_ok_iff

/-- `leader` is drawn for the primary round of the slot after the tip. -/
def Leads (E : Env) (chain : Blockchain) (index : UInt64) (leader : String) : Prop :=
  (Pos.selectStakerWithSeed E (Vrf.slotInput chain.randomness index) chain.state.validatorSet :
    Outcome BlockError _) = ok (some leader)

/-- The primary leader finds its slot in the first round, whatever rounds are open. -/
theorem Leads.slot {ε : Type} {E : Env} {index : UInt64} {leader : String}
    (h : Leads E chain index leader) (rounds : ℕ) :
    (findSlot E chain.randomness index chain.state.validatorSet leader (roundList rounds) :
      Outcome ε _) = ok (some (Vrf.slotInput chain.randomness index)) := by
  have hdraw : (Pos.selectStakerWithSeed E (Vrf.slotInput chain.randomness index)
      chain.state.validatorSet : Outcome ε _) = ok (some leader) :=
    selectStakerWithSeed_ok_iff.mp h
  have hzero : Vrf.slotInputAtRound chain.randomness index 0 =
      Vrf.slotInput chain.randomness index := rfl
  rw [Sample.roundList_eq, findSlot, hzero, hdraw, ok_bind, if_pos rfl]
  rfl

/-- The producer's search finds that slot too. -/
theorem Leads.eligible {E : Env} {index : UInt64} {leader : String}
    (h : Leads E chain index leader) (rounds : ℕ) :
    eligibleRound E chain.randomness index chain.state.validatorSet leader (roundList rounds) =
      ok (some (0, Vrf.slotInput chain.randomness index)) := by
  have hdraw : (Pos.selectStakerWithSeed E (Vrf.slotInput chain.randomness index)
      chain.state.validatorSet : Outcome String _) = ok (some leader) :=
    selectStakerWithSeed_ok_iff.mp h
  have hzero : Vrf.slotInputAtRound chain.randomness index 0 =
      Vrf.slotInput chain.randomness index := rfl
  rw [Sample.roundList_eq, eligibleRound, hzero, hdraw, ok_bind, if_pos rfl]
  rfl

/-- It is eligible, whatever the time. -/
theorem Leads.eligibleSlotFor {E : Env} {index : UInt64} {leader : String} {tip : Block}
    {now : DateTime} (h : Leads E chain index leader) (htip : chain.blocks.getLast? = some tip)
    (hnext : chain.nextIndex = (ok index : Outcome String UInt64)) :
    eligibleSlotFor E chain now leader = ok (some (0, Vrf.slotInput chain.randomness index)) := by
  unfold Blockchain.eligibleSlotFor
  rw [htip]
  show (chain.nextIndex >>= _) = _
  rw [hnext, ok_bind]
  exact h.eligible _

end Blockchain

/-- A block that has been executed can be closed: the reward of its producer is paid and the
bookkeeping of the end of a block goes through. -/
theorem ChainState.Sound.rewarded_closes {E : Node} {s : ChainState} {v : String}
    (hs : s.Sound) (hE : E.saturation = .clamp) (hv : isValidAddress v = true) (index : UInt64) :
    ∃ post, ChainState.endBlock E index v (s.rewarded v (blockReward index)) = ok ((), post) := by
  set reward := Transaction.newReward "" (DateTime.ofTimestamp 0) v index
  have hverified : reward.verifyForBlock E v = ok () := by
    simp only [Transaction.verifyForBlock, reward, Transaction.newReward, Outcome.bind_eq_ok,
      ensure_eq_ok]
    exact ⟨(), trivial, trivial⟩
  have happlied : ChainState.applyVerified E reward index s =
      ok ((), s.rewarded v (blockReward index)) := ChainState.applyVerified_reward hE rfl
  obtain ⟨post, hclose, -⟩ := (hs.applyVerified hv hverified happlied).endBlock (Or.inl hE) hv index
  exact ⟨post, hclose.returns⟩

/-- The key is the registered one: what it signs and proves is accepted for the validator. -/
structure LocalValidatorKey.RegisteredAs (E : Env) (key : LocalValidatorKey) (info : StakeInfo) :
    Prop where
  publicKey : info.publicKey = key.publicKey
  signs : ∀ data, ∃ signature, key.signBlockHash (sha256Hex E data) = ok signature ∧
    Pos.verifyBlockSignature E (sha256Hex E data) info.publicKey signature = true
  vrfKey : info.vrfPublicKey ≠ ""
  proves : ∀ input, ∃ output proof, key.prove input = ok (output, proof) ∧
    Vrf.verify E input info.vrfPublicKey output proof = true
  pqSigns : info.pqPublicKey ≠ "" → ∀ data, ∃ signature,
    key.pqSignBlockHash (sha256Hex E data) = ok signature ∧
      Pq.verifyBlockSignature E (sha256Hex E data) info.pqPublicKey signature = true

namespace Blockchain

/-! ## Planning over an empty pool -/

section Leader

variable {E : Node} {chain : Blockchain} {now : DateTime} {key : LocalValidatorKey}
  {info : StakeInfo} {tip : Block} {index : UInt64} {rewardId : String} {rewardTime : DateTime}
  (hE : E.saturation = .clamp) (htip : chain.blocks.getLast? = some tip)
  (hindex : Word.checkedAdd chain.baseHeight (UInt64.ofNat chain.blocks.length) = some index)
  (hsound : ChainState.Sound chain.state) (hleads : Leads E chain index key.address)
  (hregistered : chain.state.stakers[key.address]? = some info) (hkey : key.RegisteredAs E info)

include hE hsound hregistered in
/-- The reward and the closing of the block run on the state of the tip. -/
theorem exists_closed : ∃ post,
    ChainState.endBlock E index key.address
      (chain.state.rewarded key.address (blockReward index)) = ok ((), post) :=
  hsound.rewarded_closes hE (hsound.addressed.staker key.address
    (Std.ExtTreeMap.mem_iff_isSome_getElem?.mpr (by rw [hregistered]; rfl))) index

/-- What the primary leader plans over an empty pool. -/
def rewardPlan (E : Node) (key : LocalValidatorKey) (chain : Blockchain) (index : UInt64)
    (rewardId : String) (rewardTime : DateTime) (post : ChainState) : MinePlan where
  plan :=
    { validator := key.address
      publicKey := key.publicKey
      slotInput := Vrf.slotInput chain.randomness index
      transactions := [E.txJson (Transaction.newReward rewardId rewardTime key.address index)]
      stateRoot := post.stateRoot E
      includedIds := [] }
  index := index
  previousHash := chain.latestHash
  difficulty := chain.currentDifficulty

include hE htip hindex hleads hregistered hkey in
/-- The primary leader's plan over an empty pool succeeds. -/
theorem planMine_eq {post : ChainState} (hclose : ChainState.endBlock E index key.address
      (chain.state.rewarded key.address (blockReward index)) = ok ((), post)) :
    planMine E key chain [] now rewardId rewardTime =
      ok (rewardPlan E key chain index rewardId rewardTime post) := by
  have hnext : ∀ {ε : Type}, (chain.nextIndex : Outcome ε UInt64) = ok index := by
    intro ε
    rw [nextIndex, hindex, plain_some]
  have hslot : eligibleSlotFor E chain now key.address =
      ok (some (0, Vrf.slotInput chain.randomness index)) := hleads.eligibleSlotFor htip hnext
  have happlied : ChainState.applyVerified E
      (Transaction.newReward rewardId rewardTime key.address index) index chain.state =
        ok ((), chain.state.rewarded key.address (blockReward index)) :=
    ChainState.applyVerified_reward hE rfl
  have hplan : planBlock E chain [] (some key.address) now rewardId rewardTime =
      ok (rewardPlan E key chain index rewardId rewardTime post).plan := by
    have hreward : Exec.finalState (ChainState.applyVerified E
        (Transaction.newReward rewardId rewardTime key.address index) index) chain.state =
          ok (chain.state.rewarded key.address (blockReward index)) :=
      finalState_eq_ok.mpr happlied
    have hend : Exec.finalState (ChainState.endBlock E index key.address)
        (chain.state.rewarded key.address (blockReward index)) = ok post :=
      finalState_eq_ok.mpr hclose
    simp only [planBlock, planLeader, hnext, ok_bind, hslot, pure_eq, hregistered, Option.map_some,
      okOr_some, collect, hreward, hend, mapErr, List.nil_append, List.map_cons, List.map_nil,
      hkey.publicKey]
    rfl
  have hsame : (rewardPlan E key chain index rewardId rewardTime post).plan.publicKey =
      key.publicKey := rfl
  simp only [planMine, hplan, mapErr, ok_bind, hnext]
  rw [ensure_pos hsame]
  rfl

/-! ## Building and sealing -/

/-- A block that is sealed for a slot of a registered validator. -/
structure SealedFor (E : Env) (info : StakeInfo) (slotInput : String) (built sealed : Block) :
    Prop where
  same : sealed = { built with
    vrfOutput := sealed.vrfOutput
    vrfProof := sealed.vrfProof
    validatorSignature := sealed.validatorSignature
    validatorPqSignature := sealed.validatorPqSignature }
  signature : ∃ signature, sealed.validatorSignature = some signature ∧
    Pos.verifyBlockSignature E sealed.hash info.publicKey signature = true
  pqSignature : checkPqSignature E sealed info.pqPublicKey = ok ()
  vrf : ∃ output proof, sealed.vrfOutput = some output ∧ sealed.vrfProof = some proof ∧
    Vrf.verify E slotInput info.vrfPublicKey output proof = true

include hregistered hkey in
/-- The registered key seals a built block. -/
theorem sealMined_ok {plan : BlockPlan} {built : Block} {data : String}
    (hvalidator : plan.validator = key.address) (hhash : built.hash = sha256Hex E data)
    (hpq : built.validatorPqSignature = none) :
    ∃ sealed, sealMined key chain plan built = ok sealed ∧
      SealedFor E info plan.slotInput built sealed := by
  obtain ⟨output, proof, hprove, hvrf⟩ := hkey.proves plan.slotInput
  obtain ⟨signature, hsign, hverify⟩ := hkey.signs data
  rw [← hhash] at hsign hverify
  simp only [sealMined, hprove, hsign, mapErr, ok_bind, hvalidator, hregistered, Option.map_some,
    Option.getD_some]
  by_cases hclassical : info.pqPublicKey = ""
  · rw [if_pos hclassical]
    refine ⟨_, rfl, ⟨rfl, ⟨signature, rfl, hverify⟩, ?_, ⟨output, proof, rfl, rfl, hvrf⟩⟩⟩
    rw [checkPqSignature, if_pos hclassical]
    exact ensure_pos hpq
  · rw [if_neg hclassical]
    obtain ⟨pqSignature, hpqSign, hpqVerify⟩ := hkey.pqSigns hclassical data
    rw [← hhash] at hpqSign hpqVerify
    rw [hpqSign]
    refine ⟨_, rfl, ⟨rfl, ⟨signature, rfl, hverify⟩, ?_, ⟨output, proof, rfl, rfl, hvrf⟩⟩⟩
    rw [checkPqSignature, if_neg hclassical]
    simp only [okOr_some, ok_bind]
    exact ensure_pos hpqVerify

/-- A built block carries what was planned, dated at the time of building. -/
structure BuiltFrom (m : MinePlan) (now : DateTime) (built : Block) : Prop where
  index : built.index = m.index
  timestamp : built.timestamp = now
  transactions : built.transactions = m.plan.transactions
  stateRoot : built.stateRoot = m.plan.stateRoot
  previousHash : built.previousHash = m.previousHash
  difficulty : built.difficulty = Pow.clampDifficulty m.difficulty
  validator : built.validator = some m.plan.validator
  publicKey : built.validatorPublicKey = some m.plan.publicKey
  pqSignature : built.validatorPqSignature = none

theorem MinePlan.build_ok {m : MinePlan} {built : Block} (h : m.build E now = ok built) :
    BuiltFrom m now built ∧ built.hash = built.calculateHash E ∧ built.hasValidPow E = true ∧
      built.hasValidMerkleRoot E = true := by
  refine ⟨?_, Block.newAt_valid h⟩
  simp only [MinePlan.build, Block.newAt, Outcome.bind_eq_ok, pure_eq, ok.injEq] at h
  obtain ⟨⟨nonce, hash⟩, -, rfl⟩ := h
  constructor <;> rfl

/-- A block that is sealed for a slot of its producer passes the checks on the producer. -/
theorem SealedFor.passes {E : Env} {s : ChainState} {place : Position} {built sealed : Block}
    {slot account primary : String} (hseal : SealedFor E info slot built sealed)
    (hregistered : s.stakers[account]? = some info)
    (hprimary : (Pos.selectStakerWithSeed E (Vrf.slotInput place.randomness built.index)
      s.validatorSet : Outcome BlockError _) = ok (some primary))
    (hslot : (findSlot E place.randomness built.index s.validatorSet account
      (roundList (openRounds place.parentTimestamp built.timestamp)) : Outcome BlockError _) =
        ok (some slot))
    (hvrfKey : info.vrfPublicKey ≠ "") (hvalidator : built.validator = some account)
    (hpublicKey : built.validatorPublicKey = some info.publicKey) :
    checkProducer E sealed place s = ok account := by
  obtain ⟨hsame, ⟨signature, hsignature, hverify⟩, hpq, output, proof, houtput, hproof, hvrf⟩ := hseal
  have hindex : sealed.index = built.index := by rw [hsame]
  have htime : sealed.timestamp = built.timestamp := by rw [hsame]
  have hvalidator' : sealed.validator = some account := by
    rw [hsame]
    exact hvalidator
  have hpublicKey' : sealed.validatorPublicKey = some info.publicKey := by
    rw [hsame]
    exact hpublicKey
  simp only [checkProducer, Outcome.bind_eq_ok, ensure_eq_ok, plain_eq_ok, okOr_eq_ok, pure_eq,
    ok.injEq, hindex, htime]
  refine ⟨_, hprimary, (), by simp, _, hvalidator', _, hslot, _, rfl, _, hpublicKey', (), ?_,
    _, hsignature, (), hverify, (), ?_, (), ?_, _, houtput, _, hproof, (), ?_, rfl⟩
  · rw [hregistered]
    rfl
  · rw [hregistered]
    exact hpq
  · rw [hregistered]
    exact hvrfKey
  · rw [hregistered]
    exact hvrf

/-- A valid candidate is not dated before the tip. -/
theorem ordered_of_candidate {chain : Blockchain} {tip sealed : Block} {now : DateTime}
    {post : ChainState} (htip : chain.blocks.getLast? = some tip)
    (h : validateBlockCandidate E chain now sealed = ok post) :
    ¬ sealed.timestamp.before tip.timestamp := by
  obtain ⟨-, parent, place, hparent, -, hvalid⟩ := validateBlockCandidate_eq_ok.mp h
  rw [htip, Option.some.injEq] at hparent
  subst hparent
  simp only [validateBlockAt, checkPosition, Outcome.bind_eq_ok, ensure_eq_ok] at hvalid
  obtain ⟨_, ⟨_, -, _, hordered, -⟩, -⟩ := hvalid
  exact hordered

/-- What is planned on the tip, built and sealed is a valid candidate, when it is not dated before
the tip, its producer is accepted and its transactions execute. -/
theorem MinePlan.validates {m : MinePlan} {slot : String} {post : ChainState}
    {built sealed : Block} {planned now : DateTime} (hmindex : m.index = index)
    (hprevious : m.previousHash = chain.latestHash)
    (hdifficulty : m.difficulty = chain.currentDifficulty)
    (hbounds : Pow.isDifficultyInBounds chain.currentDifficulty = true)
    (hskew : ¬ (now.addSeconds maxTimestampSkewSeconds).before planned)
    (hbuild : m.build E planned = ok built) (hseal : SealedFor E info slot built sealed)
    (hproducer : checkProducer E sealed ⟨index, chain.latestHash, chain.randomness, tip.timestamp,
      chain.currentDifficulty⟩ chain.state = ok m.plan.validator)
    (hexecute : executeBlock E m.plan.validator sealed chain.state = ok post)
    (htip : chain.blocks.getLast? = some tip)
    (hindex : Word.checkedAdd chain.baseHeight (UInt64.ofNat chain.blocks.length) = some index)
    (hordered : ¬ planned.before tip.timestamp) :
    validateBlockCandidate E chain now sealed = ok post := by
  obtain ⟨hb, hhash, hpow, hmerkle⟩ := MinePlan.build_ok hbuild
  have hlatest : chain.latestHash = tip.hash := by
    rw [latestHash, htip]
    rfl
  have hsame := hseal.same
  have htime : sealed.timestamp = planned := by
    rw [hsame]
    exact hb.timestamp
  have hplace : checkPosition sealed ⟨index, chain.latestHash, chain.randomness, tip.timestamp,
      chain.currentDifficulty⟩ = ok () := by
    have hclamp : built.difficulty = chain.currentDifficulty := by
      rw [hb.difficulty, hdifficulty]
      exact clampDifficulty_inBounds hbounds
    simp only [checkPosition, Outcome.bind_eq_ok, ensure_eq_ok]
    refine ⟨(), ?_, (), ?_, (), ?_, (), ?_, (), ?_, ?_⟩
    · rw [hsame]
      exact hb.index.trans hmindex
    · rw [htime]
      exact hordered
    · rw [hsame]
      exact hclamp
    · rw [hsame]
      exact hb.previousHash.trans hprevious
    · rw [hsame]
      show Pow.isDifficultyInBounds built.difficulty = true
      rw [hclamp]
      exact hbounds
    · obtain ⟨signature, hsignature, -⟩ := hseal.signature
      have hvalidator : sealed.validator = some m.plan.validator := by
        rw [hsame]
        exact hb.validator
      have hpublicKey : sealed.validatorPublicKey = some m.plan.publicKey := by
        rw [hsame]
        exact hb.publicKey
      rw [hvalidator, hpublicKey, hsignature]
      simp
  refine validateBlockCandidate_eq_ok.mpr ⟨htime ▸ hskew, tip, index, htip, hindex, ?_⟩
  rw [← hlatest]
  simp only [validateBlockAt, Outcome.bind_eq_ok, ensure_eq_ok]
  refine ⟨(), hplace, _, hproducer, (), ?_, (), ?_, hexecute⟩
  · rw [hsame]
    exact hmerkle
  · rw [hsame]
    exact hpow

include hleads hregistered in
/-- The sealed block of the primary leader passes the checks on its producer. -/
theorem checkProducer_sealed {built sealed : Block} (parentTimestamp : DateTime)
    (hseal : SealedFor E info (Vrf.slotInput chain.randomness index) built sealed)
    (hvrfKey : info.vrfPublicKey ≠ "") (hbuiltIndex : built.index = index)
    (hvalidator : built.validator = some key.address)
    (hpublicKey : built.validatorPublicKey = some info.publicKey) :
    checkProducer E sealed ⟨index, chain.latestHash, chain.randomness, parentTimestamp,
      chain.currentDifficulty⟩ chain.state = ok key.address := by
  subst hbuiltIndex
  exact hseal.passes hregistered hleads (hleads.slot _) hvrfKey hvalidator hpublicKey

include hE in
/-- The block with the reward alone executes to the state its root commits to. -/
theorem executeBlock_rewardPlan {post : ChainState} {block : Block}
    (hclose : ChainState.endBlock E index key.address
      (chain.state.rewarded key.address (blockReward index)) = ok ((), post))
    (hjson : E.parseTx (E.txJson (Transaction.newReward rewardId rewardTime key.address index)) =
      some (Transaction.newReward rewardId rewardTime key.address index))
    (hindex : block.index = index)
    (htransactions : block.transactions =
      [E.txJson (Transaction.newReward rewardId rewardTime key.address index)])
    (hroot : block.stateRoot = post.stateRoot E) :
    executeBlock E key.address block chain.state = ok post := by
  have hverified : (Transaction.newReward rewardId rewardTime key.address index).verifyForBlock E
      key.address = ok () := by
    simp only [Transaction.verifyForBlock, Transaction.newReward, Outcome.bind_eq_ok, ensure_eq_ok]
    exact ⟨(), trivial, trivial⟩
  have happlied : ChainState.applyVerified E
      (Transaction.newReward rewardId rewardTime key.address index) index chain.state =
        ok ((), chain.state.rewarded key.address (blockReward index)) :=
    ChainState.applyVerified_reward hE rfl
  refine ChainState.executeBlock_eq_ok.mpr
    ⟨chain.state.rewarded key.address (blockReward index), ?_, ?_, hroot.symm⟩
  · rw [htransactions, hindex]
    refine ChainState.executeTransactions_cons_eq_ok.mpr ⟨_, _,
      ChainState.executeTransaction_eq_ok.mpr ⟨hjson, hverified, happlied, fun _ => rfl⟩, ?_⟩
    rfl
  · rw [hindex]
    exact hclose

include hE htip hindex hleads hregistered hkey in
/-- The sealed block of the primary leader is a valid candidate exactly when it is not dated
before the tip. -/
theorem validateBlockCandidate_sealed {post : ChainState} {built sealed : Block}
    (now : DateTime.Reading) (hbounds : Pow.isDifficultyInBounds chain.currentDifficulty = true)
    (hclose : ChainState.endBlock E index key.address
      (chain.state.rewarded key.address (blockReward index)) = ok ((), post))
    (hjson : E.parseTx (E.txJson (Transaction.newReward rewardId rewardTime key.address index)) =
      some (Transaction.newReward rewardId rewardTime key.address index))
    (hbuild : (rewardPlan E key chain index rewardId rewardTime post).build E now.time = ok built)
    (hseal : SealedFor E info (Vrf.slotInput chain.randomness index) built sealed) :
    (∃ post', validateBlockCandidate E chain now.time sealed = ok post') ↔
      ¬ now.time.before tip.timestamp := by
  obtain ⟨hb, -⟩ := MinePlan.build_ok hbuild
  have hproducer := checkProducer_sealed hleads hregistered tip.timestamp hseal hkey.vrfKey hb.index
    hb.validator (hb.publicKey.trans (congrArg some hkey.publicKey.symm))
  have hsame := hseal.same
  constructor
  · rintro ⟨post', h⟩
    have htime : sealed.timestamp = now.time := by
      rw [hsame]
      exact hb.timestamp
    exact htime ▸ ordered_of_candidate htip h
  · intro hordered
    have hskew : ¬ (now.time.addSeconds maxTimestampSkewSeconds).before now.time := by
      rw [DateTime.before_iff, DateTime.key_addSeconds now.regular]
      omega
    have hexecute : executeBlock E key.address sealed chain.state = ok post := by
      refine executeBlock_rewardPlan hE hclose hjson ?_ ?_ ?_
      · rw [hsame]
        exact hb.index
      · rw [hsame]
        exact hb.transactions
      · rw [hsame]
        exact hb.stateRoot
    exact ⟨post, MinePlan.validates rfl rfl rfl hbounds hskew hbuild hseal hproducer hexecute htip
      hindex hordered⟩

end Leader

/-! ## Extending the tip -/

/-- The local key extends the chain at `now`: over an empty pool it plans, builds and seals a
block that is a valid candidate. -/
def Extends (E : Node) (key : LocalValidatorKey) (chain : Blockchain) (now : DateTime)
    (rewardId : String) (rewardTime : DateTime) : Prop :=
  ∃ m built sealed post, planMine E key chain [] now rewardId rewardTime = ok m ∧
    m.build E now = ok built ∧ sealMined key chain m.plan built = ok sealed ∧
    validateBlockCandidate E chain now sealed = ok post

/-- Sealing leaves the header alone. -/
theorem sealMined_timestamp {key : LocalValidatorKey} {chain : Blockchain} {plan : BlockPlan}
    {built sealed : Block} (h : sealMined key chain plan built = ok sealed) :
    sealed.timestamp = built.timestamp := by
  simp only [sealMined, Outcome.bind_eq_ok] at h
  obtain ⟨_, -, _, -, h⟩ := h
  split at h
  · rw [pure_eq, ok.injEq] at h
    rw [← h]
  · simp only [Outcome.bind_eq_ok, pure_eq, ok.injEq] at h
    obtain ⟨_, -, rfl⟩ := h
    rfl

/-- Whoever extends a chain has a clock that is not behind its tip. -/
theorem Extends.ordered {E : Node} {key : LocalValidatorKey} {chain : Blockchain}
    {now rewardTime : DateTime} {rewardId : String} {tip : Block}
    (htip : chain.blocks.getLast? = some tip) (h : Extends E key chain now rewardId rewardTime) :
    ¬ now.before tip.timestamp := by
  obtain ⟨m, built, sealed, post, -, hbuild, hseal, hvalid⟩ := h
  obtain ⟨-, parent, index, hparent, -, hvalid⟩ := validateBlockCandidate_eq_ok.mp hvalid
  rw [htip, Option.some.injEq] at hparent
  subst hparent
  simp only [validateBlockAt, checkPosition, Outcome.bind_eq_ok, ensure_eq_ok] at hvalid
  obtain ⟨_, ⟨_, -, _, hordered, -⟩, -⟩ := hvalid
  rw [sealMined_timestamp hseal, (MinePlan.build_ok hbuild).1.timestamp] at hordered
  exact hordered

/-- A plan whose difficulty can be mined is built. -/
theorem exists_build {E : Env} (m : MinePlan) (now : DateTime)
    (hbounds : Pow.isDifficultyInBounds m.difficulty = true)
    (hmines : ∀ data, ∃ mined, (Pow.mineBlock E data m.difficulty : Outcome MiningResponse _) =
      ok mined) : ∃ built, m.build E now = ok built := by
  obtain ⟨⟨nonce, hash⟩, hmined⟩ := hmines (Block.hashPayload E m.index
    (computeMerkleRoot E m.plan.transactions) m.plan.stateRoot now (some m.plan.validator)
    (some m.plan.publicKey) m.previousHash)
  refine ⟨_, Outcome.bind_eq_ok.mpr ⟨⟨nonce, hash⟩, ?_, rfl⟩⟩
  rw [clampDifficulty_inBounds hbounds]
  exact hmined

/-- On every chain built from genesis, the primary leader of the next slot, with its keys
registered, extends the tip exactly when its clock is not behind the tip's timestamp. -/
theorem honest_leader_extends_iff {E : Node} {root chain : Blockchain} {now : DateTime.Reading}
    {chainId treasury rewardId : String} {difficulty supply : UInt64}
    {publicKey vrfPublicKey pqPublicKey : Option String} {allowlist : List String} {hybrid : Bool}
    {key : LocalValidatorKey} {info : StakeInfo} {tip : Block} {rewardTime : DateTime}
    (hE : E.saturation = .clamp) (htreasury : isValidAddress treasury = true)
    (hroot : (newWithGenesisOnChain E chainId difficulty treasury publicKey vrfPublicKey supply
      allowlist hybrid pqPublicKey : Outcome String Blockchain) = ok root)
    (hbuilt : Built E root now chain) (htip : chain.blocks.getLast? = some tip)
    (hleads : Leads E chain (UInt64.ofNat chain.blocks.length) key.address)
    (hregistered : chain.state.stakers[key.address]? = some info) (hkey : key.RegisteredAs E info)
    (hjson : E.parseTx (E.txJson (Transaction.newReward rewardId rewardTime key.address
        (UInt64.ofNat chain.blocks.length))) = some (Transaction.newReward rewardId rewardTime
          key.address (UInt64.ofNat chain.blocks.length)))
    (hmines : ∀ data, ∃ mined, (Pow.mineBlock E data chain.currentDifficulty :
      Outcome MiningResponse _) = ok mined) :
    Extends E key chain now.time rewardId rewardTime ↔ ¬ now.time.before tip.timestamp := by
  refine ⟨Extends.ordered htip, fun hordered => ?_⟩
  obtain ⟨hbase, hlen⟩ := hbuilt.genesis_base hroot
  have hsane := hbuilt.genesis_sane hE htreasury hroot
  have hindex : Word.checkedAdd chain.baseHeight (UInt64.ofNat chain.blocks.length) =
      some (UInt64.ofNat chain.blocks.length) := by
    rw [hbase, Word.checkedAdd_eq_some]
    exact (Nat.zero_add _).symm
  have hsound := hsane.reachable.sound hE
  obtain ⟨post, hclose⟩ := exists_closed hE hsound hregistered
  have hplan : planMine E key chain [] now.time rewardId rewardTime = ok (rewardPlan E key chain
      (UInt64.ofNat chain.blocks.length) rewardId rewardTime post) :=
    planMine_eq hE htip hindex hleads hregistered hkey hclose
  obtain ⟨built, hbuild⟩ := exists_build (rewardPlan E key chain (UInt64.ofNat chain.blocks.length)
    rewardId rewardTime post) now.time hsane.inBounds hmines
  obtain ⟨hb, hhash, -⟩ := MinePlan.build_ok hbuild
  have hvalidator : (rewardPlan E key chain (UInt64.ofNat chain.blocks.length) rewardId rewardTime
      post).plan.validator = key.address := rfl
  obtain ⟨sealed, hsealed, hseal⟩ := sealMined_ok hregistered hkey hvalidator hhash hb.pqSignature
  obtain ⟨post', hvalid⟩ := (validateBlockCandidate_sealed hE htip hindex hleads hregistered hkey
    now hsane.inBounds hclose hjson hbuild hseal).mpr hordered
  exact ⟨_, built, sealed, post', hplan, hbuild, hsealed, hvalid⟩

end Blockchain

/-! ## A tip dated ahead of the clock -/

namespace Sample

open Blockchain

/-- The local key of holder `n`. -/
def localKey (n : UInt8) : LocalValidatorKey where
  address := address n
  publicKey := publicKey n
  vrfPublicKey := publicKey n
  prove input := ok (hexEncode (vrfOutput n input),
    hexEncode (vrfOutput n input ++ vrfOutput n input))
  signBlockHash hash := match hexDecode hash with
    | some bytes => ok (signDigest n bytes)
    | none => err "invalid hex"
  pqSignBlockHash _ := err "no post-quantum key"

/-- The toy key is the one that the genesis registers. -/
theorem localKey_registered (pool : List Transaction) (n : UInt8) (stake : UInt64) :
    (localKey n).RegisteredAs (env pool) ⟨stake, publicKey n, publicKey n, ""⟩ where
  publicKey := rfl
  signs := by
    intro data
    refine ⟨signDigest n (digest (utf8 data)).bytes, ?_, ?_⟩
    · show (match hexDecode (hexEncode (digest (utf8 data)).bytes) with
        | some bytes => ok (signDigest n bytes)
        | none => err "invalid hex" : Outcome String String) = _
      rw [hexDecode_hexEncode]
    · unfold Pos.verifyBlockSignature
      show (match hexDecode (hexEncode (digest (utf8 data)).bytes) with
        | some hashBytes => Pos.verifyDigest (env pool) hashBytes (publicKey n)
            (signDigest n (digest (utf8 data)).bytes)
        | none => false) = true
      rw [hexDecode_hexEncode]
      exact verifyDigest_signDigest pool n (digest _).length_bytes
  vrfKey := publicKey_ne_empty n
  proves := fun input => ⟨_, _, rfl, verify_vrfOutput pool n input⟩
  pqSigns := fun h => absurd rfl h

/-- The first block of holder 7, dated two minutes ahead. -/
def aheadBlock : Block :=
  sealWith [reward] 7 7 (morning.addSeconds 120) 0
    (nextPlace (root [reward] 1000000000000000000) (DateTime.ofTimestamp genesisTimestamp))
    ["reward"] (((genesis 1000000000000000000).rewarded (address 7) reward.amount).stateRoot
      (env [reward]))

/-- The chain with that block. -/
def aheadChain : Blockchain :=
  (root [reward] 1000000000000000000).extended aheadBlock
    ⟨(genesis 1000000000000000000).rewarded (address 7) reward.amount,
      Vrf.nextRandomness (env [reward]) (root [reward] 1000000000000000000).randomness
        (hexEncode (vrfOutput 7 (Vrf.slotInputAtRound
          (root [reward] 1000000000000000000).randomness 1 0))), 1⟩

/-- The block dated ahead is accepted. -/
theorem accept_aheadBlock :
    accept (node [reward]) morning (root [reward] 1000000000000000000) aheadBlock =
      ok aheadChain := by
  have halone : Alone (root [reward] 1000000000000000000) := Alone.root (by decide)
  have hexec : executeBlock (node [reward]) (address 7) aheadBlock (genesis 1000000000000000000) =
      ok ((genesis 1000000000000000000).rewarded (address 7) reward.amount) := by
    have hindex : aheadBlock.index = 1 := by decide
    refine ChainState.executeBlock_reward rfl halone.quiet rfl rfl rfl rfl rfl ?_ ?_
    · rw [hindex]
      rfl
    · unfold aheadBlock
      exact sealWith_stateRoot.symm
  unfold aheadBlock at hexec ⊢
  exact @accept_sole [reward] (root [reward] 1000000000000000000) 7 7 (morning.addSeconds 120)
    morning (genesisBlock [reward] 1000000000000000000) _ _ _ _ rfl (by decide) rfl (Or.inl rfl)
    (by decide) (by decide) halone.registered (by decide) halone.validators hexec

/-- A sole validator leads the next slot. -/
theorem leads_sole {E : Env} {chain : Blockchain} {index stake : UInt64} {n : UInt8}
    (hstake : 0 < stake)
    (hset : chain.state.validatorSet = [⟨address n, stake, some (publicKey n)⟩]) :
    Leads E chain index (address n) := by
  unfold Leads
  rw [hset]
  exact selectStakerWithSeed_single _ _ _ hstake

/-- The toy node mines difficulty 1 at the first nonce. -/
theorem mineBlock_one (pool : List Transaction) (data : String) :
    ∃ mined, (Pow.mineBlock (env pool) data 1 : Outcome MiningResponse _) = ok mined := by
  have hfuel : (2 : ℕ) ^ 64 ≠ 0 := by norm_num
  obtain ⟨fuel, hfuel⟩ := Nat.exists_eq_succ_of_ne_zero hfuel
  have hzeroes : Pow.startsWithZeroes (Pow.clampDifficulty 1)
      (sha256Hex (env pool) (data ++ toString (0 : UInt64))) = true :=
    startsWithZeroes_digest (Or.inl rfl) _
  refine ⟨(0, sha256Hex (env pool) (data ++ toString (0 : UInt64))), ?_⟩
  rw [Pow.mineBlock, hfuel, Pow.search, if_pos hzeroes]
  rfl

/-- The reward of an early height is that of the first. -/
theorem newReward_two : Transaction.newReward "reward" morning (address 7) 2 = reward := by
  show Transaction.newReward "reward" morning (address 7) 2 =
    Transaction.newReward "reward" morning (address 7) 1
  have hamount : blockReward 2 = blockReward 1 := by decide
  unfold Transaction.newReward
  rw [hamount]

end Sample

namespace Blockchain

/-- The primary leader extends the toy genesis. -/
theorem honest_leader_extends_sample :
    Extends (Sample.node [Sample.reward]) (Sample.localKey 7)
      (Sample.root [Sample.reward] 1000000000000000000) Sample.morningReading.time "reward"
      Sample.morning ↔ ¬ Sample.morningReading.time.before
        (Sample.genesisBlock [Sample.reward] 1000000000000000000).timestamp :=
  honest_leader_extends_iff rfl Sample.address_valid Sample.newWithGenesisOnChain_root (.start _) rfl
    (Sample.leads_sole (by decide) (Sample.genesis_validatorSet (by decide)))
    (Sample.Alone.root (by decide)).registered (Sample.localKey_registered _ 7 _) rfl
    (Sample.mineBlock_one [Sample.reward])

/-- A block dated ahead of the clock is accepted, and the primary leader of the next slot cannot
extend it at that time. -/
theorem tip_ahead_of_leader : ∃ (chain : Blockchain) (tip : Block),
    (newWithGenesisOnChain (Sample.node [Sample.reward]) defaultChainId 1 (Sample.address 7)
      (some (Sample.publicKey 7)) (some (Sample.publicKey 7)) 1000000000000000000 [] false none :
        Outcome String Blockchain) = ok (Sample.root [Sample.reward] 1000000000000000000) ∧
    accept (Sample.node [Sample.reward]) Sample.morning
      (Sample.root [Sample.reward] 1000000000000000000) Sample.aheadBlock = ok chain ∧
    Built (Sample.node [Sample.reward]) (Sample.root [Sample.reward] 1000000000000000000)
      Sample.morningReading chain ∧
    chain.blocks.getLast? = some tip ∧ Leads (Sample.node [Sample.reward]) chain 2 (Sample.address 7) ∧
    chain.state.stakers[Sample.address 7]? =
      some ⟨genesisValidatorStake, Sample.publicKey 7, Sample.publicKey 7, ""⟩ ∧
    (Sample.localKey 7).RegisteredAs (Sample.node [Sample.reward])
      ⟨genesisValidatorStake, Sample.publicKey 7, Sample.publicKey 7, ""⟩ ∧
    (Sample.node [Sample.reward]).parseTx ((Sample.node [Sample.reward]).txJson
      (Transaction.newReward "reward" Sample.morning (Sample.address 7) 2)) =
        some (Transaction.newReward "reward" Sample.morning (Sample.address 7) 2) ∧
    ¬ Extends (Sample.node [Sample.reward]) (Sample.localKey 7) chain Sample.morning "reward"
      Sample.morning := by
  have halone : Sample.Alone (Sample.root [Sample.reward] 1000000000000000000) :=
    Sample.Alone.root (by decide)
  refine ⟨Sample.aheadChain, Sample.aheadBlock, Sample.newWithGenesisOnChain_root,
    Sample.accept_aheadBlock, ?_, rfl, Sample.leads_sole (by decide) halone.validators,
    halone.registered, Sample.localKey_registered _ 7 _, ?_, fun h => ?_⟩
  · exact .commit (.start _) Sample.accept_aheadBlock (by decide)
  · rw [Sample.newReward_two]
    rfl
  · have htip : Sample.aheadChain.blocks.getLast? = some Sample.aheadBlock := rfl
    refine Extends.ordered htip h ?_
    show Sample.morning.before (Sample.morning.addSeconds 120)
    decide

end Blockchain
