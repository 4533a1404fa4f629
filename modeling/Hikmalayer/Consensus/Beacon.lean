/-
# The randomness beacon

A block folds the VRF output of its producer into the beacon.  The output is fixed by the
slot input and by the VRF key that is registered for the producer at the parent state.  That
key is part of the state, so the transactions of one block decide under which key the next
one is proved.
-/
import Mathlib.Tactic
import Hikmalayer.Consensus.Bundle
import Hikmalayer.Ledger.SampleRun

open Outcome

/-! ## What is assumed of the VRF -/

/-- The VRF has one output for a key and an input. -/
def Env.UniqueVrf (E : Env) : Prop :=
  ∀ input key out₁ proof₁ out₂ proof₂, E.verifyVrf input key out₁ proof₁ = true →
    E.verifyVrf input key out₂ proof₂ = true → out₁ = out₂

/-- Two different keys do not have a common output on an input. -/
def Env.VrfApart (E : Env) (input key₁ key₂ : List UInt8) : Prop :=
  ∀ out proof₁ proof₂, E.verifyVrf input key₁ out proof₁ = true →
    E.verifyVrf input key₂ out proof₂ = true → key₁ = key₂

namespace Vrf

variable {E : Env} {input key output proof key' output' proof' : String}

/-- What a verified output says of the bytes. -/
theorem verify_eq_true (h : verify E input key output proof = true) :
    ∃ keyBytes outputBytes proofBytes, hexDecode key = some keyBytes ∧
      hexDecode output = some outputBytes ∧
      E.verifyVrf (utf8 input) keyBytes outputBytes proofBytes = true := by
  unfold verify at h
  split at h
  · rename_i keyBytes outputBytes proofBytes hkey houtput _
    exact ⟨keyBytes, outputBytes, proofBytes, hkey, houtput, h⟩
  · cases h

/-- Under one key, one input has one output, whatever its spelling. -/
theorem output_unique (hE : E.UniqueVrf) (h : verify E input key output proof = true)
    (h' : verify E input key' output' proof' = true) (hkey : hexDecode key = hexDecode key') :
    hexDecode output = hexDecode output' := by
  obtain ⟨k, o, p, hk, ho, hv⟩ := verify_eq_true h
  obtain ⟨k', o', p', hk', ho', hv'⟩ := verify_eq_true h'
  rw [hk, hk', Option.some.injEq] at hkey
  subst hkey
  rw [ho, ho', hE _ _ _ _ _ _ hv hv']

end Vrf

namespace Blockchain

variable {E : Node} {chain mid mid₁ mid₂ last₁ last₂ chain' : Blockchain}
  {block a₁ a₂ b₁ b₂ : Block} {round round' : UInt64}

/-! ## The slot of a block -/

/-- The slot input that the producer of a block has to prove. -/
def slotOf (E : Env) (chain : Blockchain) (block : Block) : Outcome BlockError (Option String) :=
  match chain.blocks.getLast?, block.validator with
  | some parent, some validator =>
    findSlot E chain.randomness block.index chain.state.validatorSet validator
      (roundList (openRounds parent.timestamp block.timestamp))
  | _, _ => ok none

/-- The producer of the block is the leader of a round, and of no earlier one. -/
def ProducedIn (E : Env) (chain : Blockchain) (block : Block) (round : UInt64) : Prop :=
  slotOf E chain block =
    ok (some (Vrf.slotInputAtRound chain.randomness block.index round))

/-- The VRF key that a state registers for the producer of a block. -/
def registeredVrfKey (chain : Blockchain) (block : Block) : String :=
  ((block.validator.bind fun validator => chain.state.stakers[validator]?).map
    StakeInfo.vrfPublicKey).getD ""

/-- The registered keys are the same key. -/
def SameVrfKey (mid₁ : Blockchain) (b₁ : Block) (mid₂ : Blockchain) (b₂ : Block) : Prop :=
  hexDecode (mid₁.registeredVrfKey b₁) = hexDecode (mid₂.registeredVrfKey b₂)

/-- The checks on the producer, as far as they are about its VRF output. -/
theorem checkProducer_vrf {place : Position} {state : ChainState} {validator : String}
    (h : checkProducer E block place state = ok validator) :
    ∃ slot output proof, block.validator = some validator ∧
      findSlot E place.randomness block.index state.validatorSet validator
        (roundList (openRounds place.parentTimestamp block.timestamp)) =
        (ok (some slot) : Outcome BlockError _) ∧
      block.vrfOutput = some output ∧ block.vrfProof = some proof ∧
      Vrf.verify E slot (((state.stakers[validator]?).map StakeInfo.vrfPublicKey).getD "") output
        proof = true := by
  simp only [checkProducer, Outcome.bind_eq_ok, ensure_eq_ok, plain_eq_ok, okOr_eq_ok, pure_eq,
    ok.injEq] at h
  obtain ⟨_, -, _, -, claimed, hclaimed, _, hfound, slot, rfl, _, -, _, -, _, -, _, -, _, -, _, -,
    output, houtput, proof, hproof, _, hverify, rfl⟩ := h
  exact ⟨slot, output, proof, hclaimed, hfound, houtput, hproof, hverify⟩

/-- An accepted block has the next index, and folds a verified output for its slot. -/
theorem accept_vrf {now : DateTime} (h : accept E now chain block = ok chain') :
    ∃ slot output proof,
      Word.checkedAdd chain.baseHeight (UInt64.ofNat chain.blocks.length) = some block.index ∧
      slotOf E chain block = ok (some slot) ∧ block.vrfOutput = some output ∧
      Vrf.verify E slot (chain.registeredVrfKey block) output proof = true ∧
      chain'.randomness = Vrf.nextRandomness E chain.randomness output := by
  simp only [accept, commitBlock, Outcome.bind_eq_ok, pure_eq, ok.injEq] at h
  obtain ⟨post, hvalid, _, -, _, -, rfl⟩ := h
  obtain ⟨-, parent, index, hparent, hindex, hvalid⟩ := validateBlockCandidate_eq_ok.mp hvalid
  simp only [validateBlockAt, checkPosition, Outcome.bind_eq_ok, ensure_eq_ok] at hvalid
  obtain ⟨_, ⟨_, hi, -⟩, validator, hproducer, -⟩ := hvalid
  obtain ⟨slot, output, proof, hvalidator, hslot, houtput, -, hverify⟩ := checkProducer_vrf hproducer
  refine ⟨slot, output, proof, by rw [hindex, hi], ?_, houtput, ?_, ?_⟩
  · rw [slotOf, hparent, hvalidator]
    exact hslot
  · rw [registeredVrfKey, hvalidator]
    exact hverify
  · show Vrf.nextRandomness E chain.randomness (block.vrfOutput.getD "") = _
    rw [houtput]
    rfl

/-! ## Two blocks in a row -/

/-- The VRF output of a block is written in lower-case hexadecimal. -/
def Spelled (block : Block) : Prop := ∃ bytes, block.vrfOutput = some (hexEncode bytes)

/-- An extension of a chain by two accepted blocks, produced in given rounds. -/
structure TwoBlocks (E : Node) (chain mid last : Blockchain) (a b : Block)
    (round round' : UInt64) : Prop where
  first : ∃ now, accept E now chain a = ok mid
  second : ∃ now, accept E now mid b = ok last
  rounds : ProducedIn E chain a round ∧ ProducedIn E mid b round'
  spelled : Spelled a ∧ Spelled b

/-- Blocks for one slot under one key have one spelled output. -/
theorem vrfOutput_eq (hE : E.UniqueVrf) {slot output₁ output₂ proof₁ proof₂ : String}
    (h₁ : Vrf.verify E slot (mid₁.registeredVrfKey b₁) output₁ proof₁ = true)
    (h₂ : Vrf.verify E slot (mid₂.registeredVrfKey b₂) output₂ proof₂ = true)
    (ho₁ : b₁.vrfOutput = some output₁) (ho₂ : b₂.vrfOutput = some output₂)
    (hs₁ : Spelled b₁) (hs₂ : Spelled b₂) (hkey : SameVrfKey mid₁ b₁ mid₂ b₂) :
    output₁ = output₂ := by
  obtain ⟨bytes₁, hbytes₁⟩ := hs₁
  obtain ⟨bytes₂, hbytes₂⟩ := hs₂
  rw [ho₁, Option.some.injEq] at hbytes₁
  rw [ho₂, Option.some.injEq] at hbytes₂
  have hsame := Vrf.output_unique hE h₁ h₂ hkey
  rw [hbytes₁, hbytes₂, hexDecode_hexEncode, hexDecode_hexEncode, Option.some.injEq] at hsame
  rw [hbytes₁, hbytes₂, hsame]

/-- The same producer in the same round leaves the same beacon after a first block. -/
theorem first_randomness (hE : E.UniqueVrf) {now₁ now₂ : DateTime}
    (h₁ : accept E now₁ chain a₁ = ok mid₁) (h₂ : accept E now₂ chain a₂ = ok mid₂)
    (hr₁ : ProducedIn E chain a₁ round) (hr₂ : ProducedIn E chain a₂ round)
    (hs₁ : Spelled a₁) (hs₂ : Spelled a₂) (hvalidator : a₁.validator = a₂.validator) :
    mid₁.randomness = mid₂.randomness := by
  obtain ⟨slot₁, output₁, proof₁, hi₁, hslot₁, ho₁, hv₁, hr₁'⟩ := accept_vrf h₁
  obtain ⟨slot₂, output₂, proof₂, hi₂, hslot₂, ho₂, hv₂, hr₂'⟩ := accept_vrf h₂
  rw [hi₁, Option.some.injEq] at hi₂
  rw [hr₁, ok.injEq, Option.some.injEq] at hslot₁
  rw [hr₂, ok.injEq, Option.some.injEq, ← hi₂] at hslot₂
  rw [← hslot₁] at hv₁
  rw [← hslot₂] at hv₂
  have hkey : SameVrfKey chain a₁ chain a₂ := by
    rw [SameVrfKey, registeredVrfKey, registeredVrfKey, hvalidator]
  rw [hr₁', hr₂', vrfOutput_eq hE hv₁ hv₂ ho₁ ho₂ hs₁ hs₂ hkey]

theorem accept_length {now : DateTime} (h : accept E now chain block = ok chain') :
    chain'.blocks.length = chain.blocks.length + 1 ∧ chain'.baseHeight = chain.baseHeight := by
  obtain ⟨r, rfl⟩ := accept_extended h
  exact ⟨by simp [extended], rfl⟩

/-- What the beacon hashes when a block is committed. -/
def foldedText (chain : Blockchain) (block : Block) : List UInt8 :=
  utf8 chain.randomness ++ utf8 (block.vrfOutput.getD "")

/-- Under keys that are apart, a common output comes from one key. -/
theorem sameVrfKey_of_output {slot output proof₁ proof₂ : String}
    (h₁ : Vrf.verify E slot (mid₁.registeredVrfKey b₁) output proof₁ = true)
    (h₂ : Vrf.verify E slot (mid₂.registeredVrfKey b₂) output proof₂ = true)
    (hapart : ∀ k₁ k₂, hexDecode (mid₁.registeredVrfKey b₁) = some k₁ →
      hexDecode (mid₂.registeredVrfKey b₂) = some k₂ → E.VrfApart (utf8 slot) k₁ k₂) :
    SameVrfKey mid₁ b₁ mid₂ b₂ := by
  obtain ⟨k₁, o₁, p₁, hk₁, ho₁, hv₁⟩ := Vrf.verify_eq_true h₁
  obtain ⟨k₂, o₂, p₂, hk₂, ho₂, hv₂⟩ := Vrf.verify_eq_true h₂
  rw [ho₁, Option.some.injEq] at ho₂
  rw [← ho₂] at hv₂
  rw [SameVrfKey, hk₁, hk₂, hapart k₁ k₂ hk₁ hk₂ _ _ _ hv₁ hv₂]

/-- A sole validator is the leader of the first round. -/
theorem producedIn_sole {stake : UInt64} {validator : String} {key : Option String}
    (hne : chain.blocks ≠ []) (hset : chain.state.validatorSet = [⟨validator, stake, key⟩])
    (hstake : 0 < stake) (hblock : block.validator = some validator) :
    ProducedIn E chain block 0 := by
  obtain ⟨parent, hparent⟩ : ∃ parent, chain.blocks.getLast? = some parent :=
    ⟨_, List.getLast?_eq_some_getLast hne⟩
  have hround : Vrf.slotInputAtRound chain.randomness block.index 0 =
      Vrf.slotInput chain.randomness block.index := rfl
  rw [ProducedIn, slotOf, hparent, hblock]
  show findSlot _ _ _ _ _ (roundList _) = _
  rw [Sample.roundList_eq, findSlot, hround, hset, Sample.selectStakerWithSeed_single _ _ _ hstake,
    ok_bind, if_pos rfl]
  rfl

end Blockchain

/-! ## A validator that registers a new key -/

namespace Sample

open Blockchain

/-- Holder 7 adds one unit of stake, and registers the VRF key of holder 8. -/
def restake : Transaction :=
  { order 7 .stake stakingPoolAccount 1 1 none none
      (Transaction.stakeSigningMessage (address 7) 1 1 (publicKey 8)) with
    id := "stake"
    vrfPublicKey := some (publicKey 8) }

/-- The block that holder 7 seals on a chain, with the VRF key of holder `n`. -/
def provedBlock (pool : List Transaction) (n : UInt8) (chain : Blockchain)
    (transactions : List String) : Block :=
  let index := chain.baseHeight + UInt64.ofNat chain.blocks.length
  let output := vrfOutput n (Vrf.slotInput chain.randomness index)
  { sealBlock pool 7 ⟨index, chain.latestHash, chain.randomness, morning, chain.currentDifficulty⟩
      transactions (rootAfter pool 7 index chain.state transactions) with
    vrfOutput := some (hexEncode output)
    vrfProof := some (hexEncode (output ++ output)) }

/-- The block is sealed with the key of holder `n`. -/
theorem provedBlock_eq (pool : List Transaction) (n : UInt8) (chain : Blockchain)
    (transactions : List String) (parentTimestamp : DateTime) :
    provedBlock pool n chain transactions =
      sealWith pool 7 n morning 0 (nextPlace chain parentTimestamp) transactions
        (rootAfter pool 7 (chain.baseHeight + UInt64.ofNat chain.blocks.length) chain.state
          transactions) := rfl

/-- The toy VRF has one output. -/
theorem uniqueVrf (pool : List Transaction) : (env pool).UniqueVrf := by
  intro input key out₁ proof₁ out₂ proof₂ h₁ h₂
  simp only [env, Bool.and_eq_true, decide_eq_true_eq] at h₁ h₂
  rw [h₁.1, h₂.1]

/-- Two blocks of holder 7 alone. -/
theorem twoBlocks {pool : List Transaction} (hparse : (env pool).parseTx "reward" = some reward) :
    TwoBlocks (node pool) (root pool 1000000000000000) (chainOf pool 1000000000000000 1)
      (chainOf pool 1000000000000000 2) (nextBlock pool (root pool 1000000000000000))
      (nextBlock pool (chainOf pool 1000000000000000 1)) 0 0 := by
  have hroot : Alone (chainOf pool 1000000000000000 0) := chainOf_alone (by decide) (by decide)
  have hmid : Alone (chainOf pool 1000000000000000 1) := chainOf_alone (by decide) (by decide)
  exact ⟨⟨morning, accept_chainOf (by decide) (show 0 < 18 by decide) hparse⟩,
    ⟨morning, accept_chainOf (by decide) (show 1 < 18 by decide) hparse⟩,
    ⟨producedIn_sole hroot.nonempty hroot.validators (by decide) rfl,
      producedIn_sole hmid.nonempty hmid.validators (by decide) rfl⟩, ⟨_, rfl⟩, ⟨_, rfl⟩⟩

/-- The transactions of the two blocks verify. -/
theorem restake_admitted :
    ∀ tx ∈ [restake, reward], Admitted [restake, reward] (address 7) tx := by
  intro tx htx
  refine ⟨parseTx_of_mem (by decide) htx, ?_⟩
  simp only [List.mem_cons, List.not_mem_nil, or_false] at htx
  rcases htx with rfl | rfl
  · change restake.verifySenderSignature (env [restake, reward]) (address 7)
      (Transaction.stakeSigningMessage (address 7) 1 1 (publicKey 8)) = ok ()
    exact verifySenderSignature_signed schemeOf_seven rfl rfl ⟨rfl, rfl⟩
  · exact verifyForBlock_reward rfl rfl rfl

/-- The restake leaves one validator, with the VRF key of holder 8, and another beacon after the
next block. -/
theorem restaked_executes :
    ((executed [restake, reward] 7 1 (genesis 1000000000000000) [restake, reward]).any fun s =>
      decide (s.validatorSet = [⟨address 7, genesisValidatorStake + 1, some (publicKey 7)⟩]) &&
      decide (s.stakers[address 7]? =
        some ⟨genesisValidatorStake + 1, publicKey 7, publicKey 8, ""⟩) &&
      (executed [restake, reward] 7 2 s [reward]).isSome) = true := by
  decide +kernel

/-- The beacon after the first block. -/
def restakedRandomness : String :=
  Vrf.nextRandomness (env [restake, reward]) (root [restake, reward] 1000000000000000).randomness
    (hexEncode (vrfOutput 7
      (Vrf.slotInputAtRound (root [restake, reward] 1000000000000000).randomness 1 0)))

/-- The chain after the first block. -/
def restakedChain (s : ChainState) : Blockchain :=
  (root [restake, reward] 1000000000000000).extended
    (provedBlock [restake, reward] 7 (root [restake, reward] 1000000000000000) ["stake", "reward"])
    ⟨s, restakedRandomness, 1⟩

theorem restakedRandomness_next : Vrf.nextRandomness (env [restake, reward]) restakedRandomness
    (hexEncode (vrfOutput 8 (Vrf.slotInputAtRound restakedRandomness 2 0))) ≠
      (chainOf [restake, reward] 1000000000000000 2).randomness := by
  decide +kernel

/-- The first block with the new key and the second one proved under it are accepted. -/
theorem restaked_accepted : ∃ mid last,
    accept (node [restake, reward]) morning (root [restake, reward] 1000000000000000)
      (provedBlock [restake, reward] 7 (root [restake, reward] 1000000000000000)
        ["stake", "reward"]) = ok mid ∧
    mid.state.validatorSet = [⟨address 7, genesisValidatorStake + 1, some (publicKey 7)⟩] ∧
    accept (node [restake, reward]) morning mid
      (provedBlock [restake, reward] 8 mid ["reward"]) = ok last ∧
    last.randomness ≠ (chainOf [restake, reward] 1000000000000000 2).randomness := by
  obtain ⟨s, hs, hrest⟩ := (Option.any_eq_true _ _).mp restaked_executes
  simp only [Bool.and_eq_true, decide_eq_true_eq] at hrest
  obtain ⟨⟨hset, hreg⟩, hlast⟩ := hrest
  obtain ⟨post, hpost⟩ := Option.isSome_iff_exists.mp hlast
  have halone : Alone (root [restake, reward] 1000000000000000) := Alone.root (by decide)
  have hplace : (root [restake, reward] 1000000000000000).baseHeight +
      UInt64.ofNat (root [restake, reward] 1000000000000000).blocks.length = 1 := by decide
  have hfirst : executeBlock (node [restake, reward]) (address 7)
      (sealWith [restake, reward] 7 7 morning 0
        (nextPlace (root [restake, reward] 1000000000000000)
          (genesisBlock [restake, reward] 1000000000000000).timestamp)
        ["stake", "reward"] (rootAfter [restake, reward] 7 1 (genesis 1000000000000000)
          ["stake", "reward"])) (genesis 1000000000000000) = ok s :=
    @executeBlock_of_executed [restake, reward] 7 1 _ s _ _ restake_admitted hplace rfl
      sealWith_stateRoot hs
  have hmid := @accept_sole [restake, reward] (root [restake, reward] 1000000000000000) 7 7 morning
    morning (genesisBlock [restake, reward] 1000000000000000) _ _ _ s rfl (by decide) rfl (Or.inl rfl)
    (by decide) (halone.timely _ (List.mem_singleton_self _)) halone.registered (by decide)
    halone.validators hfirst
  have hblock : provedBlock [restake, reward] 7 (root [restake, reward] 1000000000000000)
      ["stake", "reward"] = sealWith [restake, reward] 7 7 morning 0
        (nextPlace (root [restake, reward] 1000000000000000)
          (genesisBlock [restake, reward] 1000000000000000).timestamp)
        ["stake", "reward"] (rootAfter [restake, reward] 7 1 (genesis 1000000000000000)
          ["stake", "reward"]) := by
    rw [provedBlock_eq _ _ _ _ (genesisBlock [restake, reward] 1000000000000000).timestamp, hplace]
    rfl
  rw [← hblock] at hmid
  have hplace' : (restakedChain s).baseHeight +
      UInt64.ofNat (restakedChain s).blocks.length = 2 := rfl
  have hsecond : executeBlock (node [restake, reward]) (address 7)
      (sealWith [restake, reward] 7 8 morning 0 (nextPlace (restakedChain s) morning) ["reward"]
        (rootAfter [restake, reward] 7 2 s ["reward"])) s = ok post :=
    @executeBlock_of_executed [restake, reward] 7 2 _ post [reward] _
      (fun tx htx => restake_admitted tx (List.mem_cons_of_mem _ htx)) hplace' rfl
      sealWith_stateRoot hpost
  have hlast := @accept_sole [restake, reward] (restakedChain s) 7 8 morning morning
    (provedBlock [restake, reward] 7 (root [restake, reward] 1000000000000000) ["stake", "reward"])
    _ _ _ post rfl (show 2 < 9 by decide) rfl (Or.inl rfl) (by decide)
    (show ¬ morning.before morning by decide) hreg (by decide) hset hsecond
  have hblock' : provedBlock [restake, reward] 8 (restakedChain s) ["reward"] =
      sealWith [restake, reward] 7 8 morning 0 (nextPlace (restakedChain s) morning) ["reward"]
        (rootAfter [restake, reward] 7 2 s ["reward"]) := by
    rw [provedBlock_eq _ _ _ _ morning, hplace']
    rfl
  exact ⟨restakedChain s, _, hmid, hset, hblock' ▸ hlast, restakedRandomness_next⟩

end Sample

namespace Blockchain

/-! ## What fixes the beacon -/

variable {E : Node} {chain mid₁ mid₂ last₁ last₂ : Blockchain} {a₁ a₂ b₁ b₂ : Block}
  {round round' : UInt64}

/-- Two pairs of blocks in the same rounds, the first ones by the same producer, leave the same
beacon exactly when the first blocks leave the same VRF key registered for the producers of the
second ones. -/
theorem beacon_fixed_iff (hE : E.UniqueVrf) (h₁ : TwoBlocks E chain mid₁ last₁ a₁ b₁ round round')
    (h₂ : TwoBlocks E chain mid₂ last₂ a₂ b₂ round round') (ha : a₁.validator = a₂.validator)
    (hfree : E.CollisionFree {foldedText mid₁ b₁, foldedText mid₂ b₂})
    (hapart : ∀ k₁ k₂, hexDecode (mid₁.registeredVrfKey b₁) = some k₁ →
      hexDecode (mid₂.registeredVrfKey b₂) = some k₂ →
      E.VrfApart (utf8 (Vrf.slotInputAtRound mid₁.randomness b₁.index round')) k₁ k₂) :
    last₁.randomness = last₂.randomness ↔ SameVrfKey mid₁ b₁ mid₂ b₂ := by
  obtain ⟨now₁, hfirst₁⟩ := h₁.first
  obtain ⟨now₂, hfirst₂⟩ := h₂.first
  obtain ⟨later₁, hsecond₁⟩ := h₁.second
  obtain ⟨later₂, hsecond₂⟩ := h₂.second
  have hmid : mid₁.randomness = mid₂.randomness := first_randomness hE hfirst₁ hfirst₂ h₁.rounds.1
    h₂.rounds.1 h₁.spelled.1 h₂.spelled.1 ha
  obtain ⟨slot₁, output₁, proof₁, hi₁, hslot₁, ho₁, hv₁, hr₁⟩ := accept_vrf hsecond₁
  obtain ⟨slot₂, output₂, proof₂, hi₂, hslot₂, ho₂, hv₂, hr₂⟩ := accept_vrf hsecond₂
  -- both second blocks have the index after the first, and so the same slot input
  have hindex : b₁.index = b₂.index := by
    rw [(accept_length hfirst₁).1, (accept_length hfirst₁).2] at hi₁
    rw [(accept_length hfirst₂).1, (accept_length hfirst₂).2, hi₁, Option.some.injEq] at hi₂
    exact hi₂
  rw [h₁.rounds.2, ok.injEq, Option.some.injEq] at hslot₁
  rw [h₂.rounds.2, ok.injEq, Option.some.injEq, ← hmid, ← hindex] at hslot₂
  subst hslot₁ hslot₂
  constructor
  · intro hsame
    rw [hr₁, hr₂, Vrf.nextRandomness, Vrf.nextRandomness] at hsame
    have htext : foldedText mid₁ b₁ = foldedText mid₂ b₂ := by
      refine hfree (by simp) (by simp) (Digest.ext ?_)
      rw [foldedText, foldedText, ho₁, ho₂]
      exact hexEncode_injective hsame
    rw [foldedText, foldedText, ho₁, ho₂, hmid, List.append_cancel_left_eq] at htext
    have houtput : output₁ = output₂ := utf8_injective htext
    subst houtput
    exact sameVrfKey_of_output hv₁ hv₂ hapart
  · intro hkey
    rw [hr₁, hr₂, hmid,
      vrfOutput_eq hE hv₁ hv₂ ho₁ ho₂ h₁.spelled.2 h₂.spelled.2 hkey]

/-- A toy extension, compared with itself. -/
theorem beacon_fixed_iff_sample :
    (Sample.chainOf [Sample.reward] 1000000000000000 2).randomness =
        (Sample.chainOf [Sample.reward] 1000000000000000 2).randomness ↔
      SameVrfKey (Sample.chainOf [Sample.reward] 1000000000000000 1)
        (Sample.nextBlock [Sample.reward] (Sample.chainOf [Sample.reward] 1000000000000000 1))
        (Sample.chainOf [Sample.reward] 1000000000000000 1)
        (Sample.nextBlock [Sample.reward] (Sample.chainOf [Sample.reward] 1000000000000000 1)) := by
  have hrun := Sample.twoBlocks (show (Sample.env [Sample.reward]).parseTx "reward" = _ from rfl)
  refine beacon_fixed_iff (Sample.uniqueVrf [Sample.reward]) hrun hrun rfl ?_ ?_
  · rw [Set.pair_eq_singleton]
    exact Set.injOn_singleton _ _
  · intro k₁ k₂ hk₁ hk₂ _ _ _ _ _
    rw [hk₁, Option.some.injEq] at hk₂
    exact hk₂

/-- The validator that registers another VRF key in the first block gets another beacon after
the second, in the same rounds. -/
theorem beacon_steered :
    ∃ mid last a b, (Sample.env [Sample.restake, Sample.reward]).UniqueVrf ∧
      TwoBlocks (Sample.node [Sample.restake, Sample.reward])
        (Sample.root [Sample.restake, Sample.reward] 1000000000000000)
        (Sample.chainOf [Sample.restake, Sample.reward] 1000000000000000 1)
        (Sample.chainOf [Sample.restake, Sample.reward] 1000000000000000 2)
        (Sample.nextBlock [Sample.restake, Sample.reward]
          (Sample.root [Sample.restake, Sample.reward] 1000000000000000))
        (Sample.nextBlock [Sample.restake, Sample.reward]
          (Sample.chainOf [Sample.restake, Sample.reward] 1000000000000000 1)) 0 0 ∧
      TwoBlocks (Sample.node [Sample.restake, Sample.reward])
        (Sample.root [Sample.restake, Sample.reward] 1000000000000000) mid last a b 0 0 ∧
      a.validator = some (Sample.address 7) ∧ b.validator = some (Sample.address 7) ∧
      last.randomness ≠
        (Sample.chainOf [Sample.restake, Sample.reward] 1000000000000000 2).randomness := by
  obtain ⟨mid, last, hmid, hset, hlast, hne⟩ := Sample.restaked_accepted
  have hroot : Sample.Alone
      (Sample.chainOf [Sample.restake, Sample.reward] 1000000000000000 0) :=
    Sample.chainOf_alone (by decide) (by decide)
  have hblocks : mid.blocks ≠ [] := by
    have hlength := (accept_length hmid).1
    exact List.ne_nil_of_length_pos (by omega)
  refine ⟨mid, last, _, _, Sample.uniqueVrf _, Sample.twoBlocks (by decide),
    ⟨⟨_, hmid⟩, ⟨_, hlast⟩, ⟨?_, ?_⟩, ⟨_, rfl⟩, ⟨_, rfl⟩⟩, rfl, rfl, hne⟩
  · exact producedIn_sole hroot.nonempty hroot.validators (by decide) rfl
  · exact producedIn_sole hblocks hset (by decide) rfl

end Blockchain
