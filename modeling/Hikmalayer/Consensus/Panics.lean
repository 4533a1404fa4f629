/-
# What can abort the validation of a block

On a reachable state the checks of a block's header, the draw of its leader and the retargeting
return or fail.  Validating a block, and replaying a chain of blocks, aborts exactly where the
execution comes to a transaction that aborts.
-/
import Mathlib.Tactic
import Hikmalayer.Consensus.Stall
import Hikmalayer.Consensus.Extension
import Hikmalayer.Ledger.Panics

open Outcome Exec OrderedMap ChainState

theorem Outcome.bind_assoc {ε α β γ : Type} (x : Outcome ε α) (f : α → Outcome ε β)
    (g : β → Outcome ε γ) : (x >>= f) >>= g = x >>= fun a => f a >>= g := by
  cases x <;> rfl

/-! ## Verifying a transaction -/

theorem Pos.canonicalPublicKey_ne_panicked {E : Env} {key : String} :
    Pos.canonicalPublicKey E key ≠ panicked := by
  simp only [Pos.canonicalPublicKey, ne_eq, Outcome.bind_eq_panicked, okOr_ne_panicked,
    ensure_ne_panicked, pure_eq, reduceCtorEq, and_false, exists_false, or_self, not_false_eq_true]

theorem Pq.canonicalPqPublicKey_ne_panicked {key : String} :
    Pq.canonicalPqPublicKey key ≠ panicked := by
  simp only [Pq.canonicalPqPublicKey, Pq.decodeHex, ne_eq, Outcome.bind_eq_panicked,
    okOr_ne_panicked, ensure_ne_panicked, pure_eq, reduceCtorEq, and_false, exists_false, or_self,
    not_false_eq_true]

theorem Hybrid.verifyHybrid_ne_panicked {E : Env} {address message key pqKey signature pqSignature :
    String} : Hybrid.verifyHybrid E address message key pqKey signature pqSignature ≠ panicked := by
  simp only [Hybrid.verifyHybrid, Hybrid.deriveHybridAddress, ne_eq, Outcome.bind_eq_panicked,
    mapErr_eq_panicked, Pos.canonicalPublicKey_ne_panicked, Pq.canonicalPqPublicKey_ne_panicked,
    ensure_ne_panicked, pure_eq, reduceCtorEq, and_false, exists_false, or_self, not_false_eq_true]

theorem SlashProof.verify_ne_panicked {E : Env} {proof : SlashProof} :
    proof.verify E ≠ panicked := by
  simp only [SlashProof.verify, SlashProof.checkSignature, ne_eq, Outcome.bind_eq_panicked,
    okOr_ne_panicked, ensure_ne_panicked, pure_eq, reduceCtorEq, and_false, exists_false, or_self,
    not_false_eq_true]

namespace Transaction

variable {E : Env} {tx : Transaction} {sender message validator : String}

theorem verifySenderSignature_ne_panicked :
    tx.verifySenderSignature E sender message ≠ panicked := by
  unfold verifySenderSignature
  simp only [ne_eq, Outcome.bind_eq_panicked, okOr_ne_panicked, false_or, not_exists, not_and]
  intro _ _ _ _
  split
  · simp only [Outcome.bind_eq_panicked, okOr_ne_panicked, Hybrid.verifyHybrid_ne_panicked,
      and_false, exists_false, or_self, not_false_eq_true]
  · simp only [Outcome.bind_eq_panicked, ensure_ne_panicked, Pos.deriveAddress,
      Pos.canonicalPublicKey_ne_panicked, pure_eq, reduceCtorEq, and_false, exists_false, or_self,
      not_false_eq_true]
  · simp only [reduceCtorEq, not_false_eq_true]

/-- Verifying looks at texts, keys and signatures only. -/
theorem verifyForBlock_ne_panicked : tx.verifyForBlock E validator ≠ panicked := by
  unfold verifyForBlock
  split
  case h_5 =>
    simp only [ne_eq, Outcome.bind_eq_panicked, ensure_ne_panicked, false_or, not_exists, not_and]
    intro _ _
    split
    · simp only [Outcome.bind_eq_panicked, okOr_ne_panicked, ensure_ne_panicked,
        verifySenderSignature_ne_panicked, and_false, exists_false, or_self, not_false_eq_true]
    · simp only [pure_eq, reduceCtorEq, not_false_eq_true]
  all_goals
    simp only [ne_eq, Outcome.bind_eq_panicked, okOr_ne_panicked, ensure_ne_panicked,
      verifySenderSignature_ne_panicked, SlashProof.verify_ne_panicked, and_false, exists_false,
      or_self, not_false_eq_true]

end Transaction

namespace Blockchain

variable {E : Node} {s s' : ChainState} {validator : String} {index : UInt64} {block : Block}
  {place : Position}

/-! ## The transactions of a block -/

/-- A transaction of a block, as its text, is verified and then aborts. -/
def AbortsAt (E : Node) (validator : String) (s : ChainState) (text : String) : Prop :=
  ∃ tx, E.parseTx text = some tx ∧ tx.verifyForBlock E validator = ok () ∧
    s.verifyChainScope tx = ok () ∧ s.verifySignaturePolicy tx = ok () ∧ s.Aborts E tx

/-- The execution of these transactions comes to one that aborts. -/
def ReachesAbort (E : Node) (validator : String) (index : UInt64) : ChainState → List String → Prop
  | _, [] => False
  | s, text :: rest => AbortsAt E validator s text ∨
      ∃ s' tx, executeTransaction E validator index s text = ok (s', tx) ∧
        ReachesAbort E validator index s' rest

theorem executeTransaction_eq_panicked (hE : E.saturation = .clamp) (hr : Reachable E s)
    (hindex : index.toNat < 2 ^ 63) (text : String) :
    executeTransaction E validator index s text = panicked ↔ AbortsAt E validator s text := by
  simp only [executeTransaction, Outcome.bind_eq_panicked, okOr_ne_panicked, okOr_eq_ok,
    mapErr_eq_panicked, mapErr_eq_ok, finalState_eq_panicked, ensure_ne_panicked, pure_eq,
    reduceCtorEq, and_false, exists_false, or_false, false_or,
    Transaction.verifyForBlock_ne_panicked]
  refine exists_congr fun tx => and_congr_right fun _ => ?_
  constructor
  · rintro ⟨_, hver, h⟩
    exact ⟨hver, (applyVerified_eq_panicked hE hr hver hindex).mp h⟩
  · rintro ⟨hver, h⟩
    exact ⟨(), hver, (applyVerified_eq_panicked hE hr hver hindex).mpr h⟩

theorem executeTransactions_eq_panicked (hE : E.saturation = .clamp)
    (hv : isValidAddress validator = true) (hindex : index.toNat < 2 ^ 63) {txs : List String} :
    ∀ {s : ChainState} {n : ℕ}, Reachable E s →
      (executeTransactions E validator index s n txs = panicked ↔
        ReachesAbort E validator index s txs) := by
  induction txs with
  | nil =>
    intro s n _
    simp only [executeTransactions, ReachesAbort, reduceCtorEq]
  | cons text rest ih =>
    intro s n hr
    rw [executeTransactions, Outcome.bind_eq_panicked, ReachesAbort,
      executeTransaction_eq_panicked hE hr hindex]
    refine or_congr Iff.rfl ?_
    rw [Prod.exists]
    refine exists_congr fun s' => exists_congr fun tx => and_congr_right fun hstep => ?_
    obtain ⟨-, hver, happly, -⟩ := executeTransaction_eq_ok.mp hstep
    exact ih (hr.step (.apply hv hver happly))

/-- Executing a block aborts at one of its transactions only: it can be closed. -/
theorem executeBlock_eq_panicked (hE : E.saturation = .clamp) (hr : Reachable E s)
    (hv : isValidAddress validator = true) (hindex : block.index.toNat < 2 ^ 63) :
    executeBlock E validator block s = panicked ↔
      ReachesAbort E validator block.index s block.transactions := by
  rw [executeBlock, Outcome.bind_eq_panicked, executeTransactions_eq_panicked hE hv hindex hr]
  refine or_iff_left ?_
  rintro ⟨⟨s', n⟩, htxs, h⟩
  have hs' := (hr.executeTransactions hv htxs).sound hE
  obtain ⟨closed, hclosed⟩ := hs'.endBlock_returns hE validator block.index
  simp only [Outcome.bind_eq_panicked, ensure_ne_panicked, mapErr_eq_panicked,
    finalState_eq_panicked, hclosed, pure_eq, reduceCtorEq, and_false, exists_false, or_self] at h

/-! ## The header of a block -/

theorem stakeOf_le_bondedTotal (s : ChainState) : stakeOf s.validatorSet ≤ bondedTotal s.stakers := by
  have hstakes : stakeOf s.validatorSet =
      ((s.stakers.toList.filter fun e => 0 < e.2.stake).map fun e => e.2.stake.toNat).sum := by
    rw [stakeOf, Rotation.weightOf, candidates, validatorSet, List.map_map, List.map_map]
    rfl
  rw [hstakes, bondedTotal, total]
  exact (List.filter_sublist.map _).sum_le_sum fun _ _ => Nat.zero_le _

/-- On a sound ledger the stakes of the validators add up. -/
theorem stakeOf_fits (hs : Sound s) : stakeOf s.validatorSet < 2 ^ 64 := by
  have hstaking := hs.staking
  have hle := stakeOf_le_bondedTotal s
  have hlt := Word.toNat_lt (valueAt s.balances stakingPoolAccount)
  unfold StakingBacked at hstaking
  omega

theorem exists_leader {ε : Type} {E : Env} {set : List Staker} (hfits : stakeOf set < 2 ^ 64)
    (seed : String) : ∃ leader, (Pos.selectStakerWithSeed E seed set : Outcome ε _) = ok leader := by
  rcases Nat.eq_zero_or_pos (stakeOf set) with hzero | hpos
  · refine ⟨none, ?_⟩
    unfold Pos.selectStakerWithSeed
    rw [checkedSum_of_fits hfits, hzero, plain_some, ok_bind]
    exact if_pos rfl
  · obtain ⟨point, -, hdraw⟩ := selectStakerWithSeed_eq hfits hpos seed
    exact ⟨_, hdraw.trans (scanStakers_eq set point)⟩

theorem findSlot_ne_panicked {ε : Type} {E : Env} {set : List Staker} {randomness : String}
    (hfits : stakeOf set < 2 ^ 64) {rounds : List UInt64} :
    (findSlot E randomness index set validator rounds : Outcome ε _) ≠ panicked := by
  induction rounds with
  | nil => simp only [findSlot, ne_eq, reduceCtorEq, not_false_eq_true]
  | cons round rest ih =>
    obtain ⟨leader, hleader⟩ := @exists_leader ε E set hfits
      (Vrf.slotInputAtRound randomness index round)
    simp only [findSlot, hleader, ok_bind]
    by_cases hmine : leader = some validator
    · simp only [if_pos hmine, pure_eq, ne_eq, reduceCtorEq, not_false_eq_true]
    · rw [if_neg hmine]
      exact ih

theorem checkPosition_ne_panicked : checkPosition block place ≠ panicked := by
  simp only [checkPosition, ne_eq, Outcome.bind_eq_panicked, ensure_ne_panicked, and_false,
    exists_false, or_self, not_false_eq_true]

/-- A block that passed the checks on its place names the height of the place, a validator, its key
and its signature. -/
theorem checkPosition_fields (h : checkPosition block place = ok ()) : block.index = place.index ∧
    block.validator ≠ none ∧ block.validatorPublicKey ≠ none ∧ block.validatorSignature ≠ none := by
  simp only [checkPosition, Outcome.bind_eq_ok, ensure_eq_ok, not_or] at h
  obtain ⟨_, hindex, _, -, _, -, _, -, _, -, hfields⟩ := h
  exact ⟨hindex, hfields⟩

theorem checkPqSignature_ne_panicked {E : Env} {registered : String} :
    checkPqSignature E block registered ≠ panicked := by
  unfold checkPqSignature
  split
  · exact ensure_ne_panicked
  · simp only [ne_eq, Outcome.bind_eq_panicked, okOr_ne_panicked, ensure_ne_panicked, and_false,
      exists_false, or_self, not_false_eq_true]

theorem checkProducer_ne_panicked (hs : Sound s) (hplace : checkPosition block place = ok ()) :
    checkProducer E block place s ≠ panicked := by
  obtain ⟨-, hvalidator, hkey, hsignature⟩ := checkPosition_fields hplace
  obtain ⟨leader, hleader⟩ := @exists_leader BlockError E _ (stakeOf_fits hs)
    (Vrf.slotInput place.randomness block.index)
  simp only [checkProducer, ne_eq, Outcome.bind_eq_panicked, hleader, reduceCtorEq,
    ensure_ne_panicked, plain_eq_panicked, hvalidator, findSlot_ne_panicked (stakeOf_fits hs),
    okOr_ne_panicked, hkey, hsignature, checkPqSignature_ne_panicked, pure_eq, and_false,
    exists_false, or_self, not_false_eq_true]

/-! ## Validating a block -/

/-- The block is in place, of an elected producer and well hashed, and its execution comes to a
transaction that aborts. -/
def BlockAborts (E : Node) (block : Block) (place : Position) (s : ChainState) : Prop :=
  checkPosition block place = ok () ∧
    ∃ validator, checkProducer E block place s = ok validator ∧
      block.hasValidMerkleRoot E = true ∧ block.hasValidPow E = true ∧
        ReachesAbort E validator block.index s block.transactions

theorem validateBlockAt_eq_panicked (hE : E.saturation = .clamp) (hr : Reachable E s)
    (hindex : place.index.toNat < 2 ^ 63) :
    validateBlockAt E block place s = panicked ↔ BlockAborts E block place s := by
  have hs := hr.sound hE
  simp only [validateBlockAt, Outcome.bind_eq_panicked, checkPosition_ne_panicked, false_or,
    ensure_ne_panicked, ensure_eq_ok, exists_const]
  constructor
  · rintro ⟨_, hplace, h | ⟨validator, hproducer, hmerkle, hpow, h⟩⟩
    · exact absurd h (checkProducer_ne_panicked hs hplace)
    · have hv := hs.addressed.staker validator (checkProducer_staker hproducer).2
      have hheight : block.index.toNat < 2 ^ 63 := (checkPosition_fields hplace).1 ▸ hindex
      exact ⟨hplace, validator, hproducer, hmerkle, hpow,
        (executeBlock_eq_panicked hE hr hv hheight).mp h⟩
  · rintro ⟨hplace, validator, hproducer, hmerkle, hpow, h⟩
    have hv := hs.addressed.staker validator (checkProducer_staker hproducer).2
    have hheight : block.index.toNat < 2 ^ 63 := (checkPosition_fields hplace).1 ▸ hindex
    exact ⟨(), hplace, .inr ⟨validator, hproducer, hmerkle, hpow,
      (executeBlock_eq_panicked hE hr hv hheight).mpr h⟩⟩

/-! ## Replaying blocks -/

theorem adjustedDifficulty_ne_panicked {ε : Type} {current : UInt64} {window : List Block}
    (h : Pow.isDifficultyInBounds current = true) :
    (adjustedDifficulty current window : Outcome ε UInt64) ≠ panicked := by
  have hfive : (5 : UInt64).toNat = 5 := rfl
  have hone : (1 : UInt64).toNat = 1 := rfl
  simp only [Pow.isDifficultyInBounds, Pow.minDifficulty, Pow.maxDifficulty, Bool.and_eq_true,
    decide_eq_true_eq, UInt64.le_iff_toNat_le, hfive] at h
  intro hpanic
  unfold adjustedDifficulty at hpanic
  split at hpanic
  · cases hpanic
  · rename_i hlen
    have hne : window ≠ [] := List.ne_nil_of_length_pos (by omega)
    rw [List.head?_eq_some_head hne, List.getLast?_eq_some_getLast hne, plain_some, ok_bind,
      plain_some, ok_bind] at hpanic
    dsimp only at hpanic
    split_ifs at hpanic
    simp only [Outcome.bind_eq_panicked, plain_eq_panicked, Word.checkedAdd_eq_none, pure_eq,
      reduceCtorEq, and_false, exists_false, or_false] at hpanic
    omega

theorem sliceFrom_eq_panicked {ε : Type} {blocks : List Block} {start : ℕ} :
    (sliceFrom blocks start : Outcome ε (List Block)) = panicked ↔ blocks.length < start := by
  unfold sliceFrom
  split_ifs with h
  · simp only [false_iff, not_lt]
    exact h
  · exact iff_of_true rfl (by omega)

/-- The window of a retarget lies within the blocks. -/
theorem retarget_ne_panicked {ε : Type} {blocks : List Block} {baseHeight current : UInt64}
    (hne : blocks ≠ []) (hroom : index.toNat + 1 < 2 ^ 64)
    (h : Pow.isDifficultyInBounds current = true) :
    (retarget blocks index baseHeight current : Outcome ε UInt64) ≠ panicked := by
  have hone : (1 : UInt64).toNat = 1 := rfl
  have hpos : 0 < blocks.length := List.length_pos_iff.mpr hne
  intro hpanic
  unfold retarget at hpanic
  simp only [Outcome.bind_eq_panicked, plain_eq_panicked, Word.checkedAdd_eq_none] at hpanic
  rcases hpanic with hfull | ⟨next, -, hpanic⟩
  · omega
  · split_ifs at hpanic
    all_goals
      simp only [Outcome.bind_eq_panicked, adjustedDifficulty_ne_panicked h, and_false, exists_false,
        or_false, sliceFrom_eq_panicked] at hpanic
      omega

/-- A replay of these blocks comes to one that aborts. -/
def ReplayAborts (E : Node) (baseHeight : UInt64) (seen : List Block) (previous : Block)
    (r : Replay) : List Block → Prop
  | [] => False
  | current :: rest =>
    (∃ index, Word.checkedAdd baseHeight (UInt64.ofNat seen.length) = some index ∧
      BlockAborts E current ⟨index, previous.hash, r.randomness, previous.timestamp, r.difficulty⟩
        r.state) ∨
    ∃ r', advance E baseHeight seen previous r current = ok r' ∧
      ReplayAborts E baseHeight (seen ++ [current]) current r' rest

theorem replayFrom_eq_advance {baseHeight : UInt64} {seen : List Block} {previous current : Block}
    {r : Replay} (rest : List Block) :
    replayFrom E baseHeight seen previous r (current :: rest) =
      advance E baseHeight seen previous r current >>= fun r' =>
        replayFrom E baseHeight (seen ++ [current]) current r' rest := by
  simp only [replayFrom, advance, Outcome.bind_assoc, pure_eq, ok_bind]

theorem replayFrom_eq_panicked (hE : E.saturation = .clamp) {baseHeight : UInt64} {l : List Block} :
    ∀ {seen : List Block} {previous : Block} {r : Replay}, Sane E r →
      baseHeight.toNat + seen.length + l.length < 2 ^ 63 →
      (replayFrom E baseHeight seen previous r l = panicked ↔
        ReplayAborts E baseHeight seen previous r l) := by
  induction l with
  | nil =>
    intro seen previous r _ _
    simp only [replayFrom, ReplayAborts, reduceCtorEq]
  | cons current rest ih =>
    intro seen previous r hr hroom
    rw [List.length_cons] at hroom
    have hlen : (UInt64.ofNat seen.length).toNat = seen.length := Word.toNat_ofNat_of_lt (by omega)
    obtain ⟨index, hindex⟩ : ∃ index,
        Word.checkedAdd baseHeight (UInt64.ofNat seen.length) = some index :=
      ⟨_, Word.checkedAdd_of_lt (by omega)⟩
    have hheight : index.toNat < 2 ^ 63 := by
      rw [Word.checkedAdd_eq_some] at hindex
      omega
    have hretarget : ∀ blocks, (retarget (blocks ++ [current]) index baseHeight r.difficulty :
        Outcome (ℕ × BlockError) UInt64) ≠ panicked := fun blocks =>
      retarget_ne_panicked (by simp) (by omega) hr.inBounds
    rw [replayFrom_eq_advance, Outcome.bind_eq_panicked, ReplayAborts]
    refine or_congr ?_ (exists_congr fun r' => and_congr_right fun hstep => ?_)
    · simp only [advance, Outcome.bind_eq_panicked, plain_eq_panicked, plain_eq_ok, hindex,
        mapErr_eq_panicked, hretarget, pure_eq, reduceCtorEq, and_false, exists_false, or_false,
        false_or, Option.some.injEq, exists_eq_left']
      exact validateBlockAt_eq_panicked hE hr.reachable hheight
    · refine ih (hr.advance hE hstep) ?_
      rw [List.length_append, List.length_singleton]
      omega

end Blockchain
