/-
# When a fallback round opens

Rounds open by the timestamp that a block gives itself.  A candidate may be dated up to the
allowed skew ahead of the local clock, so on that clock a round opens earlier by the skew: the
first four fallback rounds are open as soon as the tip is there.
-/
import Mathlib.Tactic
import Hikmalayer.Consensus.Beacon
import Hikmalayer.Ledger.Window

open Outcome

/-! ## Differences of timestamps -/

namespace DateTime

/-- The time in nanoseconds; a leap second overlaps the second after it. -/
def nanoseconds (t : DateTime) : ℤ := (t.day * 86400 + t.sec.val) * 1000000000 + t.nano.val

theorem nanoseconds_sub (a b : DateTime) :
    a.nanoseconds - b.nanoseconds = (a.day - b.day) * 86400000000000 +
      ((a.sec.val : ℤ) - b.sec.val) * 1000000000 + (a.nano.val - b.nano.val) := by
  rw [nanoseconds, nanoseconds]
  ring

/-- The nanoseconds between two timestamps, with the leap second that the difference passes. -/
def nanosecondsSince (a b : DateTime) : ℤ :=
  a.nanoseconds - b.nanoseconds + leapAdjust a b * 1000000000

theorem numSecondsSince_eq (a b : DateTime) :
    a.numSecondsSince b = (a.nanosecondsSince b).tdiv 1000000000 := by
  rw [numSecondsSince, nanosecondsSince, nanoseconds, nanoseconds]
  congr 1
  ring

theorem le_numSecondsSince {a b : DateTime} {n : ℤ} (h : n * 1000000000 ≤ a.nanosecondsSince b) :
    n ≤ a.numSecondsSince b := by
  rw [numSecondsSince_eq]
  exact Int.le_tdiv_of_mul_le (by decide) h

/-- A positive number of seconds is counted only when they have passed. -/
theorem of_le_numSecondsSince {a b : DateTime} {n : ℤ} (hn : 0 < n) (h : n ≤ a.numSecondsSince b) :
    n * 1000000000 ≤ a.nanosecondsSince b := by
  rw [numSecondsSince_eq] at h
  rcases le_or_gt 0 (a.nanosecondsSince b) with hd | hd
  · rw [Int.tdiv_eq_ediv_of_nonneg hd] at h
    omega
  · have hneg := Int.tdiv_le_tdiv (show (0 : ℤ) < 1000000000 by decide) hd.le
    rw [Int.zero_tdiv] at hneg
    omega

/-- The clock after some seconds. -/
theorem nanoseconds_addSeconds {t : DateTime} (h : t.inLeapSecond = false) (n : ℕ) :
    (t.addSeconds n).nanoseconds = t.nanoseconds + n * 1000000000 ∧
      (t.addSeconds n).inLeapSecond = false := by
  have hnano : (t.addSeconds n).nano = t.nano := by
    rw [addSeconds]
    exact if_neg fun hleap => Bool.false_ne_true (h.symm.trans hleap.2)
  refine ⟨?_, by rw [inLeapSecond, hnano]; exact h⟩
  rw [nanoseconds, nanoseconds, hnano]
  show ((t.day + ((t.sec.val + n) / 86400 : ℕ)) * 86400 + ((t.sec.val + n) % 86400 : ℕ)) *
    1000000000 + _ = _
  have hdiv := Nat.div_add_mod (t.sec.val + n) 86400
  push_cast at hdiv ⊢
  omega

/-- The second that a timestamp inside a leap second is written on top of. -/
def leapSeconds (t : DateTime) : ℤ := if t.inLeapSecond then 1 else 0

theorem leapSeconds_range (t : DateTime) : 0 ≤ t.leapSeconds ∧ t.leapSeconds ≤ 1 := by
  unfold leapSeconds
  split_ifs <;> decide

/-- A time that a regular one does not precede is less than a second ahead of it, and not ahead
at all when it is regular too. -/
theorem nanoseconds_le_of_not_before {a b : DateTime} (ha : a.inLeapSecond = false)
    (h : ¬ a.before b) : b.nanoseconds ≤ a.nanoseconds + b.leapSeconds * 999999999 := by
  obtain ⟨d, s, n⟩ := a
  obtain ⟨d', s', n'⟩ := b
  simp only [before, nanoseconds, leapSeconds, inLeapSecond, Fin.lt_def, Fin.ext_iff,
    decide_eq_false_iff_not, decide_eq_true_eq] at *
  have hn := n.isLt
  have hn' := n'.isLt
  have hs := s.isLt
  have hs' := s'.isLt
  split_ifs <;> omega

theorem leapAdjust_le (a b : DateTime) :
    leapAdjust a b ≤ if b.sec < a.sec then b.leapSeconds else 0 := by
  unfold leapAdjust leapSeconds
  split_ifs <;> simp_all

/-- A clock reading passes the leap second of a timestamp earlier in its day. -/
theorem leapAdjust_reading (now : Reading) (b : DateTime) :
    leapAdjust now.time b = if b.sec < now.time.sec then b.leapSeconds else 0 := by
  have hnow := now.regular
  unfold leapAdjust leapSeconds
  split_ifs <;> simp_all

/-- A clock past a timestamp, at no later time of day and outside its leap second, is at a later
day. -/
theorem day_lt_of_not_before {now : Reading} {t : DateTime} (h : ¬ now.time.before t)
    (hsec : ¬ t.sec < now.time.sec) (hleap : t.leapSeconds ≠ 0) : t.day < now.time.day := by
  have hnow := now.regular
  have ht : t.inLeapSecond = true := by
    unfold leapSeconds at hleap
    split_ifs at hleap with hif
    · exact hif
    · exact absurd rfl hleap
  simp only [before, inLeapSecond, decide_eq_false_iff_not, decide_eq_true_eq, Fin.lt_def,
    Fin.ext_iff] at *
  omega

/-- On the clock, no more than the skew is missing of what lies between a timestamp and a later
one that is at most the skew ahead of the clock; a timestamp in a leap second may lack one second
more. -/
theorem elapsed_of_dated (now : Reading) {tip b : DateTime} {n skew : ℕ} (hpos : 0 < n)
    (hmin : 2 ≤ skew) (hday : n + skew < 86000) (htip : ¬ now.time.before tip)
    (hskew : ¬ (now.time.addSeconds skew).before b) (h : (n : ℤ) ≤ b.numSecondsSince tip) :
    (n : ℤ) - skew - b.leapSeconds ≤ now.time.numSecondsSince tip := by
  refine le_numSecondsSince ?_
  have hdated := of_le_numSecondsSince (by omega) h
  obtain ⟨hclock, hregular⟩ := nanoseconds_addSeconds now.regular skew
  have hahead := nanoseconds_le_of_not_before hregular hskew
  have hadjust := leapAdjust_le b tip
  have hleap := leapSeconds_range b
  have hleap' := leapSeconds_range tip
  rw [nanosecondsSince] at hdated
  rw [nanosecondsSince, leapAdjust_reading]
  rw [hclock] at hahead
  by_cases hpassed : tip.sec < now.time.sec
  · rw [if_pos hpassed]
    split_ifs at hadjust <;> omega
  · rw [if_neg hpassed]
    by_cases hpasses : tip.sec < b.sec
    · rw [if_pos hpasses] at hadjust
      rcases eq_or_ne tip.leapSeconds 0 with hzero | hone
      · omega
      · -- the clock shows a later day than the tip, at an earlier time of day than the timestamp
        have hlater : tip.day < now.time.day := day_lt_of_not_before htip hpassed (by omega)
        have hspan := nanoseconds_sub now.time tip
        have hspan' := nanoseconds_sub b tip
        have hn := now.time.nano.isLt
        have hnb := b.nano.isLt
        have hnt := tip.nano.isLt
        have hs := now.time.sec.isLt
        have hsb := b.sec.isLt
        have hst := tip.sec.isLt
        rw [Fin.lt_def] at hpassed hpasses
        rcases lt_trichotomy b.day now.time.day with hday' | hday' | hday'
        · omega
        · omega
        · omega
    · rw [if_neg hpasses] at hadjust
      omega

end DateTime

namespace Blockchain

/-! ## The round of a producer -/

/-- The leader of a round, at the height after the tip, is the producer of the block. -/
def LedBy (E : Env) (chain : Blockchain) (block : Block) (round : UInt64) : Prop :=
  ∃ validator, block.validator = some validator ∧
    Pos.selectStakerWithSeed E (Vrf.slotInputAtRound chain.randomness block.index round)
      chain.state.validatorSet = (ok (some validator) : Outcome BlockError _)

/-- A slot that is found is the slot of a round that the validator leads. -/
theorem findSlot_round {E : Env} {ε : Type} {randomness validator slot : String} {index : UInt64}
    {set : List Staker} :
    ∀ {rounds : List UInt64},
      (findSlot E randomness index set validator rounds : Outcome ε _) = ok (some slot) →
      ∃ round ∈ rounds, slot = Vrf.slotInputAtRound randomness index round ∧
        (Pos.selectStakerWithSeed E slot set : Outcome ε _) = ok (some validator) := by
  intro rounds
  induction rounds with
  | nil => intro h; cases h
  | cons round rest ih =>
    intro h
    unfold findSlot at h
    rw [Outcome.bind_eq_ok] at h
    obtain ⟨leader, hleader, h⟩ := h
    by_cases hmine : leader = some validator
    · rw [if_pos hmine, pure_eq, ok.injEq, Option.some.injEq] at h
      subst h hmine
      exact ⟨round, List.mem_cons_self, rfl, hleader⟩
    · rw [if_neg hmine] at h
      obtain ⟨round', hmem, hslot⟩ := ih h
      exact ⟨round', List.mem_cons_of_mem _ hmem, hslot⟩

/-- A round among the open ones opened that many timeouts after the parent. -/
theorem mem_openRounds {parentTs blockTs : DateTime} {round : UInt64}
    (h : round ∈ roundList (openRounds parentTs blockTs)) :
    round.toNat ≤ maxSlotRounds ∧
      (0 < round.toNat → round.toNat * slotTimeoutSeconds ≤ blockTs.numSecondsSince parentTs) := by
  rw [roundList, List.mem_map] at h
  obtain ⟨i, hi, rfl⟩ := h
  rw [List.mem_range, Nat.lt_succ_iff] at hi
  have hopen : i ≤ maxSlotRounds ∧
      (0 < i → (i : ℤ) * slotTimeoutSeconds ≤ blockTs.numSecondsSince parentTs) := by
    unfold openRounds maxSlotRounds slotTimeoutSeconds at hi
    simp only at hi
    unfold maxSlotRounds slotTimeoutSeconds
    split_ifs at hi with hnone
    · omega
    · rw [Int.tdiv_eq_ediv_of_nonneg (by omega)] at hi
      omega
  have hmax : i < 2 ^ 64 := lt_of_le_of_lt hopen.1 (by decide)
  rw [Word.toNat_ofNat_of_lt hmax]
  exact hopen

variable {E : Node} {chain : Blockchain} {block tip : Block} {post : ChainState}

/-- A valid candidate is not dated beyond the skew, and its producer leads a round that is open
at its timestamp. -/
theorem validateBlockCandidate_round {now : DateTime}
    (htip : chain.blocks.getLast? = some tip)
    (h : validateBlockCandidate E chain now block = ok post) :
    ¬ (now.addSeconds maxTimestampSkewSeconds).before block.timestamp ∧
      ∃ round ∈ roundList (openRounds tip.timestamp block.timestamp), LedBy E chain block round := by
  obtain ⟨hskew, parent, index, hparent, -, hvalid⟩ := validateBlockCandidate_eq_ok.mp h
  rw [htip, Option.some.injEq] at hparent
  subst hparent
  simp only [validateBlockAt, Outcome.bind_eq_ok] at hvalid
  obtain ⟨_, -, validator, hproducer, -⟩ := hvalid
  obtain ⟨slot, -, -, hvalidator, hslot, -⟩ := checkProducer_vrf hproducer
  obtain ⟨round, hmem, rfl, hleader⟩ := findSlot_round hslot
  exact ⟨hskew, round, hmem, validator, hvalidator, hleader⟩

/-- A block whose producer leads no round below `r` is accepted only when its own timestamp is
`r` timeouts after the tip, so that on the local clock at most the skew is missing of them. -/
theorem fallback_delay (now : DateTime.Reading) {r : UInt64} (hr : 1 ≤ r)
    (htip : chain.blocks.getLast? = some tip) (hnow : ¬ now.time.before tip.timestamp)
    (hround : ∀ round < r, ¬ LedBy E chain block round)
    (h : validateBlockCandidate E chain now.time block = ok post) :
    r.toNat * slotTimeoutSeconds ≤ block.timestamp.numSecondsSince tip.timestamp ∧
      r.toNat * slotTimeoutSeconds - maxTimestampSkewSeconds - block.timestamp.leapSeconds ≤
        now.time.numSecondsSince tip.timestamp := by
  obtain ⟨hskew, round, hmem, hled⟩ := validateBlockCandidate_round htip h
  obtain ⟨hmax, hopened⟩ := mem_openRounds hmem
  have hle : r.toNat ≤ round.toNat := by
    by_contra hlt
    exact hround round (UInt64.lt_iff_toNat_lt.mpr (by omega)) hled
  have hpos : 0 < r.toNat := UInt64.le_iff_toNat_le.mp hr
  have hdated : ((r.toNat * 30 : ℕ) : ℤ) ≤ block.timestamp.numSecondsSince tip.timestamp := by
    have hround := hopened (by omega)
    rw [slotTimeoutSeconds] at hround
    push_cast
    omega
  have helapsed := DateTime.elapsed_of_dated now (by omega) (by decide)
    (by rw [maxSlotRounds] at hmax; rw [maxTimestampSkewSeconds]; omega) hnow hskew hdated
  rw [slotTimeoutSeconds]
  push_cast at hdated helapsed
  exact ⟨hdated, helapsed⟩

end Blockchain

/-! ## A fallback leader without delay -/

namespace Sample

open Blockchain

def rotationPool : List Transaction := [payment, bonding, reward, laterReward]

/-- The block with which holder 8 joins holder 7 as a validator. -/
def joiningBlock : Block :=
  sealWith rotationPool 7 7 morning 0
    (nextPlace (root rotationPool 1000000000000000000) (DateTime.ofTimestamp genesisTimestamp))
    ([payment, bonding, reward].map Transaction.id)
    (rootAfter rotationPool 7 1 (genesis 1000000000000000000)
      ([payment, bonding, reward].map Transaction.id))

/-- A block of holder 8 for the first fallback round, dated one timeout after the tip. -/
def fallbackBlock (chain : Blockchain) : Block :=
  sealWith rotationPool 8 8 (morning.addSeconds 30) 1 (nextPlace chain morning)
    ([laterReward].map Transaction.id)
    (rootAfter rotationPool 8 2 chain.state ([laterReward].map Transaction.id))

/-- The clock when the joining block is made. -/
def morningReading : DateTime.Reading := ⟨morning, by decide⟩

/-- The beacon after the joining block. -/
def joinedRandomness : String :=
  Vrf.nextRandomness (env rotationPool) (root rotationPool 1000000000000000000).randomness
    (hexEncode (vrfOutput 7
      (Vrf.slotInputAtRound (root rotationPool 1000000000000000000).randomness 1 0)))

/-- The transactions of the two blocks verify. -/
theorem rotationPool_admitted :
    (∀ tx ∈ [payment, bonding, reward], Admitted rotationPool (address 7) tx) ∧
      ∀ tx ∈ [laterReward], Admitted rotationPool (address 8) tx := by
  have hids : (rotationPool.map Transaction.id).Nodup := by decide +kernel
  constructor
  · intro tx htx
    refine ⟨parseTx_of_mem hids (List.mem_append_left [laterReward] htx), ?_⟩
    simp only [List.mem_cons, List.not_mem_nil, or_false] at htx
    rcases htx with rfl | rfl | rfl
    · exact payment_verified
    · exact bonding_verified
    · exact verifyForBlock_reward rfl rfl rfl
  · intro tx htx
    rw [List.mem_singleton] at htx
    subst htx
    exact ⟨parseTx_of_mem hids (by simp [rotationPool]), verifyForBlock_reward rfl rfl rfl⟩

/-- After the joining block holder 7 leads the primary round, and holder 8 the first fallback. -/
theorem joined_leaders :
    ((executed rotationPool 7 1 (genesis 1000000000000000000) [payment, bonding, reward]).any
      fun s =>
        (Pos.selectStakerWithSeed (env rotationPool) (Vrf.slotInput joinedRandomness 2)
          s.validatorSet : Outcome BlockError _).returns (fun leader =>
            decide (leader = some (address 7))) &&
        (Pos.selectStakerWithSeed (env rotationPool) (Vrf.slotInputAtRound joinedRandomness 2 1)
          s.validatorSet : Outcome BlockError _).returns (fun leader =>
            decide (leader = some (address 8))) &&
        decide (s.stakers[address 8]? = some ⟨1000000000000, publicKey 8, publicKey 8, ""⟩) &&
        (executed rotationPool 8 2 s [laterReward]).isSome) = true := by
  decide +kernel

/-- The chain after the joining block. -/
def joinedChain (s : ChainState) : Blockchain :=
  (root rotationPool 1000000000000000000).extended joiningBlock ⟨s, joinedRandomness, 1⟩

theorem accept_joiningBlock {s : ChainState}
    (h : executed rotationPool 7 1 (genesis 1000000000000000000) [payment, bonding, reward] =
      some s) :
    accept (node rotationPool) morning (root rotationPool 1000000000000000000) joiningBlock =
      ok (joinedChain s) := by
  have halone : Alone (root rotationPool 1000000000000000000) := Alone.root (by decide)
  have hexec : executeBlock (node rotationPool) (address 7) joiningBlock
      (genesis 1000000000000000000) = ok s := by
    have hindex : joiningBlock.index = 1 := by decide
    unfold joiningBlock at hindex ⊢
    exact @executeBlock_of_executed rotationPool 7 1 _ s _ _ rotationPool_admitted.1 hindex rfl
      sealWith_stateRoot h
  unfold joiningBlock at hexec ⊢
  exact @accept_sole rotationPool (root rotationPool 1000000000000000000) 7 7 morning morning
    (genesisBlock rotationPool 1000000000000000000) _ _ _ s rfl (by decide) rfl (Or.inl rfl)
    (by decide) (halone.timely _ (List.mem_singleton_self _)) halone.registered (by decide)
    halone.validators hexec

/-- A candidate whose producer leads no primary round is valid when no time has passed. -/
theorem exists_fallback : ∃ chain tip post,
    Rooted (node rotationPool) (root rotationPool 1000000000000000000) ∧
    accept (node rotationPool) morning (root rotationPool 1000000000000000000) joiningBlock =
      ok chain ∧
    chain.blocks.getLast? = some tip ∧ tip.timestamp = morning ∧
    (∀ round < 1, ¬ LedBy (node rotationPool) chain (fallbackBlock chain) round) ∧
    validateBlockCandidate (node rotationPool) chain morning (fallbackBlock chain) = ok post := by
  obtain ⟨s, hs, hrest⟩ := (Option.any_eq_true _ _).mp joined_leaders
  simp only [Bool.and_eq_true, decide_eq_true_eq] at hrest
  obtain ⟨⟨⟨hprimary, hfallback⟩, hreg⟩, hpost⟩ := hrest
  obtain ⟨leader, hprimary, hseven⟩ := exists_of_returns hprimary
  obtain ⟨leader', hfallback, height⟩ := exists_of_returns hfallback
  rw [decide_eq_true_eq] at hseven height
  subst hseven height
  obtain ⟨post, hpost⟩ := Option.isSome_iff_exists.mp hpost
  have hne : some (address 7) ≠ some (address 8) := by decide +kernel
  refine ⟨joinedChain s, joiningBlock, post, .genesis newWithGenesisOnChain_root,
    accept_joiningBlock hs, rfl, rfl, ?_, ?_⟩
  · rintro round hround ⟨validator, hvalidator, hled⟩
    have hzero : round = 0 := by
      refine Word.toNat_ext ?_
      have hlt := UInt64.lt_iff_toNat_lt.mp hround
      change round.toNat < 1 at hlt
      change round.toNat = 0
      omega
    have height : validator = address 8 := (Option.some.inj hvalidator).symm
    rw [hzero, height] at hled
    have hsame := hprimary.symm.trans hled
    rw [ok.injEq] at hsame
    exact hne hsame
  · have hslot : (findSlot (env rotationPool) joinedRandomness 2 s.validatorSet (address 8)
        (roundList (openRounds morning (morning.addSeconds 30))) : Outcome BlockError _) =
          ok (some (Vrf.slotInputAtRound joinedRandomness 2 1)) := by
      have hrounds : roundList (openRounds morning (morning.addSeconds 30)) = [0, 1] := by decide
      have hzero : Vrf.slotInputAtRound joinedRandomness 2 0 = Vrf.slotInput joinedRandomness 2 := rfl
      rw [hrounds, findSlot, hzero, hprimary, ok_bind, if_neg hne, findSlot, hfallback, ok_bind,
        if_pos rfl]
      rfl
    have hexec : executeBlock (node rotationPool) (address 8) (fallbackBlock (joinedChain s)) s =
        ok post := by
      unfold fallbackBlock
      exact executeBlock_of_executed rotationPool_admitted.2 rfl rfl rfl hpost
    unfold fallbackBlock at hexec ⊢
    exact @validateBlockCandidate_sealWith rotationPool (joinedChain s) 8 8 (morning.addSeconds 30)
      morning 1 joiningBlock _ _ _ _ post rfl rfl (Or.inl rfl) (by decide) (by decide)
      hprimary hslot hreg hexec

end Sample

namespace Blockchain

/-- The fallback block of the toy chain is dated one timeout after the tip. -/
theorem fallback_delay_sample : ∃ (chain : Blockchain) (tip : Block) (post : ChainState),
    validateBlockCandidate (Sample.node Sample.rotationPool) chain Sample.morning
      (Sample.fallbackBlock chain) = ok post ∧
    (1 : UInt64).toNat * slotTimeoutSeconds ≤
      (Sample.fallbackBlock chain).timestamp.numSecondsSince tip.timestamp ∧
    (1 : UInt64).toNat * slotTimeoutSeconds - maxTimestampSkewSeconds -
      (Sample.fallbackBlock chain).timestamp.leapSeconds ≤
        Sample.morningReading.time.numSecondsSince tip.timestamp := by
  obtain ⟨chain, tip, post, -, -, htip, htime, hround, hpost⟩ := Sample.exists_fallback
  have hnow : ¬ Sample.morningReading.time.before tip.timestamp := by
    rw [htime]
    decide
  exact ⟨chain, tip, post, hpost,
    fallback_delay Sample.morningReading (by decide) htip hnow hround hpost⟩

/-- A leader of no primary round is accepted at the time of the tip itself. -/
theorem fallback_at_once : ∃ chain tip post,
    Rooted (Sample.node Sample.rotationPool)
      (Sample.root Sample.rotationPool 1000000000000000000) ∧
    accept (Sample.node Sample.rotationPool) Sample.morning
      (Sample.root Sample.rotationPool 1000000000000000000) Sample.joiningBlock = ok chain ∧
    chain.blocks.getLast? = some tip ∧ ¬ Sample.morning.before tip.timestamp ∧
    (∀ round < 1, ¬ LedBy (Sample.node Sample.rotationPool) chain (Sample.fallbackBlock chain)
      round) ∧
    validateBlockCandidate (Sample.node Sample.rotationPool) chain Sample.morning
      (Sample.fallbackBlock chain) = ok post ∧
    ¬ (1 : UInt64).toNat * slotTimeoutSeconds ≤ Sample.morning.numSecondsSince tip.timestamp := by
  obtain ⟨chain, tip, post, hroot, haccept, htip, htime, hround, hpost⟩ := Sample.exists_fallback
  refine ⟨chain, tip, post, hroot, haccept, htip, ?_, hround, hpost, ?_⟩
  · rw [htime]
    decide
  · rw [htime]
    decide

end Blockchain
