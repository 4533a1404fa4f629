/-
# Whether rotation reaches another validator

In each round a validator leads exactly when the round's ticket falls into the interval of its
stake.  The rounds are few and their tickets come from a hash, so a validator with nearly all of
the stake can lead all of them; then nobody else is ever open for the height.
-/
import Mathlib.Tactic
import Hikmalayer.Consensus.Eligibility
import Hikmalayer.Ledger.Deduction

open Outcome OrderedMap

namespace Blockchain

variable {E : Env} {chain : Blockchain} {tip : Block} {randomness : String} {index : UInt64}
  {set before after : List Staker} {staker : Staker} {total : UInt64}

/-! ## The draw as a lottery -/

/-- The addresses of a validator set with their stakes. -/
def candidates (set : List Staker) : List (String × ℕ) := set.map fun x => (x.address, x.stake.toNat)

/-- The stake of a validator set. -/
def stakeOf (set : List Staker) : ℕ := Rotation.weightOf (candidates set)

theorem candidates_addresses (set : List Staker) :
    (candidates set).map Prod.fst = set.map Staker.address := by
  rw [candidates, List.map_map]
  rfl

theorem checkedSum_stakes : Word.checkedSum (set.map Staker.stake) = some total ↔
    total.toNat = stakeOf set := by
  rw [Word.checkedSum_eq_some, stakeOf, Rotation.weightOf, candidates, List.map_map, List.map_map]
  rfl

theorem checkedSum_of_fits (h : stakeOf set < 2 ^ 64) :
    Word.checkedSum (set.map Staker.stake) = some (UInt64.ofNat (stakeOf set)) :=
  checkedSum_stakes.mpr (Word.toNat_ofNat_of_lt h)

theorem stakeOf_append (before after : List Staker) :
    stakeOf (before ++ after) = stakeOf before + stakeOf after := by
  rw [stakeOf, candidates, List.map_append]
  exact Rotation.weightOf_append _ _

/-- Walking the stakers is looking for the holder of the ticket. -/
theorem scanStakers_eq {ε : Type} (set : List Staker) : ∀ point : UInt64,
    (Pos.scanStakers point set : Outcome ε _) = ok (Rotation.holder point.toNat (candidates set)) := by
  induction set with
  | nil => exact fun _ => rfl
  | cons x rest ih =>
    intro point
    have hcons : candidates (x :: rest) = (x.address, x.stake.toNat) :: candidates rest := rfl
    rw [hcons, Rotation.holder]
    unfold Pos.scanStakers
    simp only [UInt64.lt_iff_toNat_lt]
    by_cases hinside : point.toNat < x.stake.toNat
    · rw [if_pos hinside, if_pos hinside]
      rfl
    · have hle : x.stake.toNat ≤ point.toNat := by omega
      have hleft : (point - x.stake).toNat = point.toNat - x.stake.toNat :=
        UInt64.toNat_sub_of_le _ _ (UInt64.le_iff_toNat_le.mpr hle)
      rw [if_neg hinside, if_neg hinside, Word.checkedSub_of_le hle, plain_some, ok_bind, ih, hleft]

/-- With stake, a seed is drawn at a point below it. -/
theorem selectStakerWithSeed_eq {ε : Type} (hfits : stakeOf set < 2 ^ 64) (hpos : 0 < stakeOf set)
    (seed : String) :
    ∃ point : UInt64, point.toNat = (Pos.seedToU64 E seed).toNat % stakeOf set ∧
      (Pos.selectStakerWithSeed E seed set : Outcome ε _) = Pos.scanStakers point set := by
  have htotal : (UInt64.ofNat (stakeOf set)).toNat = stakeOf set := Word.toNat_ofNat_of_lt hfits
  have hne : UInt64.ofNat (stakeOf set) ≠ 0 := by
    intro h0
    rw [h0, UInt64.toNat_zero] at htotal
    omega
  refine ⟨Pos.seedToU64 E seed % UInt64.ofNat (stakeOf set), ?_, ?_⟩
  · rw [UInt64.toNat_mod, htotal]
  · unfold Pos.selectStakerWithSeed
    rw [checkedSum_of_fits hfits, plain_some, ok_bind, if_neg hne]

/-- The ticket that a round draws. -/
def ticketAt (E : Env) (set : List Staker) (randomness : String) (index round : UInt64) : ℕ :=
  (Pos.seedToU64 E (Vrf.slotInputAtRound randomness index round)).toNat % stakeOf set

/-- The leader of a round holds its ticket. -/
theorem drawnAt_eq (hfits : stakeOf set < 2 ^ 64) (hpos : 0 < stakeOf set) (round : UInt64) :
    drawnAt E set randomness index round =
      Rotation.holder (ticketAt E set randomness index round) (candidates set) := by
  obtain ⟨point, hpoint, hdraw⟩ := selectStakerWithSeed_eq (E := E) (ε := String) hfits hpos
    (Vrf.slotInputAtRound randomness index round)
  rw [drawnAt, drawn, hdraw, scanStakers_eq, hpoint]
  rfl

/-! ## The share of a validator -/

/-- The points below the stake at which the scan selects an address. -/
def pointsOf (set : List Staker) (address : String) : Set ℕ :=
  {point | point < stakeOf set ∧
    (Pos.scanStakers (UInt64.ofNat point) set : Outcome String _) = ok (some address)}

theorem scanStakers_point {ε : Type} {point : ℕ} (hfits : stakeOf set < 2 ^ 64)
    (hpoint : point < stakeOf set) :
    (Pos.scanStakers (UInt64.ofNat point) set : Outcome ε _) =
      ok (Rotation.holder point (candidates set)) := by
  rw [scanStakers_eq, Word.toNat_ofNat_of_lt (hpoint.trans hfits)]

theorem pointsOf_eq (hfits : stakeOf set < 2 ^ 64) (address : String) :
    pointsOf set address = {point | point < stakeOf set ∧
      Rotation.holder point (candidates set) = some address} := by
  ext point
  refine and_congr_right fun hpoint => ?_
  rw [scanStakers_point hfits hpoint, ok.injEq]

/-- What is selected is the address of a validator with stake. -/
theorem staker_of_holder {point : ℕ} {address : String}
    (h : Rotation.holder point (candidates set) = some address) :
    ∃ x ∈ set, 0 < x.stake.toNat ∧ x.address = address := by
  obtain ⟨weight, hmem, hpos⟩ := Rotation.weighs_of_holder h
  obtain ⟨x, hx, heq⟩ := List.mem_map.mp hmem
  rw [Prod.mk.injEq] at heq
  exact ⟨x, hx, heq.2 ▸ hpos, heq.1⟩

/-- A validator set without stake draws nobody, and one with stake draws at a point below the
stake.  Every such point selects one validator, which has stake, and with different addresses a
validator is selected at exactly as many points as its stake. -/
theorem selection_proportional {set : List Staker} (hfits : stakeOf set < 2 ^ 64) (E : Env) :
    (∀ seed, ∃ leader, (Pos.selectStakerWithSeed E seed set : Outcome String _) = ok leader ∧
      (leader = none ↔ stakeOf set = 0)) ∧
    (∀ seed, 0 < stakeOf set → ∃ point : UInt64,
      point.toNat = (Pos.seedToU64 E seed).toNat % stakeOf set ∧ point.toNat < stakeOf set ∧
        (Pos.selectStakerWithSeed E seed set : Outcome String _) = Pos.scanStakers point set) ∧
    (∀ point < stakeOf set, ∃ x ∈ set, 0 < x.stake.toNat ∧
      ∀ address, point ∈ pointsOf set address ↔ address = x.address) ∧
    ((set.map Staker.address).Nodup → ∀ x ∈ set,
      (pointsOf set x.address).ncard = x.stake.toNat) := by
  have hselects : ∀ point < stakeOf set, ∃ x ∈ set, 0 < x.stake.toNat ∧
      Rotation.holder point (candidates set) = some x.address := by
    intro point hpoint
    obtain ⟨a, -, ha⟩ := Rotation.holder_of_lt hpoint
    obtain ⟨x, hx, hpos, rfl⟩ := staker_of_holder ha
    exact ⟨x, hx, hpos, ha⟩
  refine ⟨?_, ?_, ?_, ?_⟩
  · intro seed
    rcases Nat.eq_zero_or_pos (stakeOf set) with hzero | hpos
    · refine ⟨none, ?_, iff_of_true rfl hzero⟩
      unfold Pos.selectStakerWithSeed
      rw [checkedSum_of_fits hfits, hzero, plain_some, ok_bind]
      exact if_pos rfl
    · obtain ⟨point, hpoint, hdraw⟩ := selectStakerWithSeed_eq hfits hpos seed
      obtain ⟨x, -, -, hx⟩ := hselects point.toNat (hpoint ▸ Nat.mod_lt _ hpos)
      refine ⟨some x.address, ?_, iff_of_false (by exact nofun) hpos.ne'⟩
      rw [hdraw, scanStakers_eq, hx]
  · intro seed hpos
    obtain ⟨point, hpoint, hdraw⟩ := selectStakerWithSeed_eq hfits hpos seed
    exact ⟨point, hpoint, hpoint ▸ Nat.mod_lt _ hpos, hdraw⟩
  · intro point hpoint
    obtain ⟨x, hx, hpos, hholder⟩ := hselects point hpoint
    refine ⟨x, hx, hpos, fun address => ?_⟩
    rw [pointsOf_eq hfits, Set.mem_setOf_eq, hholder, Option.some.injEq, eq_comm]
    exact and_iff_right hpoint
  · intro hnodup x hx
    rw [pointsOf_eq hfits, stakeOf]
    exact Rotation.ncard_holder (List.mem_map.mpr ⟨x, hx, rfl⟩)
      ((candidates_addresses set).symm ▸ hnodup)

/-- A validator without stake between two others. -/
theorem selection_proportional_three :
    (pointsOf [⟨"a", 3, none⟩, ⟨"b", 0, none⟩, ⟨"c", 2, none⟩] "b").ncard = 0 ∧
      (pointsOf [⟨"a", 3, none⟩, ⟨"b", 0, none⟩, ⟨"c", 2, none⟩] "c").ncard = 2 := by
  have hshare := (@selection_proportional [⟨"a", 3, none⟩, ⟨"b", 0, none⟩, ⟨"c", 2, none⟩]
    (by decide) (Sample.node []).toEnv).2.2.2 (by decide)
  exact ⟨hshare ⟨"b", 0, none⟩ (by simp), hshare ⟨"c", 2, none⟩ (by simp)⟩

/-! ## Escaping a validator -/

/-- In one of the rounds the ticket falls outside the interval of the staker between `before` and
`after`. -/
def Escapes (E : Env) (randomness : String) (index : UInt64) (before : List Staker)
    (staker : Staker) (after : List Staker) : Prop :=
  ∃ round : UInt64, round.toNat ≤ maxSlotRounds ∧
    ¬ (stakeOf before ≤ ticketAt E (before ++ staker :: after) randomness index round ∧
      ticketAt E (before ++ staker :: after) randomness index round <
        stakeOf before + staker.stake.toNat)

/-- The interval decides whether another validator leads the round. -/
theorem other_leads_iff (hset : set = before ++ staker :: after)
    (hnodup : (set.map Staker.address).Nodup) (hfits : stakeOf set < 2 ^ 64)
    (hpos : 0 < staker.stake.toNat) (round : UInt64) :
    (∃ w, w ≠ staker.address ∧ drawnAt E set randomness index round = some w) ↔
      ¬ (stakeOf before ≤ ticketAt E set randomness index round ∧
        ticketAt E set randomness index round < stakeOf before + staker.stake.toNat) := by
  have hsplit : candidates set =
      candidates before ++ (staker.address, staker.stake.toNat) :: candidates after := by
    rw [hset, candidates, List.map_append]
    rfl
  have hstake : stakeOf set = stakeOf before + (staker.stake.toNat + stakeOf after) := by
    rw [hset, stakeOf_append]
    exact congrArg _ (Rotation.weightOf_cons _ _ _)
  have hsome : 0 < stakeOf set := by omega
  have hticket : ticketAt E set randomness index round < stakeOf set := Nat.mod_lt _ hsome
  rw [← candidates_addresses, hsplit] at hnodup
  rw [drawnAt_eq hfits hsome, hsplit, stakeOf, ← Rotation.holder_eq_iff hnodup]
  constructor
  · rintro ⟨w, hne, hw⟩ hmine
    rw [hmine, Option.some.injEq] at hw
    exact hne hw.symm
  · intro hother
    obtain ⟨w, -, hw⟩ := Rotation.holder_of_lt (l := candidates set) hticket
    rw [hsplit] at hw
    refine ⟨w, fun hmine => hother ?_, hw⟩
    rw [hw, hmine]

/-- The set of validators of a state has every address once. -/
theorem nodup_validatorSet (s : ChainState) : (s.validatorSet.map Staker.address).Nodup := by
  rw [ChainState.validatorSet, List.map_map]
  have hkeys : (s.stakers.toList.map Prod.fst).Nodup := by
    rw [Std.ExtTreeMap.map_fst_toList_eq_keys]
    exact Std.ExtTreeMap.nodup_keys
  exact (List.filter_sublist.map _).nodup hkeys

/-- Validators have stake. -/
theorem pos_of_mem_validatorSet {s : ChainState} {x : Staker} (h : x ∈ s.validatorSet) :
    0 < x.stake.toNat := by
  rw [ChainState.validatorSet, List.mem_map] at h
  obtain ⟨e, he, rfl⟩ := h
  have hpos := (List.mem_filter.mp he).2
  rwa [decide_eq_true_eq, UInt64.lt_iff_toNat_lt] at hpos

/-- All rounds are open once their timeouts have passed. -/
theorem openRounds_all {parentTs now : DateTime}
    (h : maxSlotRounds * slotTimeoutSeconds ≤ now.numSecondsSince parentTs) :
    openRounds parentTs now = maxSlotRounds := by
  rw [maxSlotRounds, slotTimeoutSeconds] at h
  unfold openRounds maxSlotRounds slotTimeoutSeconds
  dsimp only
  rw [if_neg (by omega), Int.tdiv_eq_ediv_of_nonneg (by omega)]
  omega

/-- Another validator leads one of the rounds exactly when a ticket of the rounds falls outside
the validator's interval.  Then another one finds an open slot once all timeouts have passed; else
nobody but the validator ever finds one. -/
theorem never_stalls_iff {E : Node} {v : String} (htip : chain.blocks.getLast? = some tip)
    (hindex : chain.nextIndex = (ok index : Outcome String _))
    (hset : chain.state.validatorSet = before ++ staker :: after) (hv : staker.address = v)
    (hfits : stakeOf chain.state.validatorSet < 2 ^ 64) :
    ((∃ round : UInt64, round.toNat ≤ maxSlotRounds ∧
        ∃ w, w ≠ v ∧ leaderAt E chain index round = ok (some w)) ↔
      Escapes E chain.randomness index before staker after) ∧
    (Escapes E chain.randomness index before staker after → ∀ now : DateTime,
      maxSlotRounds * slotTimeoutSeconds ≤ now.numSecondsSince tip.timestamp →
        ∃ w slot, w ≠ v ∧ eligibleSlotFor E chain now w = ok (some slot)) ∧
    (¬ Escapes E chain.randomness index before staker after → ∀ (now : DateTime) (w : String),
      w ≠ v → eligibleSlotFor E chain now w = ok none) := by
  subst hv
  have hnodup := nodup_validatorSet chain.state
  have hpos : 0 < staker.stake.toNat :=
    pos_of_mem_validatorSet (s := chain.state) (by rw [hset]; simp)
  have hadd : StakesAdd chain := ⟨_, checkedSum_of_fits hfits⟩
  have hother : ∀ round, (∃ w, w ≠ staker.address ∧ draws E chain index round = some w) ↔ _ :=
    other_leads_iff hset hnodup hfits hpos
  rw [hset] at hother
  have hmax : maxSlotRounds < 2 ^ 64 := by decide
  refine ⟨?_, ?_, ?_⟩
  · refine exists_congr fun round => and_congr_right fun _ => ?_
    rw [← hother round]
    refine exists_congr fun w => and_congr_right fun _ => ?_
    rw [hadd.leaderAt, ok.injEq]
  · rintro ⟨round, hround, hout⟩ now hnow
    obtain ⟨w, hne, hdraw⟩ := (hother round).mpr hout
    have hmem : round ∈ roundList (openRounds tip.timestamp now) := by
      rw [openRounds_all hnow]
      exact (mem_roundList hmax).mpr hround
    -- the search for the other leader cannot end without result
    obtain ⟨r, hfirst⟩ : ∃ r, Rotation.first (draws E chain index) w
        (roundList (openRounds tip.timestamp now)) = some r := by
      apply Option.ne_none_iff_exists'.mp
      intro hnone
      exact Rotation.first_eq_none.mp hnone round hmem hdraw
    refine ⟨w, withInput chain.randomness index r, hne,
      (eligibleSlotFor_eq_ok htip).mpr ⟨hadd, index, hindex, ?_⟩⟩
    rw [hfirst]
    rfl
  · intro hstalls now w hne
    refine (eligibleSlotFor_eq_ok htip).mpr ⟨hadd, index, hindex, ?_⟩
    have hnone : Rotation.first (draws E chain index) w
        (roundList (openRounds tip.timestamp now)) = none := by
      apply Rotation.first_eq_none.mpr
      intro round hround hdraw
      refine hstalls ⟨round, (mem_openRounds hround).1, ?_⟩
      exact (hother round).mp ⟨w, hne, hdraw⟩
    rw [hnone]
    rfl

/-- Only the number before `total` leaves the largest remainder. -/
theorem mod_lt_pred {x total : ℕ} (hx : x + 1 < 2 * total) (hne : x + 1 ≠ total) :
    x % total < total - 1 := by
  by_cases hsmall : x < total
  · rw [Nat.mod_eq_of_lt hsmall]
    omega
  · rw [Nat.mod_eq_sub_mod (by omega), Nat.mod_eq_of_lt (by omega)]
    omega

/-- Whatever the hash, for every beacon value and height there are two validators, of stakes that
fit a word, of which one leads every round. -/
theorem exists_stalled (E : Env) (randomness : String) (index : UInt64) (v w : String) :
    ∃ large : UInt64, 0 < large.toNat ∧
      stakeOf [⟨v, large, none⟩, ⟨w, 1, none⟩] < 2 ^ 64 ∧
      ∀ round : UInt64, round.toNat ≤ maxSlotRounds →
        drawnAt E [⟨v, large, none⟩, ⟨w, 1, none⟩] randomness index round = some v := by
  have hone : (1 : UInt64).toNat = 1 := rfl
  obtain ⟨total, hle, hge, havoids⟩ := @Rotation.exists_total_avoiding
    ((roundList maxSlotRounds).map fun round =>
      (Pos.seedToU64 E (Vrf.slotInputAtRound randomness index round)).toNat)
    (2 ^ 64 - 1) (by simp [roundList, maxSlotRounds])
  rw [List.length_map, roundList, List.length_map, List.length_range, maxSlotRounds] at hge
  have hlarge : (UInt64.ofNat (total - 1)).toNat = total - 1 :=
    Word.toNat_ofNat_of_lt (by omega)
  have hstake : stakeOf [⟨v, UInt64.ofNat (total - 1), none⟩, ⟨w, 1, none⟩] = total := by
    have hsum : stakeOf [⟨v, UInt64.ofNat (total - 1), none⟩, ⟨w, 1, none⟩] =
        (UInt64.ofNat (total - 1)).toNat + ((1 : UInt64).toNat + 0) := by
      simp [stakeOf, candidates, Rotation.weightOf]
    rw [hsum, hlarge, hone]
    omega
  refine ⟨UInt64.ofNat (total - 1), by omega, by omega, fun round hround => ?_⟩
  have hmem : round ∈ roundList maxSlotRounds := (mem_roundList (by decide)).mpr hround
  have havoid := havoids _ (List.mem_map_of_mem hmem)
  have hword := Word.toNat_lt (Pos.seedToU64 E (Vrf.slotInputAtRound randomness index round))
  -- the last ticket is the only one of the other validator
  have hticket : ticketAt E [⟨v, UInt64.ofNat (total - 1), none⟩, ⟨w, 1, none⟩] randomness index
      round < total - 1 := by
    rw [ticketAt, hstake]
    exact mod_lt_pred (by omega) havoid
  rw [drawnAt_eq (by omega) (by omega)]
  change (if _ < (UInt64.ofNat (total - 1)).toNat then some v else _) = some v
  rw [hlarge, if_pos hticket]

end Blockchain

/-! ## A validator with nearly all of the stake -/

namespace Sample

open Blockchain

/-- Holder 7 bonds most of the supply. -/
def majorBond : Transaction :=
  { order 7 .stake stakingPoolAccount 900000000000000000 2 none none
      (Transaction.stakeSigningMessage (address 7) 900000000000000000 2 (publicKey 7)) with
    vrfPublicKey := some (publicKey 7) }

/-- Holder 8 bonds the least stake of a validator. -/
def minorBond : Transaction :=
  { order 8 .stake stakingPoolAccount 10000000000 1 none none
      (Transaction.stakeSigningMessage (address 8) 10000000000 1 (publicKey 8)) with
    vrfPublicKey := some (publicKey 8) }

def bondPool : List Transaction := [payment, majorBond, minorBond, reward]

/-- The block with which the two bond. -/
def bondBlock : Block :=
  sealWith bondPool 7 7 morning 0
    (nextPlace (root bondPool 1000000000000000000) (DateTime.ofTimestamp genesisTimestamp))
    (bondPool.map Transaction.id)
    (rootAfter bondPool 7 1 (genesis 1000000000000000000) (bondPool.map Transaction.id))

/-- The beacon after that block. -/
def bondRandomness : String :=
  Vrf.nextRandomness (env bondPool) (root bondPool 1000000000000000000).randomness
    (hexEncode (vrfOutput 7
      (Vrf.slotInputAtRound (root bondPool 1000000000000000000).randomness 1 0)))

/-- The chain after that block. -/
def bondChain (s : ChainState) : Blockchain :=
  (root bondPool 1000000000000000000).extended bondBlock ⟨s, bondRandomness, 1⟩

/-- The validator after that block. -/
def bondedAs (n : UInt8) (stake : UInt64) : Staker := ⟨address n, stake, some (publicKey n)⟩

theorem bondPool_admitted : ∀ tx ∈ bondPool, Admitted bondPool (address 7) tx := by
  have hids : (bondPool.map Transaction.id).Nodup := by decide +kernel
  intro tx htx
  refine ⟨parseTx_of_mem hids htx, ?_⟩
  simp only [bondPool, List.mem_cons, List.not_mem_nil, or_false] at htx
  rcases htx with rfl | rfl | rfl | rfl
  · exact payment_verified
  · change majorBond.verifySenderSignature (env bondPool) (address 7)
      (Transaction.stakeSigningMessage (address 7) 900000000000000000 2 (publicKey 7)) = ok ()
    exact verifySenderSignature_signed schemeOf_seven rfl rfl ⟨rfl, rfl⟩
  · change minorBond.verifySenderSignature (env bondPool) (address 8)
      (Transaction.stakeSigningMessage (address 8) 10000000000 1 (publicKey 8)) = ok ()
    exact verifySenderSignature_signed schemeOf_eight rfl rfl ⟨rfl, rfl⟩
  · exact verifyForBlock_reward rfl rfl rfl

/-- Holder 7 leads every round of the next height. -/
theorem bond_leaders :
    ((executed bondPool 7 1 (genesis 1000000000000000000) bondPool).any fun s =>
      decide (s.validatorSet = [bondedAs 7 900001000000000000, bondedAs 8 10000000000]) &&
      (roundList maxSlotRounds).all fun round => decide (drawnAt (env bondPool)
        [bondedAs 7 900001000000000000, bondedAs 8 10000000000] bondRandomness 2 round =
          some (address 7))) = true := by
  decide +kernel

theorem accept_bondBlock {s : ChainState}
    (h : executed bondPool 7 1 (genesis 1000000000000000000) bondPool = some s) :
    accept (node bondPool) morning (root bondPool 1000000000000000000) bondBlock =
      ok (bondChain s) := by
  have halone : Alone (root bondPool 1000000000000000000) := Alone.root (by decide)
  have hexec : executeBlock (node bondPool) (address 7) bondBlock
      (genesis 1000000000000000000) = ok s := by
    have hindex : bondBlock.index = 1 := by decide
    unfold bondBlock at hindex ⊢
    exact @executeBlock_of_executed bondPool 7 1 _ s _ _ bondPool_admitted hindex rfl
      sealWith_stateRoot h
  unfold bondBlock at hexec ⊢
  exact @accept_sole bondPool (root bondPool 1000000000000000000) 7 7 morning morning
    (genesisBlock bondPool 1000000000000000000) _ _ _ s rfl (by decide) rfl (Or.inl rfl)
    (by decide) (halone.timely _ (List.mem_singleton_self _)) halone.registered (by decide)
    halone.validators hexec

/-- The chain with its two validators, of whom holder 7 leads all rounds. -/
theorem exists_bondChain : ∃ chain,
    accept (node bondPool) morning (root bondPool 1000000000000000000) bondBlock = ok chain ∧
    chain.blocks.getLast? = some bondBlock ∧ chain.nextIndex = (ok 2 : Outcome String _) ∧
    chain.state.validatorSet = [bondedAs 7 900001000000000000, bondedAs 8 10000000000] ∧
    ∀ round : UInt64, round.toNat ≤ maxSlotRounds →
      leaderAt (node bondPool) chain 2 round = ok (some (address 7)) := by
  obtain ⟨s, hs, hrest⟩ := (Option.any_eq_true _ _).mp bond_leaders
  simp only [Bool.and_eq_true, List.all_eq_true, decide_eq_true_eq] at hrest
  obtain ⟨hset, hleads⟩ := hrest
  refine ⟨bondChain s, accept_bondBlock hs, rfl, rfl, hset, fun round hround => ?_⟩
  have hfits : stakeOf s.validatorSet < 2 ^ 64 := by
    rw [hset]
    decide
  have hadd : StakesAdd (bondChain s) := ⟨_, checkedSum_of_fits hfits⟩
  rw [hadd.leaderAt]
  have hdraw := hleads round ((mem_roundList (by decide)).mpr hround)
  rw [← hset] at hdraw
  exact congrArg ok hdraw

end Sample

namespace Blockchain

/-- When the small validator is offline, the large one finds a slot. -/
theorem never_stalls_sample : ∃ chain : Blockchain,
    accept (Sample.node Sample.bondPool) Sample.morning
      (Sample.root Sample.bondPool 1000000000000000000) Sample.bondBlock = ok chain ∧
    ∀ now : DateTime,
      maxSlotRounds * slotTimeoutSeconds ≤ now.numSecondsSince Sample.bondBlock.timestamp →
        ∃ w slot, w ≠ Sample.address 8 ∧
          eligibleSlotFor (Sample.node Sample.bondPool) chain now w = ok (some slot) := by
  obtain ⟨chain, haccept, htip, hindex, hset, hleads⟩ := Sample.exists_bondChain
  have hne : Sample.address 7 ≠ Sample.address 8 := by decide +kernel
  have hfits : stakeOf chain.state.validatorSet < 2 ^ 64 := by
    rw [hset]
    decide
  obtain ⟨hiff, hfinds, -⟩ := @never_stalls_iff chain _ 2
    [Sample.bondedAs 7 900001000000000000] [] (Sample.bondedAs 8 10000000000)
    (Sample.node Sample.bondPool) (Sample.address 8) htip hindex hset rfl hfits
  exact ⟨chain, haccept, hfinds (hiff.mp ⟨0, by decide, _, hne, hleads 0 (by decide)⟩)⟩

/-- When the large validator is offline, nobody else ever finds a slot for the next height. -/
theorem large_validator_stalls : ∃ chain : Blockchain,
    accept (Sample.node Sample.bondPool) Sample.morning
      (Sample.root Sample.bondPool 1000000000000000000) Sample.bondBlock = ok chain ∧
    chain.state.validatorSet =
      [Sample.bondedAs 7 900001000000000000, Sample.bondedAs 8 10000000000] ∧
    chain.nextIndex = (ok 2 : Outcome String _) ∧
    (∀ round : UInt64, round.toNat ≤ maxSlotRounds →
      leaderAt (Sample.node Sample.bondPool) chain 2 round = ok (some (Sample.address 7))) ∧
    ∀ (now : DateTime) (w : String), w ≠ Sample.address 7 →
      eligibleSlotFor (Sample.node Sample.bondPool) chain now w = ok none := by
  obtain ⟨chain, haccept, htip, hindex, hset, hleads⟩ := Sample.exists_bondChain
  have hfits : stakeOf chain.state.validatorSet < 2 ^ 64 := by
    rw [hset]
    decide
  have hadd : StakesAdd chain := ⟨_, checkedSum_of_fits hfits⟩
  refine ⟨chain, haccept, hset, hindex, hleads, fun now w hne => ?_⟩
  refine (eligibleSlotFor_eq_ok htip).mpr ⟨hadd, 2, hindex, ?_⟩
  have hnone : Rotation.first (draws (Sample.node Sample.bondPool) chain 2) w
      (roundList (openRounds Sample.bondBlock.timestamp now)) = none := by
    apply Rotation.first_eq_none.mpr
    intro round hround hdraw
    have hseven := hleads round (mem_openRounds hround).1
    rw [hadd.leaderAt, ok.injEq, hdraw, Option.some.injEq] at hseven
    exact hne hseven
  rw [hnone]
  rfl

end Blockchain
