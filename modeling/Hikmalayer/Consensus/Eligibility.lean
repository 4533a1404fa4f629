/-
# Who may produce, as the producer and the validator see it

The producer's search, the listing of the open leaders and the validator's search walk the same
rounds with the same draw; only the time by which rounds are open differs.  A round that is open
for the producer is open for a later block, unless a leap second stands between them.
-/
import Mathlib.Tactic
import Hikmalayer.Foundations.Rotation
import Hikmalayer.Consensus.Commitment
import Hikmalayer.Consensus.Extension

open Outcome

namespace DateTime

/-- Between regular timestamps no leap second is passed. -/
theorem leapAdjust_regular {a b : DateTime} (ha : a.inLeapSecond = false)
    (hb : b.inLeapSecond = false) : leapAdjust a b = 0 := by
  unfold leapAdjust
  simp [ha, hb]

/-- The seconds since a regular timestamp grow with regular time. -/
theorem numSecondsSince_mono {tip a b : DateTime} (htip : tip.inLeapSecond = false)
    (ha : a.inLeapSecond = false) (hb : b.inLeapSecond = false) (h : ¬ b.before a) :
    a.numSecondsSince tip ≤ b.numSecondsSince tip := by
  have hle := nanoseconds_le_of_not_before hb h
  have hzero : a.leapSeconds = 0 := by
    rw [leapSeconds, ha]
    rfl
  rw [numSecondsSince_eq, numSecondsSince_eq, nanosecondsSince, nanosecondsSince,
    leapAdjust_regular ha htip, leapAdjust_regular hb htip]
  apply Int.tdiv_le_tdiv (by decide)
  omega

end DateTime

namespace Blockchain

variable {E : Node} {chain : Blockchain} {tip block : Block} {v randomness : String}
  {index total : UInt64} {set : List Staker} {rounds : List UInt64}

/-! ## Open rounds -/

theorem mem_roundList {n : ℕ} (hn : n < 2 ^ 64) {r : UInt64} : r ∈ roundList n ↔ r.toNat ≤ n := by
  rw [roundList, List.mem_map]
  constructor
  · rintro ⟨i, hi, rfl⟩
    rw [List.mem_range, Nat.lt_succ_iff] at hi
    rw [Word.toNat_ofNat_of_lt (by omega)]
    exact hi
  · intro hr
    exact ⟨r.toNat, List.mem_range.mpr (Nat.lt_succ_of_le hr), UInt64.ofNat_toNat⟩

instance : Std.Asymm (fun q r : UInt64 => q < r) where
  asymm _ _ h := UInt64.lt_asymm h

theorem sorted_roundList {n : ℕ} (hn : n < 2 ^ 64) : (roundList n).Pairwise (· < ·) := by
  rw [roundList, List.pairwise_map]
  refine List.Pairwise.imp_of_mem ?_ List.pairwise_lt_range
  intro i j hi hj hij
  rw [List.mem_range, Nat.lt_succ_iff] at hi hj
  rw [UInt64.lt_iff_toNat_lt, Word.toNat_ofNat_of_lt (by omega), Word.toNat_ofNat_of_lt (by omega)]
  exact hij

theorem openRounds_lt (parentTs blockTs : DateTime) : openRounds parentTs blockTs < 2 ^ 64 := by
  have hmax : openRounds parentTs blockTs ≤ maxSlotRounds := by
    unfold openRounds
    dsimp only
    split
    · exact Nat.zero_le _
    · exact Nat.min_le_right _ _
  exact lt_of_le_of_lt hmax (by decide)

/-- As regular time passes, rounds only open. -/
theorem openRounds_mono {parentTs a b : DateTime} (hp : parentTs.inLeapSecond = false)
    (ha : a.inLeapSecond = false) (hb : b.inLeapSecond = false) (h : ¬ b.before a) :
    openRounds parentTs a ≤ openRounds parentTs b := by
  have hmono := DateTime.numSecondsSince_mono hp ha hb h
  unfold openRounds
  dsimp only
  split_ifs with hnone hnone'
  · exact le_rfl
  · exact Nat.zero_le _
  · omega
  · apply min_le_min_right
    exact Int.toNat_le_toNat (Int.tdiv_le_tdiv (by decide) hmono)

/-! ## The draw -/

/-- The leader that a seed draws from a set whose stakes add up. -/
def drawn (E : Env) (set : List Staker) (seed : String) : Option String :=
  match (Pos.selectStakerWithSeed E seed set : Outcome String _) with
  | ok leader => leader
  | _ => none

/-- The leader of a round. -/
def drawnAt (E : Env) (set : List Staker) (randomness : String) (index round : UInt64) :
    Option String :=
  drawn E set (Vrf.slotInputAtRound randomness index round)

theorem scanStakers_returns {ε : Type} (set : List Staker) :
    ∀ point : UInt64, ∃ leader, (Pos.scanStakers point set : Outcome ε _) = ok leader := by
  induction set with
  | nil => exact fun _ => ⟨none, rfl⟩
  | cons staker rest ih =>
    intro point
    unfold Pos.scanStakers
    by_cases hinside : point < staker.stake
    · exact ⟨some staker.address, if_pos hinside⟩
    · have hle : staker.stake.toNat ≤ point.toNat := by
        rw [UInt64.lt_iff_toNat_lt] at hinside
        omega
      rw [if_neg hinside, Word.checkedSub_of_le hle, plain_some, ok_bind]
      exact ih _

/-- A draw from stakes that add up returns. -/
theorem selectStakerWithSeed_drawn {ε : Type} {E : Env}
    (hsum : Word.checkedSum (set.map Staker.stake) = some total) (seed : String) :
    (Pos.selectStakerWithSeed E seed set : Outcome ε _) = ok (drawn E set seed) := by
  have hreturns : ∃ leader, (Pos.selectStakerWithSeed E seed set : Outcome String _) = ok leader := by
    unfold Pos.selectStakerWithSeed
    rw [hsum, plain_some, ok_bind]
    by_cases hzero : total = 0
    · exact ⟨none, if_pos hzero⟩
    · rw [if_neg hzero]
      exact scanStakers_returns set _
  obtain ⟨leader, hleader⟩ := hreturns
  have hread : drawn E set seed = leader := by rw [drawn, hleader]
  rw [hread]
  exact selectStakerWithSeed_ok_iff.mp hleader

/-- A draw that returns is from stakes that add up. -/
theorem sum_of_selectStakerWithSeed {ε : Type} {E : Env} {seed : String} {leader : Option String}
    (h : (Pos.selectStakerWithSeed E seed set : Outcome ε _) = ok leader) :
    ∃ total, Word.checkedSum (set.map Staker.stake) = some total := by
  simp only [Pos.selectStakerWithSeed, Outcome.bind_eq_ok, plain_eq_ok] at h
  obtain ⟨total, hsum, -⟩ := h
  exact ⟨total, hsum⟩

/-! ## The three searches -/

/-- A round with its slot input. -/
def withInput (randomness : String) (index round : UInt64) : UInt64 × String :=
  (round, Vrf.slotInputAtRound randomness index round)

/-- A listed leader with its slot input. -/
def listedAt (randomness : String) (index : UInt64) (l : UInt64 × String) :
    UInt64 × String × String :=
  (l.1, l.2, Vrf.slotInputAtRound randomness index l.1)

theorem eligibleRound_eq {E : Env} (hsum : Word.checkedSum (set.map Staker.stake) = some total) :
    eligibleRound E randomness index set v rounds =
      ok ((Rotation.first (drawnAt E set randomness index) v rounds).map
        (withInput randomness index)) := by
  induction rounds with
  | nil => rfl
  | cons round rest ih =>
    unfold eligibleRound
    simp only [selectStakerWithSeed_drawn hsum, ok_bind]
    rw [Rotation.first_cons]
    change (if drawnAt E set randomness index round = some v then _ else _) = _
    by_cases hmine : drawnAt E set randomness index round = some v
    · rw [if_pos hmine, if_pos hmine]
      rfl
    · rw [if_neg hmine, if_neg hmine]
      exact ih

theorem findSlot_eq {ε : Type} {E : Env}
    (hsum : Word.checkedSum (set.map Staker.stake) = some total) :
    (findSlot E randomness index set v rounds : Outcome ε _) =
      ok ((Rotation.first (drawnAt E set randomness index) v rounds).map
        (Vrf.slotInputAtRound randomness index)) := by
  induction rounds with
  | nil => rfl
  | cons round rest ih =>
    unfold findSlot
    simp only [selectStakerWithSeed_drawn hsum, ok_bind]
    rw [Rotation.first_cons]
    change (if drawnAt E set randomness index round = some v then _ else _) = _
    by_cases hmine : drawnAt E set randomness index round = some v
    · rw [if_pos hmine, if_pos hmine]
      rfl
    · rw [if_neg hmine, if_neg hmine]
      exact ih

theorem leadersOf_eq {E : Env} (hsum : Word.checkedSum (set.map Staker.stake) = some total) :
    ∀ {listed : List (UInt64 × String)},
      leadersOf E randomness index set (listed.map (listedAt randomness index)) rounds =
        ok ((Rotation.listing (drawnAt E set randomness index) listed rounds).map
          (listedAt randomness index)) := by
  induction rounds with
  | nil => exact rfl
  | cons round rest ih =>
    intro listed
    have hdraw : (Pos.selectStakerWithSeed E (Vrf.slotInputAtRound randomness index round) set :
        Outcome String _) = ok (drawnAt E set randomness index round) :=
      selectStakerWithSeed_drawn hsum _
    unfold leadersOf Rotation.listing
    simp only [hdraw, ok_bind]
    cases drawnAt E set randomness index round with
    | none => exact ih
    | some leader =>
      dsimp only
      have hany : ((listed.map (listedAt randomness index)).any fun l => l.2.1 = leader) =
          listed.any fun l => l.2 = leader := by
        rw [List.any_map]
        rfl
      rw [hany]
      split
      · exact ih
      · rw [← ih, List.map_append]
        rfl

/-! ## What a search returns -/

/-- The draws at the height after the tip. -/
def draws (E : Env) (chain : Blockchain) (index : UInt64) : UInt64 → Option String :=
  drawnAt E chain.state.validatorSet chain.randomness index

/-- The stakes that the next slot is drawn from add up. -/
def StakesAdd (chain : Blockchain) : Prop :=
  ∃ total, Word.checkedSum (chain.state.validatorSet.map Staker.stake) = some total

theorem StakesAdd.leaderAt (h : StakesAdd chain) (index round : UInt64) :
    leaderAt E chain index round = ok (draws E chain index round) := by
  obtain ⟨total, hsum⟩ := h
  exact selectStakerWithSeed_drawn hsum _

/-- A producer's search that returns is a search through the draws of the open rounds. -/
theorem eligibleSlotFor_eq_ok {now : DateTime} {x : Option (UInt64 × String)}
    (htip : chain.blocks.getLast? = some tip) :
    eligibleSlotFor E chain now v = ok x ↔ StakesAdd chain ∧ ∃ index,
      chain.nextIndex = (ok index : Outcome String _) ∧
        x = (Rotation.first (draws E chain index) v
          (roundList (openRounds tip.timestamp now))).map (withInput chain.randomness index) := by
  unfold eligibleSlotFor
  rw [htip]
  dsimp only
  rw [Outcome.bind_eq_ok]
  constructor
  · rintro ⟨index, hindex, h⟩
    have hadd : StakesAdd chain := by
      rw [Sample.roundList_eq] at h
      unfold eligibleRound at h
      rw [Outcome.bind_eq_ok] at h
      obtain ⟨leader, hleader, -⟩ := h
      exact sum_of_selectStakerWithSeed hleader
    obtain ⟨total, hsum⟩ := hadd
    rw [eligibleRound_eq hsum, ok.injEq] at h
    exact ⟨⟨total, hsum⟩, index, hindex, h.symm⟩
  · rintro ⟨⟨total, hsum⟩, index, hindex, rfl⟩
    exact ⟨index, hindex, eligibleRound_eq hsum⟩

theorem openLeaders_eq_ok {now : DateTime} {leaders : List (UInt64 × String × String)}
    (htip : chain.blocks.getLast? = some tip) :
    openLeaders E chain now = ok leaders ↔ StakesAdd chain ∧ ∃ index,
      chain.nextIndex = (ok index : Outcome String _) ∧
        leaders = (Rotation.listing (draws E chain index) []
          (roundList (openRounds tip.timestamp now))).map (listedAt chain.randomness index) := by
  unfold openLeaders
  rw [htip]
  dsimp only
  rw [Outcome.bind_eq_ok]
  have hlist : ∀ {total index}, Word.checkedSum (chain.state.validatorSet.map Staker.stake) =
      some total → leadersOf E chain.randomness index chain.state.validatorSet []
        (roundList (openRounds tip.timestamp now)) = _ :=
    fun {_ _} hsum => @leadersOf_eq chain.randomness _ _ _ _ E hsum []
  constructor
  · rintro ⟨index, hindex, h⟩
    have hadd : StakesAdd chain := by
      rw [Sample.roundList_eq] at h
      unfold leadersOf at h
      rw [Outcome.bind_eq_ok] at h
      obtain ⟨leader, hleader, -⟩ := h
      exact sum_of_selectStakerWithSeed hleader
    obtain ⟨total, hsum⟩ := hadd
    rw [hlist hsum, ok.injEq] at h
    exact ⟨⟨total, hsum⟩, index, hindex, h.symm⟩
  · rintro ⟨⟨total, hsum⟩, index, hindex, rfl⟩
    exact ⟨index, hindex, hlist hsum⟩

/-- The validator's search goes through the draws of the rounds open at the block's timestamp. -/
theorem slotOf_eq (h : StakesAdd chain) (htip : chain.blocks.getLast? = some tip)
    (hv : block.validator = some v) : slotOf E chain block =
      ok ((Rotation.first (draws E chain block.index) v
        (roundList (openRounds tip.timestamp block.timestamp))).map
          (Vrf.slotInputAtRound chain.randomness block.index)) := by
  obtain ⟨total, hsum⟩ := h
  rw [slotOf, htip, hv]
  exact findSlot_eq hsum

/-! ## The producer and the validator -/

/-- The validator resolves a block to the round `r`: it is open at the block's timestamp, the
block's producer leads it and no earlier round, and `input` is its slot input, which the VRF output
of a valid block proves under the registered key. -/
structure ResolvesTo (E : Node) (chain : Blockchain) (tip block : Block) (r : UInt64)
    (input : String) : Prop where
  opened : r.toNat ≤ openRounds tip.timestamp block.timestamp
  leads : leaderAt E chain block.index r = ok block.validator
  first : ∀ q < r, leaderAt E chain block.index q ≠ ok block.validator
  input_eq : input = Vrf.slotInputAtRound chain.randomness block.index r
  slot : slotOf E chain block = ok (some input)
  proves : ∀ place post, chain.nextPosition tip.timestamp = (ok place : Outcome String _) →
    validateBlockAt E block place chain.state = ok post →
      ∃ output proof, block.vrfOutput = some output ∧ block.vrfProof = some proof ∧
        Vrf.verify E input (chain.registeredVrfKey block) output proof = true

/-- A valid block proves the slot input that the validator's search finds. -/
theorem proves_of_slotOf {place : Position} {post : ChainState} {input : String}
    (htip : chain.blocks.getLast? = some tip)
    (hplace : chain.nextPosition tip.timestamp = (ok place : Outcome String _))
    (hvalid : validateBlockAt E block place chain.state = ok post)
    (hslot : slotOf E chain block = ok (some input)) :
    ∃ output proof, block.vrfOutput = some output ∧ block.vrfProof = some proof ∧
      Vrf.verify E input (chain.registeredVrfKey block) output proof = true := by
  simp only [nextPosition, Outcome.bind_eq_ok, pure_eq, ok.injEq] at hplace
  obtain ⟨index, -, rfl⟩ := hplace
  simp only [validateBlockAt, Outcome.bind_eq_ok] at hvalid
  obtain ⟨_, -, validator, hproducer, -⟩ := hvalid
  obtain ⟨slot, output, proof, hvalidator, hfound, houtput, hproof, hverify⟩ :=
    checkProducer_vrf hproducer
  rw [slotOf, htip, hvalidator] at hslot
  have hsame := hslot.symm.trans hfound
  rw [ok.injEq, Option.some.injEq] at hsame
  refine ⟨output, proof, houtput, hproof, ?_⟩
  rw [registeredVrfKey, hvalidator, hsame]
  exact hverify

/-- The round that the producer finds is the round to which a block is resolved for which it is
open. -/
theorem resolvesTo_of_eligible {now : DateTime} {r : UInt64} {input : String}
    (h : eligibleSlotFor E chain now v = ok (some (r, input)))
    (htip : chain.blocks.getLast? = some tip) (hv : block.validator = some v)
    (hindex : chain.nextIndex = (ok block.index : Outcome String _))
    (hopen : r.toNat ≤ openRounds tip.timestamp block.timestamp) :
    ResolvesTo E chain tip block r input := by
  obtain ⟨hadd, index, hindex', heq⟩ := (eligibleSlotFor_eq_ok htip).mp h
  rw [hindex, ok.injEq] at hindex'
  subst hindex'
  obtain ⟨r', hfirst, hinput⟩ := Option.map_eq_some_iff.mp heq.symm
  rw [withInput, Prod.mk.injEq] at hinput
  obtain ⟨rfl, rfl⟩ := hinput
  have hlt := openRounds_lt tip.timestamp now
  have hlt' := openRounds_lt tip.timestamp block.timestamp
  obtain ⟨-, hdraw, hleast⟩ := (Rotation.first_eq_some (sorted_roundList hlt)).mp hfirst
  have hbefore : ∀ q < r', draws E chain block.index q ≠ some v := by
    intro q hq
    refine hleast q ?_ hq
    have hmem := (mem_roundList hlt).mp ((Rotation.first_eq_some (sorted_roundList hlt)).mp hfirst).1
    rw [mem_roundList hlt]
    exact (UInt64.lt_iff_toNat_lt.mp hq).le.trans hmem
  have hfirst' : Rotation.first (draws E chain block.index) v
      (roundList (openRounds tip.timestamp block.timestamp)) = some r' :=
    (Rotation.first_eq_some (sorted_roundList hlt')).mpr
      ⟨(mem_roundList hlt').mpr hopen, hdraw, fun q _ hq => hbefore q hq⟩
  have hslot : slotOf E chain block =
      ok (some (Vrf.slotInputAtRound chain.randomness block.index r')) := by
    rw [slotOf_eq hadd htip hv, hfirst']
    rfl
  refine ⟨hopen, ?_, ?_, rfl, hslot, fun place post hplace hvalid =>
    proves_of_slotOf htip hplace hvalid hslot⟩
  · rw [hadd.leaderAt, hv, hdraw]
  · intro q hq
    rw [hadd.leaderAt, hv, ne_eq, ok.injEq]
    exact hbefore q hq

/-- The producer of a block is not selected for it: after the checks on its place the block is
refused for want of validators, or because its producer leads no open round. -/
def NotSelected (E : Node) (chain : Blockchain) (block : Block) (place : Position) : Prop :=
  (∀ post, validateBlockAt E block place chain.state ≠ ok post) ∧
    (checkPosition block place = ok () →
      validateBlockAt E block place chain.state =
          err (.structural "No validators registered at parent state") ∨
        validateBlockAt E block place chain.state =
          err (.misbehaviour "Block validator does not match PoS selection for any open round"))

/-- A block that is dated at the time of a search without result is refused. -/
theorem notSelected_of_ineligible {now : DateTime} {place : Position}
    (h : eligibleSlotFor E chain now v = ok none) (htip : chain.blocks.getLast? = some tip)
    (hplace : chain.nextPosition tip.timestamp = (ok place : Outcome String _))
    (hv : block.validator = some v) (htime : block.timestamp = now) :
    NotSelected E chain block place := by
  obtain ⟨⟨total, hsum⟩, index, hindex, heq⟩ := (eligibleSlotFor_eq_ok htip).mp h
  have hfirst := Option.map_eq_none_iff.mp heq.symm
  simp only [nextPosition, Outcome.bind_eq_ok, pure_eq, ok.injEq] at hplace
  obtain ⟨index', hindex', rfl⟩ := hplace
  rw [hindex, ok.injEq] at hindex'
  subst hindex'
  have hrefused : ∀ u : Unit,
      checkPosition block ⟨index, chain.latestHash, chain.randomness, tip.timestamp,
        chain.currentDifficulty⟩ = ok u →
      validateBlockAt E block ⟨index, chain.latestHash, chain.randomness, tip.timestamp,
          chain.currentDifficulty⟩ chain.state =
        err (.structural "No validators registered at parent state") ∨
      validateBlockAt E block ⟨index, chain.latestHash, chain.randomness, tip.timestamp,
          chain.currentDifficulty⟩ chain.state =
        err (.misbehaviour "Block validator does not match PoS selection for any open round") := by
    intro u hpos
    have hheight : block.index = index := by
      simp only [checkPosition, Outcome.bind_eq_ok, ensure_eq_ok] at hpos
      obtain ⟨_, hindex, -⟩ := hpos
      exact hindex
    have hnone : (findSlot E chain.randomness index chain.state.validatorSet v
        (roundList (openRounds tip.timestamp now)) : Outcome BlockError _) = ok none := by
      rw [findSlot_eq hsum]
      exact congrArg ok (Option.map_eq_none_iff.mpr hfirst)
    unfold validateBlockAt
    rw [hpos, ok_bind]
    unfold checkProducer
    dsimp only
    rw [hheight, selectStakerWithSeed_drawn hsum, ok_bind, htime, hv]
    by_cases hprimary : drawn E chain.state.validatorSet (Vrf.slotInput chain.randomness index) = none
    · left
      rw [ensure_neg (by simpa using hprimary)]
      rfl
    · right
      rw [ensure_pos hprimary, ok_bind, plain_some, ok_bind, hnone, ok_bind, okOr_none]
      rfl
  refine ⟨fun post hok => ?_, hrefused ()⟩
  have hpos : ∃ u, checkPosition block ⟨index, chain.latestHash, chain.randomness, tip.timestamp,
      chain.currentDifficulty⟩ = ok u := by
    simp only [validateBlockAt, Outcome.bind_eq_ok] at hok
    obtain ⟨u, hpos, -⟩ := hok
    exact ⟨u, hpos⟩
  obtain ⟨u, hpos⟩ := hpos
  rcases hrefused u hpos with hr | hr <;> rw [hr] at hok <;> cases hok

/-- The listing is ordered by round, has no leader twice, and has a leader exactly at the round
that the leader's own search finds. -/
structure Lists (E : Node) (chain : Blockchain) (now : DateTime)
    (leaders : List (UInt64 × String × String)) : Prop where
  ordered : (leaders.map Prod.fst).Pairwise (· < ·)
  distinct : (leaders.map fun l => l.2.1).Nodup
  mem_iff : ∀ r v input, (r, v, input) ∈ leaders ↔
    eligibleSlotFor E chain now v = ok (some (r, input))

theorem openLeaders_lists {now : DateTime} {leaders : List (UInt64 × String × String)}
    (h : openLeaders E chain now = ok leaders) : Lists E chain now leaders := by
  cases htip : chain.blocks.getLast? with
  | none =>
    have hnone : ∀ v, eligibleSlotFor E chain now v = ok none := by
      intro v
      rw [eligibleSlotFor, htip]
    rw [openLeaders, htip, ok.injEq] at h
    subst h
    refine ⟨List.Pairwise.nil, List.nodup_nil, fun r v input => ?_⟩
    rw [hnone v]
    exact iff_of_false List.not_mem_nil (by simp)
  | some tip =>
    obtain ⟨hadd, index, hindex, rfl⟩ := (openLeaders_eq_ok htip).mp h
    have hsorted := sorted_roundList (openRounds_lt tip.timestamp now)
    refine ⟨?_, ?_, fun r v input => ?_⟩
    · rw [List.map_map]
      exact Rotation.sorted_listing hsorted List.Pairwise.nil (by simp)
    · rw [List.map_map]
      exact Rotation.nodup_listing List.nodup_nil
    · rw [eligibleSlotFor_eq_ok htip, List.mem_map]
      constructor
      · rintro ⟨⟨q, a⟩, hmem, heq⟩
        rw [listedAt, Prod.mk.injEq, Prod.mk.injEq] at heq
        obtain ⟨rfl, rfl, rfl⟩ := heq
        rcases Rotation.mem_listing.mp hmem with hnil | ⟨-, hfirst⟩
        · exact absurd hnil List.not_mem_nil
        · exact ⟨hadd, index, hindex, by rw [hfirst]; rfl⟩
      · rintro ⟨-, index', hindex', heq⟩
        rw [hindex, ok.injEq] at hindex'
        subst hindex'
        obtain ⟨q, hfirst, hinput⟩ := Option.map_eq_some_iff.mp heq.symm
        rw [withInput, Prod.mk.injEq] at hinput
        obtain ⟨rfl, rfl⟩ := hinput
        exact ⟨(q, v), Rotation.mem_listing.mpr (.inr ⟨by simp, hfirst⟩), rfl⟩

/-- Where one producer's search returns, the listing does. -/
theorem openLeaders_returns {now : DateTime} {x : Option (UInt64 × String)}
    (h : eligibleSlotFor E chain now v = ok x) : ∃ leaders, openLeaders E chain now = ok leaders := by
  cases htip : chain.blocks.getLast? with
  | none => exact ⟨[], by rw [openLeaders, htip]⟩
  | some tip =>
    obtain ⟨hadd, index, hindex, -⟩ := (eligibleSlotFor_eq_ok htip).mp h
    exact ⟨_, (openLeaders_eq_ok htip).mpr ⟨hadd, index, hindex, rfl⟩⟩

/-- A round that a search finds at a clock reading is open for every later block, unless the tip
or the block is dated inside a leap second. -/
theorem opened_of_eligible {now : DateTime.Reading} {r : UInt64} {input : String}
    (h : eligibleSlotFor E chain now.time v = ok (some (r, input)))
    (htip : chain.blocks.getLast? = some tip) (hlater : ¬ block.timestamp.before now.time)
    (htipReg : tip.timestamp.inLeapSecond = false) (hblockReg : block.timestamp.inLeapSecond = false) :
    r.toNat ≤ openRounds tip.timestamp block.timestamp := by
  obtain ⟨-, index, -, heq⟩ := (eligibleSlotFor_eq_ok htip).mp h
  obtain ⟨q, hfirst, hinput⟩ := Option.map_eq_some_iff.mp heq.symm
  rw [withInput, Prod.mk.injEq] at hinput
  obtain ⟨rfl, -⟩ := hinput
  have hlt := openRounds_lt tip.timestamp now.time
  have hmem := ((Rotation.first_eq_some (sorted_roundList hlt)).mp hfirst).1
  exact ((mem_roundList hlt).mp hmem).trans
    (openRounds_mono htipReg now.regular hblockReg hlater)

/-- The producer's view is the validator's.  A block of the producer for which the round of the
search is open, as it is for every later one when no leap second is written in the tip or the
block, is resolved to that round and slot input; a search without result means that no block dated
at its time is accepted; and the listing has every leader that is found, once, where it is found,
by increasing round. -/
theorem eligibility_agrees (E : Node) (chain : Blockchain) (now : DateTime.Reading) :
    (∀ v r input tip block, eligibleSlotFor E chain now.time v = ok (some (r, input)) →
      chain.blocks.getLast? = some tip → block.validator = some v →
      chain.nextIndex = (ok block.index : Outcome String _) →
        (r.toNat ≤ openRounds tip.timestamp block.timestamp ↔
          ResolvesTo E chain tip block r input) ∧
        (¬ block.timestamp.before now.time → tip.timestamp.inLeapSecond = false →
          block.timestamp.inLeapSecond = false → ResolvesTo E chain tip block r input)) ∧
    (∀ v tip block place, eligibleSlotFor E chain now.time v = ok none →
      chain.blocks.getLast? = some tip →
      chain.nextPosition tip.timestamp = (ok place : Outcome String _) →
      block.validator = some v → block.timestamp = now.time → NotSelected E chain block place) ∧
    (∀ leaders, openLeaders E chain now.time = ok leaders → Lists E chain now.time leaders) ∧
    ∀ v x, eligibleSlotFor E chain now.time v = ok x →
      ∃ leaders, openLeaders E chain now.time = ok leaders := by
  refine ⟨fun v r input tip block h htip hv hindex => ⟨⟨fun hopen => ?_, fun hres => hres.opened⟩,
    fun hlater htipReg hblockReg => ?_⟩, fun v tip block place h htip hplace hv htime => ?_,
    fun leaders h => openLeaders_lists h, fun v x h => openLeaders_returns h⟩
  · exact resolvesTo_of_eligible h htip hv hindex hopen
  · exact resolvesTo_of_eligible h htip hv hindex
      (opened_of_eligible h htip hlater htipReg hblockReg)
  · exact notSelected_of_ineligible h htip hplace hv htime

end Blockchain

/-! ## A leap second between the two -/

namespace Sample

open Blockchain

/-- A twentieth of a second before midnight. -/
def evening : DateTime := ⟨morning.day, ⟨86399, by decide⟩, ⟨950000000, by decide⟩⟩

/-- Sixty seconds later on the clock, and a little more. -/
def pastMidnight : DateTime.Reading :=
  ⟨⟨morning.day + 1, ⟨59, by decide⟩, ⟨960000000, by decide⟩⟩, by decide⟩

/-- The leap second that ends the first minute of the day. -/
def leapSecond : DateTime := ⟨morning.day + 1, ⟨59, by decide⟩, ⟨1000000000, by decide⟩⟩

def eveningSupply : UInt64 := 1000000000000000006

/-- The block with which holder 8 joins holder 7 as a validator, in the evening. -/
def eveningBlock : Block :=
  sealWith rotationPool 7 7 evening 0
    (nextPlace (root rotationPool eveningSupply) (DateTime.ofTimestamp genesisTimestamp))
    ([payment, bonding, reward].map Transaction.id)
    (rootAfter rotationPool 7 1 (genesis eveningSupply)
      ([payment, bonding, reward].map Transaction.id))

/-- The beacon after the evening's block. -/
def eveningRandomness : String :=
  Vrf.nextRandomness (env rotationPool) (root rotationPool eveningSupply).randomness
    (hexEncode (vrfOutput 7
      (Vrf.slotInputAtRound (root rotationPool eveningSupply).randomness 1 0)))

/-- The chain after the evening's block. -/
def eveningChain (s : ChainState) : Blockchain :=
  (root rotationPool eveningSupply).extended eveningBlock ⟨s, eveningRandomness, 1⟩

/-- Holder 7 leads the primary and the first fallback round, holder 8 the second. -/
theorem evening_leaders :
    ((executed rotationPool 7 1 (genesis eveningSupply) [payment, bonding, reward]).any fun s =>
      (Word.checkedSum (s.validatorSet.map Staker.stake)).isSome &&
      decide (([0, 1, 2] : List UInt64).map (drawnAt (env rotationPool) s.validatorSet
        eveningRandomness 2) = [some (address 7), some (address 7), some (address 8)])) = true := by
  decide +kernel

theorem accept_eveningBlock {s : ChainState}
    (h : executed rotationPool 7 1 (genesis eveningSupply) [payment, bonding, reward] = some s) :
    accept (node rotationPool) evening (root rotationPool eveningSupply) eveningBlock =
      ok (eveningChain s) := by
  have halone : Alone (root rotationPool eveningSupply) := Alone.root (by decide)
  have hexec : executeBlock (node rotationPool) (address 7) eveningBlock
      (genesis eveningSupply) = ok s := by
    have hindex : eveningBlock.index = 1 := by decide
    unfold eveningBlock at hindex ⊢
    exact @executeBlock_of_executed rotationPool 7 1 _ s _ _ rotationPool_admitted.1 hindex rfl
      sealWith_stateRoot h
  unfold eveningBlock at hexec ⊢
  exact @accept_sole rotationPool (root rotationPool eveningSupply) 7 7 evening evening
    (genesisBlock rotationPool eveningSupply) _ _ _ s rfl (by decide) rfl (Or.inl rfl)
    (by decide) (by decide) halone.registered (by decide) halone.validators hexec

end Sample

namespace Blockchain

/-- A producer that is found past midnight for the second fallback round, two timeouts after the
tip, is refused when it dates its block into the leap second that follows: by the library's
difference fewer than two timeouts have passed there. -/
theorem eligibility_lost_in_leap_second : ∃ (chain : Blockchain) (tip : Block) (input : String),
    accept (Sample.node Sample.rotationPool) Sample.evening
      (Sample.root Sample.rotationPool Sample.eveningSupply) Sample.eveningBlock = ok chain ∧
    chain.blocks.getLast? = some tip ∧
    eligibleSlotFor (Sample.node Sample.rotationPool) chain Sample.pastMidnight.time
      (Sample.address 8) = ok (some (2, input)) ∧
    ∀ block place, block.validator = some (Sample.address 8) →
      block.timestamp = Sample.leapSecond →
      chain.nextPosition tip.timestamp = (ok place : Outcome String _) →
        ¬ block.timestamp.before Sample.pastMidnight.time ∧
          NotSelected (Sample.node Sample.rotationPool) chain block place := by
  obtain ⟨s, hs, hrest⟩ := (Option.any_eq_true _ _).mp Sample.evening_leaders
  simp only [Bool.and_eq_true, decide_eq_true_eq, List.map_cons, List.map_nil, List.cons.injEq,
    and_true] at hrest
  obtain ⟨hsum, hzero, hone, htwo⟩ := hrest
  have hadd : StakesAdd (Sample.eveningChain s) := Option.isSome_iff_exists.mp hsum
  have hindex : (Sample.eveningChain s).nextIndex = (ok 2 : Outcome String _) := rfl
  have htip : (Sample.eveningChain s).blocks.getLast? = some Sample.eveningBlock := rfl
  have hne : some (Sample.address 7) ≠ some (Sample.address 8) := by decide +kernel
  have hlate : roundList (openRounds Sample.eveningBlock.timestamp Sample.pastMidnight.time) =
      [0, 1, 2] := by decide
  have hearly : roundList (openRounds Sample.eveningBlock.timestamp Sample.leapSecond) =
      [0, 1] := by decide
  have hfound : eligibleSlotFor (Sample.node Sample.rotationPool) (Sample.eveningChain s)
      Sample.pastMidnight.time (Sample.address 8) =
        ok (some (2, Vrf.slotInputAtRound Sample.eveningRandomness 2 2)) := by
    refine (eligibleSlotFor_eq_ok htip).mpr ⟨hadd, 2, hindex, ?_⟩
    rw [hlate]
    change _ = (Rotation.first (drawnAt (Sample.env Sample.rotationPool) s.validatorSet
      Sample.eveningRandomness 2) _ _).map _
    rw [Rotation.first_cons, hzero, if_neg hne, Rotation.first_cons, hone, if_neg hne,
      Rotation.first_cons, htwo, if_pos rfl]
    rfl
  have hlost : eligibleSlotFor (Sample.node Sample.rotationPool) (Sample.eveningChain s)
      Sample.leapSecond (Sample.address 8) = ok none := by
    refine (eligibleSlotFor_eq_ok htip).mpr ⟨hadd, 2, hindex, ?_⟩
    rw [hearly]
    change _ = (Rotation.first (drawnAt (Sample.env Sample.rotationPool) s.validatorSet
      Sample.eveningRandomness 2) _ _).map _
    rw [Rotation.first_cons, hzero, if_neg hne, Rotation.first_cons, hone, if_neg hne]
    rfl
  refine ⟨Sample.eveningChain s, Sample.eveningBlock, _, Sample.accept_eveningBlock hs, htip,
    hfound, fun block place hv htime hplace => ⟨?_, ?_⟩⟩
  · rw [htime]
    decide
  · exact notSelected_of_ineligible hlost htip hplace hv htime

end Blockchain
