/-
# Genesis is sound

Whatever the network parameters, the genesis of a well-formed treasury satisfies the
invariant of the ledger and holds exactly its supply, also after the hybrid genesis
validator has been completed or taken out of the validator set.
-/
import Mathlib.Tactic
import Hikmalayer.Ledger.EndBlock

open Outcome Exec OrderedMap

namespace ChainState

variable {E : Env} {s s' : ChainState} {treasury chainId publicKey : String} {supply : UInt64}
  {vrfPublicKey treasuryPublicKey : Option String} {allowlist : List String}

/-- The genesis states of a network: `genesis_for_chain` for a well-formed treasury, under
either signature policy, before or after the rule that seats the genesis validator. -/
inductive GenesisState (E : Env) (supply : UInt64) : ChainState → Prop
  | built (chainId treasury : String) (treasuryPublicKey treasuryVrfPublicKey : Option String)
      (allowlist : List String) (hv : isValidAddress treasury = true) :
      GenesisState E supply
        (genesisForChain chainId treasury treasuryPublicKey treasuryVrfPublicKey supply allowlist)
  | policy {s : ChainState} (required : Bool) (h : GenesisState E supply s) :
      GenesisState E supply { s with requireHybridSignatures := required }
  | seated {s : ChainState} (treasury : String) (pqPublicKey : Option String)
      (hv : isValidAddress treasury = true) (h : GenesisState E supply s) :
      GenesisState E supply (seatGenesisValidatorPqKey E s treasury pqPublicKey)

/-- What holds of a ledger before its first block. -/
structure Fresh (supply : UInt64) (s : ChainState) : Prop where
  sound : Sound s
  conserved : Conserved s
  feePot : s.feePot = 0
  totalSupply : s.totalSupply = supply
  burned : s.burned = 0
  nonces : s.nonces = ∅

/-! ## The treasury alone -/

/-- The state that holds the whole supply on the treasury, without validators. -/
def treasuryOnly (chainId treasury : String) (supply : UInt64) (allowlist : List String) :
    ChainState :=
  genesisForChain chainId treasury none none supply allowlist

theorem treasuryOnly_sound (hv : isValidAddress treasury = true) :
    Sound (treasuryOnly chainId treasury supply allowlist) where
  addressed := ⟨fun k hk => absurd hk Std.ExtTreeMap.not_mem_empty,
    fun k hk => absurd hk Std.ExtTreeMap.not_mem_empty,
    fun k hk => absurd hk Std.ExtTreeMap.not_mem_empty⟩
  staking := by
    change (valueAt ((∅ : BTreeMap UInt64).insert treasury supply) stakingPoolAccount).toNat =
      total _ ∅ + total _ ∅
    rw [valueAt_insert_of_ne supply (ne_stakingPool hv), valueAt_empty, total_empty, total_empty]
    rfl
  vesting := by
    change (valueAt ((∅ : BTreeMap UInt64).insert treasury supply) vestingPoolAccount).toNat =
      total _ ∅
    rw [valueAt_insert_of_ne supply (ne_vestingPool hv), valueAt_empty, total_empty]
    rfl
  amm := by
    change (valueAt ((∅ : BTreeMap UInt64).insert treasury supply) ammPoolAccount).toNat =
      total _ ∅
    rw [valueAt_insert_of_ne supply (ne_ammPool hv), valueAt_empty, total_empty]
    rfl
  ammTokens := by
    intro t
    change (valueAt (mapAt ∅ t) ammPoolAccount).toNat = share _ ∅ t
    simp [mapAt, share]
  schedules := by
    intro k l hl
    change (∅ : BTreeMap (List VestingEntry))[k]? = some l at hl
    simp at hl
  pools := by
    refine ⟨fun t p hp => ?_, fun t _ => ?_⟩
    · change (∅ : BTreeMap Pool)[t]? = some p at hp
      simp at hp
    · change sumOf (mapAt ∅ t) = 0
      simp [mapAt]
  tokens := by
    intro t
    change sumOf (mapAt ∅ t) = share _ ∅ t
    simp [mapAt, share]
  baseFee := by
    have h : txFee.toNat ≤ baseFeeMax.toNat := by decide
    exact ⟨le_rfl, h⟩

theorem treasuryOnly_fresh (hv : isValidAddress treasury = true) :
    Fresh supply (treasuryOnly chainId treasury supply allowlist) where
  sound := treasuryOnly_sound hv
  conserved := by
    have h := sumOf_insert ∅ treasury supply
    rw [valueAt_empty, sumOf_empty, UInt64.toNat_zero] at h
    change sumOf ((∅ : BTreeMap UInt64).insert treasury supply) + (0 : UInt64).toNat =
      supply.toNat
    rw [UInt64.toNat_zero]
    omega
  feePot := rfl
  totalSupply := rfl
  burned := rfl
  nonces := rfl

/-! ## The genesis validator -/

/-- Bonding the treasury moves part of its balance into the staking pool. -/
theorem bondTreasury_fresh (hv : isValidAddress treasury = true) :
    Fresh supply ((treasuryOnly chainId treasury supply allowlist).bondTreasury treasury publicKey
      vrfPublicKey supply) := by
  have hf : Fresh supply (treasuryOnly chainId treasury supply allowlist) :=
    treasuryOnly_fresh hv
  set s := treasuryOnly chainId treasury supply allowlist with hs
  set stake := min genesisValidatorStake supply
  have hmin : stake.toNat ≤ supply.toNat := by
    rw [Word.min_toNat]
    exact min_le_right _ _
  have hbal : valueAt s.balances treasury = supply := valueAt_insert_self _ _ _
  have hpool : valueAt s.balances stakingPoolAccount = 0 := by
    rw [hs]
    change valueAt ((∅ : BTreeMap UInt64).insert treasury supply) _ = 0
    rw [valueAt_insert_of_ne supply (ne_stakingPool hv), valueAt_empty]
  have hrest : (supply - stake).toNat + stake.toNat = supply.toNat :=
    Word.checkedSub_eq_some.mp (Word.checkedSub_of_le hmin)
  set b₁ := s.balances.insert treasury (supply - stake)
  have hpool₁ : valueAt b₁ stakingPoolAccount = 0 := by
    rw [valueAt_insert_of_ne _ (ne_stakingPool hv), hpool]
  set b₂ := b₁.insert stakingPoolAccount stake
  have hstate : s.bondTreasury treasury publicKey vrfPublicKey supply =
      { s with
        balances := b₂
        stakers := s.stakers.insert treasury ⟨stake, publicKey, vrfPublicKey.getD "", ""⟩ } := by
    have h : valueAt b₁ stakingPoolAccount + stake = stake := by rw [hpool₁, UInt64.zero_add]
    change { s with
      balances := (s.balances.insert treasury (valueAt s.balances treasury - stake)).insert
        stakingPoolAccount (valueAt (s.balances.insert treasury
          (valueAt s.balances treasury - stake)) stakingPoolAccount + stake)
      stakers := _ } = _
    rw [hbal]
    change { s with balances := b₁.insert stakingPoolAccount (valueAt b₁ _ + stake), stakers := _ } = _
    rw [h]
  rw [hstate]
  refine ⟨?_, ?_, rfl, rfl, rfl, rfl⟩
  · refine hf.sound.withStake (hf.sound.addressed_restake hv _ hf.sound.addressed.unbonding) ?_ ?_ ?_
    · have h₁ := bondedTotal_insert s.stakers treasury
        ⟨stake, publicKey, vrfPublicKey.getD "", ""⟩
      have h₂ := hf.sound.staking
      unfold StakingBacked at h₂ ⊢
      rw [hpool, UInt64.toNat_zero] at h₂
      have h₃ := stakeAt_le_bondedTotal s.stakers treasury
      rw [valueAt_insert_self]
      change _ = bondedTotal s.stakers + stake.toNat at h₁
      omega
    · rw [valueAt_insert_of_ne _ (by decide), valueAt_insert_of_ne _ (ne_vestingPool hv)]
    · rw [valueAt_insert_of_ne _ (by decide), valueAt_insert_of_ne _ (ne_ammPool hv)]
  · have h₁ := sumOf_insert s.balances treasury (supply - stake)
    have h₂ := sumOf_insert b₁ stakingPoolAccount stake
    have h₃ := hf.conserved
    unfold Conserved at h₃ ⊢
    change sumOf b₁ + (valueAt s.balances treasury).toNat = _ at h₁
    change sumOf b₂ + _ = _ at h₂
    rw [hbal] at h₁
    rw [hpool₁, UInt64.toNat_zero] at h₂
    change sumOf b₂ + s.feePot.toNat = s.totalSupply.toNat
    omega

/-- Taking a validator out returns its stake from the pool. -/
theorem Fresh.unseat (hf : Fresh supply s) (hv : isValidAddress treasury = true)
    {info : StakeInfo} (hi : s.stakers[treasury]? = some info) :
    Fresh supply (s.unseat treasury info) := by
  by_cases h0 : 0 < info.stake
  · have hne := ne_stakingPool hv
    have hpos : 0 < info.stake.toNat := UInt64.lt_iff_toNat_lt.mp h0
    have hback := hf.sound.staking
    have hbonded := stakeAt_le_bondedTotal s.stakers treasury
    have herase := bondedTotal_erase s.stakers treasury
    have hroom := valueAt_add_le_sumOf s.balances hne
    have hlt := hf.conserved.sumOf_lt
    rw [stakeAt_of_lookup hi] at hbonded herase
    unfold StakingBacked at hback
    have hlook : s.balances[stakingPoolAccount]? = some (valueAt s.balances stakingPoolAccount) :=
      lookup_of_valueAt_pos (by omega)
    set rest := Word.saturatingSub (valueAt s.balances stakingPoolAccount) info.stake
    have hrest : rest.toNat = _ := Word.saturatingSub_toNat _ _
    set b₁ := s.balances.insert stakingPoolAccount rest
    have hread : valueAt b₁ treasury = valueAt s.balances treasury :=
      valueAt_insert_of_ne _ hne.symm
    have hsum : (valueAt s.balances treasury + info.stake).toNat = _ :=
      Word.toNat_add_of_lt (by omega)
    set b₂ := b₁.insert treasury (valueAt s.balances treasury + info.stake)
    have hstate : s.unseat treasury info = { s.eraseStaker treasury with balances := b₂ } := by
      unfold ChainState.unseat
      rw [if_pos h0, eraseStaker_balances, hlook]
      change { s.eraseStaker treasury with
        balances := b₁.insert treasury (valueAt b₁ treasury + info.stake) } = _
      rw [hread]
    rw [hstate]
    refine ⟨?_, ?_, hf.feePot, hf.totalSupply, hf.burned, hf.nonces⟩
    · change Sound { s with
        balances := b₂, stakers := s.stakers.erase treasury, unbonding := s.unbonding }
      refine hf.sound.withStake
        ⟨fun k hk => hf.sound.addressed.staker k (Std.ExtTreeMap.mem_of_mem_erase hk),
          hf.sound.addressed.unbonding, hf.sound.addressed.vesting⟩ ?_ ?_ ?_
      · unfold StakingBacked
        rw [valueAt_insert_of_ne _ hne, valueAt_insert_self]
        omega
      · rw [valueAt_insert_of_ne _ (ne_vestingPool hv), valueAt_insert_of_ne _ (by decide)]
      · rw [valueAt_insert_of_ne _ (ne_ammPool hv), valueAt_insert_of_ne _ (by decide)]
    · have h₁ := sumOf_insert s.balances stakingPoolAccount rest
      have h₂ := sumOf_insert b₁ treasury (valueAt s.balances treasury + info.stake)
      have h₃ := hf.conserved
      change sumOf b₁ + _ = _ at h₁
      change sumOf b₂ + _ = _ at h₂
      rw [hread] at h₂
      unfold Conserved at h₃ ⊢
      change sumOf b₂ + s.feePot.toNat = s.totalSupply.toNat
      omega
  · have hzero : info.stake = 0 := by
      rw [UInt64.lt_iff_toNat_lt, UInt64.toNat_zero] at h0
      exact Word.toNat_ext (by rw [UInt64.toNat_zero]; omega)
    have hstate : s.unseat treasury info = s.eraseStaker treasury := by
      unfold ChainState.unseat
      rw [if_neg h0]
    rw [hstate]
    exact ⟨hf.sound.eraseStaker hi hzero, hf.conserved, hf.feePot, hf.totalSupply, hf.burned,
      hf.nonces⟩

/-- The seating rule keeps a fresh ledger fresh. -/
theorem Fresh.seat (hf : Fresh supply s) (hv : isValidAddress treasury = true)
    (pqPublicKey : Option String) :
    Fresh supply (seatGenesisValidatorPqKey E s treasury pqPublicKey) := by
  unfold seatGenesisValidatorPqKey
  split
  · exact hf
  · split
    · exact hf
    · rename_i info hi
      split
      · refine ⟨?_, hf.conserved, hf.feePot, hf.totalSupply, hf.burned, hf.nonces⟩
        refine hf.sound.withStake
          (hf.sound.addressed_restake hv _ hf.sound.addressed.unbonding) ?_ rfl rfl
        have h₁ := bondedTotal_insert s.stakers treasury
          { info with pqPublicKey := pqPublicKey.getD "" }
        have h₂ := hf.sound.staking
        rw [stakeAt_of_lookup hi] at h₁
        unfold StakingBacked at h₂ ⊢
        change _ = bondedTotal s.stakers + info.stake.toNat at h₁
        omega
      · exact hf.unseat hv hi

/-- No genesis state has tokens or pools. -/
theorem GenesisState.assets_empty (h : GenesisState E supply s) :
    s.tokens = ∅ ∧ s.tokenBalances = ∅ ∧ s.pools = ∅ ∧ s.lpShares = ∅ := by
  induction h with
  | built chainId treasury treasuryPublicKey treasuryVrfPublicKey allowlist hv =>
    cases treasuryPublicKey <;> exact ⟨rfl, rfl, rfl, rfl⟩
  | policy required h ih => exact ih
  | seated treasury pqPublicKey hv h ih =>
    unfold seatGenesisValidatorPqKey
    split
    · exact ih
    · split
      · exact ih
      · split
        · exact ih
        · unfold ChainState.unseat
          dsimp only
          split <;> exact ih

/-- Every genesis state is fresh. -/
theorem GenesisState.fresh (h : GenesisState E supply s) : Fresh supply s := by
  induction h with
  | built chainId treasury treasuryPublicKey treasuryVrfPublicKey allowlist hv =>
    cases treasuryPublicKey with
    | none => exact treasuryOnly_fresh hv
    | some publicKey => exact bondTreasury_fresh hv
  | policy required h ih =>
    exact ⟨⟨ih.sound.addressed, ih.sound.staking, ih.sound.vesting, ih.sound.amm,
      ih.sound.ammTokens, ih.sound.schedules, ih.sound.pools, ih.sound.tokens, ih.sound.baseFee⟩,
      ih.conserved, ih.feePot, ih.totalSupply, ih.burned, ih.nonces⟩
  | seated treasury pqPublicKey hv h ih => exact ih.seat hv pqPublicKey

end ChainState
