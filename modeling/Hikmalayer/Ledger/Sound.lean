/-
# The invariant of the ledger

`Sound` collects what the state machine keeps true whatever transactions succeed: stake,
unbonding and vesting belong to addresses, every reserve account holds exactly what it
owes, schedules are well formed, live pools are non-empty and back their shares, and the
balances of a token add up to its recorded supply.

The parts are stated on the maps they speak about, so that a write to another field keeps
them by definition.
-/
import Mathlib.Tactic
import Hikmalayer.Ledger.Branches

open Outcome Exec OrderedMap

namespace ChainState

/-! ## The parts of the invariant -/

/-- Stake, unbonding entries and vesting entries belong to addresses. -/
structure Addressed (stakers : BTreeMap StakeInfo) (unbonding : BTreeMap (List UnbondingEntry))
    (vesting : BTreeMap (List VestingEntry)) : Prop where
  staker : ∀ k, k ∈ stakers → isValidAddress k = true
  unbonding : ∀ k, k ∈ unbonding → isValidAddress k = true
  vesting : ∀ k, k ∈ vesting → isValidAddress k = true

/-- The staking pool holds the bonded and the unbonding stake. -/
def StakingBacked (balances : BTreeMap UInt64) (stakers : BTreeMap StakeInfo)
    (unbonding : BTreeMap (List UnbondingEntry)) : Prop :=
  (valueAt balances stakingPoolAccount).toNat = bondedTotal stakers + unbondingSum unbonding

/-- The vesting pool holds the unvested amounts. -/
def VestingBacked (balances : BTreeMap UInt64) (vesting : BTreeMap (List VestingEntry)) : Prop :=
  (valueAt balances vestingPoolAccount).toNat = lockedTotal vesting

/-- The AMM account holds the HKM reserves of all pools. -/
def AmmBacked (balances : BTreeMap UInt64) (pools : BTreeMap Pool) : Prop :=
  (valueAt balances ammPoolAccount).toNat = poolHkmTotal pools

/-- The AMM account holds the token reserve of every pool. -/
def AmmTokensBacked (tokenBalances : BTreeMap (BTreeMap UInt64)) (pools : BTreeMap Pool) :
    Prop :=
  ∀ t, (valueAt (mapAt tokenBalances t) ammPoolAccount).toNat = reserveTokenAt pools t

/-- A schedule with its dates in order, released no further than its total. -/
def ScheduleSound (e : VestingEntry) : Prop :=
  e.released.toNat ≤ e.total.toNat ∧ e.startHeight.toNat ≤ e.cliffHeight.toNat ∧
    e.startHeight.toNat < e.endHeight.toNat

def SchedulesSound (vesting : BTreeMap (List VestingEntry)) : Prop :=
  ∀ (k : String) (l : List VestingEntry), vesting[k]? = some l → ∀ e ∈ l, ScheduleSound e

/-- A live pool has both reserves and backs its shares and the locked minimum. -/
structure PoolSound (pool : Pool) (shares : ℕ) : Prop where
  reserveHkm : 0 < pool.reserveHkm.toNat
  reserveToken : 0 < pool.reserveToken.toNat
  totalShares : shares + minimumLiquidity.toNat = pool.totalShares.toNat

structure PoolsSound (pools : BTreeMap Pool) (lpShares : BTreeMap (BTreeMap UInt64)) : Prop where
  live : ∀ (t : String) (p : Pool), pools[t]? = some p → PoolSound p (sumOf (mapAt lpShares t))
  dead : ∀ t : String, pools[t]? = none → sumOf (mapAt lpShares t) = 0

/-- The balances of every token add up to its supply. -/
def TokensSound (tokenBalances : BTreeMap (BTreeMap UInt64)) (tokens : BTreeMap TokenInfo) :
    Prop :=
  ∀ t, sumOf (mapAt tokenBalances t) = tokenSupplyAt tokens t

/-- The base fee stays between its bounds. -/
def FeeBounded (fee : UInt64) : Prop := txFee.toNat ≤ fee.toNat ∧ fee.toNat ≤ baseFeeMax.toNat

/-- The invariant of the ledger. -/
structure Sound (s : ChainState) : Prop where
  addressed : Addressed s.stakers s.unbonding s.vesting
  staking : StakingBacked s.balances s.stakers s.unbonding
  vesting : VestingBacked s.balances s.vesting
  amm : AmmBacked s.balances s.pools
  ammTokens : AmmTokensBacked s.tokenBalances s.pools
  schedules : SchedulesSound s.vesting
  pools : PoolsSound s.pools s.lpShares
  tokens : TokensSound s.tokenBalances s.tokens
  baseFee : FeeBounded s.baseFee

/-! ## Reserve accounts are not addresses -/

theorem ne_stakingPool {a : String} (h : isValidAddress a = true) : a ≠ stakingPoolAccount := by
  rintro rfl
  exact absurd h (by decide)

theorem ne_vestingPool {a : String} (h : isValidAddress a = true) : a ≠ vestingPoolAccount := by
  rintro rfl
  exact absurd h (by decide)

theorem ne_ammPool {a : String} (h : isValidAddress a = true) : a ≠ ammPoolAccount := by
  rintro rfl
  exact absurd h (by decide)

/-- Writing at another key does not change what is read. -/
theorem valueAt_insert_of_ne {m : BTreeMap UInt64} {k a : String} (v : UInt64) (h : k ≠ a) :
    valueAt (m.insert k v) a = valueAt m a := by
  rw [valueAt_insert, if_neg h]

theorem valueAt_insert_self (m : BTreeMap UInt64) (k : String) (v : UInt64) :
    valueAt (m.insert k v) k = v := by
  rw [valueAt_insert, if_pos rfl]

/-- Replace all HKM balances. -/
@[simps] def setBalances (s : ChainState) (balances : BTreeMap UInt64) : ChainState :=
  { s with balances }

namespace Sound

variable {E : Node} {s s' : ChainState} {tx : Transaction} {height : UInt64} {u : Unit}

/-! ## Writes that the invariant does not see -/

theorem setNonce (hs : Sound s) (a : String) (n : UInt64) : Sound (s.setNonce a n) :=
  ⟨hs.addressed, hs.staking, hs.vesting, hs.amm, hs.ammTokens, hs.schedules, hs.pools, hs.tokens,
    hs.baseFee⟩

theorem setFeePot (hs : Sound s) (v : UInt64) : Sound (s.setFeePot v) :=
  ⟨hs.addressed, hs.staking, hs.vesting, hs.amm, hs.ammTokens, hs.schedules, hs.pools, hs.tokens,
    hs.baseFee⟩

theorem setBaseFee (hs : Sound s) {v : UInt64} (hv : FeeBounded v) : Sound (s.setBaseFee v) :=
  ⟨hs.addressed, hs.staking, hs.vesting, hs.amm, hs.ammTokens, hs.schedules, hs.pools, hs.tokens,
    hv⟩

theorem setSupply (hs : Sound s) (v w : UInt64) : Sound (s.setSupply v w) :=
  ⟨hs.addressed, hs.staking, hs.vesting, hs.amm, hs.ammTokens, hs.schedules, hs.pools, hs.tokens,
    hs.baseFee⟩

theorem setOffense (hs : Sound s) (k : String) (v : UInt64) : Sound (s.setOffense k v) :=
  ⟨hs.addressed, hs.staking, hs.vesting, hs.amm, hs.ammTokens, hs.schedules, hs.pools, hs.tokens,
    hs.baseFee⟩

theorem setCredential (hs : Sound s) (k : String) (r : CredentialRecord) :
    Sound (s.setCredential k r) :=
  ⟨hs.addressed, hs.staking, hs.vesting, hs.amm, hs.ammTokens, hs.schedules, hs.pools, hs.tokens,
    hs.baseFee⟩

/-- The HKM balance of an address is free to change. -/
theorem setBalance (hs : Sound s) {a : String} (ha : isValidAddress a = true) (v : UInt64) :
    Sound (s.setBalance a v) where
  addressed := hs.addressed
  staking := by
    rw [StakingBacked, setBalance_balances, valueAt_insert_of_ne v (ne_stakingPool ha)]
    exact hs.staking
  vesting := by
    rw [VestingBacked, setBalance_balances, valueAt_insert_of_ne v (ne_vestingPool ha)]
    exact hs.vesting
  amm := by
    rw [AmmBacked, setBalance_balances, valueAt_insert_of_ne v (ne_ammPool ha)]
    exact hs.amm
  ammTokens := hs.ammTokens
  schedules := hs.schedules
  pools := hs.pools
  tokens := hs.tokens
  baseFee := hs.baseFee

/-! ## Moves between accounts of a token -/

/-- Replacing the holders of a token keeps the invariant when neither their sum nor the
AMM account's balance changes. -/
theorem setHolders (hs : Sound s) (t : String) (m : BTreeMap UInt64)
    (hsum : sumOf m = sumOf (mapAt s.tokenBalances t))
    (hamm : valueAt m ammPoolAccount = valueAt (mapAt s.tokenBalances t) ammPoolAccount) :
    Sound (s.setHolders t m) where
  addressed := hs.addressed
  staking := hs.staking
  vesting := hs.vesting
  amm := hs.amm
  ammTokens := by
    intro t'
    rw [setHolders_tokenBalances, setHolders_pools, mapAt_insert]
    split
    · rename_i ht
      rw [← ht, hamm]
      exact hs.ammTokens t
    · exact hs.ammTokens t'
  schedules := hs.schedules
  pools := hs.pools
  tokens := by
    intro t'
    rw [setHolders_tokenBalances, setHolders_tokens, mapAt_insert]
    split
    · rename_i ht
      rw [← ht, hsum]
      exact hs.tokens t
    · exact hs.tokens t'
  baseFee := hs.baseFee

/-- A token balance leaves room for everything else in existence. -/
theorem holders_lt (hs : Sound s) (t : String) : sumOf (mapAt s.tokenBalances t) < 2 ^ 64 := by
  rw [hs.tokens t]
  exact tokenSupplyAt_lt s.tokens t

/-! ## Stake moves -/

/-- Registering stake for an address keeps the owners addresses. -/
theorem addressed_restake (hs : Sound s) {a : String} (ha : isValidAddress a = true)
    (info : StakeInfo) {m : BTreeMap (List UnbondingEntry)}
    (hm : ∀ k, k ∈ m → isValidAddress k = true) :
    Addressed (s.stakers.insert a info) m s.vesting := by
  refine ⟨fun k hk => ?_, hm, hs.addressed.vesting⟩
  rw [Std.ExtTreeMap.mem_insert] at hk
  rcases hk with hk | hk
  · rw [Std.LawfulEqCmp.compare_eq_iff_eq] at hk
    exact hk ▸ ha
  · exact hs.addressed.staker k hk

/-- Rewriting balances, stakers and unbonding entries together. -/
theorem withStake (hs : Sound s) {balances : BTreeMap UInt64} {stakers : BTreeMap StakeInfo}
    {unbonding : BTreeMap (List UnbondingEntry)}
    (haddr : Addressed stakers unbonding s.vesting)
    (hstake : StakingBacked balances stakers unbonding)
    (hvest : valueAt balances vestingPoolAccount = valueAt s.balances vestingPoolAccount)
    (hamm : valueAt balances ammPoolAccount = valueAt s.balances ammPoolAccount) :
    Sound { s with balances := balances, stakers := stakers, unbonding := unbonding } where
  addressed := haddr
  staking := hstake
  vesting := by
    change VestingBacked balances s.vesting
    rw [VestingBacked, hvest]
    exact hs.vesting
  amm := by
    change AmmBacked balances s.pools
    rw [AmmBacked, hamm]
    exact hs.amm
  ammTokens := hs.ammTokens
  schedules := hs.schedules
  pools := hs.pools
  tokens := hs.tokens
  baseFee := hs.baseFee

/-- Moving funds between the staking pool, the bonded stake and the unbonding entries. -/
theorem restake (hs : Sound s) {a : String} (ha : isValidAddress a = true) (pool : UInt64)
    (info : StakeInfo) (m : BTreeMap (List UnbondingEntry))
    (hm : ∀ k, k ∈ m → isValidAddress k = true)
    (hb : pool.toNat + stakeAt s.stakers a + unbondingSum s.unbonding =
      (valueAt s.balances stakingPoolAccount).toNat + info.stake.toNat + unbondingSum m) :
    Sound (((s.setBalance stakingPoolAccount pool).setStaker a info).setUnbonding m) := by
  refine hs.withStake (hs.addressed_restake ha info hm) ?_
    (valueAt_insert_of_ne pool (by decide)) (valueAt_insert_of_ne pool (by decide))
  have h₁ := bondedTotal_insert s.stakers a info
  have h₂ := hs.staking
  unfold StakingBacked at h₂ ⊢
  simp only [setStaker_balances, setBalance_balances, setStaker_stakers, setBalance_stakers,
    valueAt_insert_self]
  omega

/-- Moving stake between bonded and unbonding, inside the pool. -/
theorem unbond (hs : Sound s) {a : String} (ha : isValidAddress a = true) (info : StakeInfo)
    (m : BTreeMap (List UnbondingEntry)) (hm : ∀ k, k ∈ m → isValidAddress k = true)
    (hb : stakeAt s.stakers a + unbondingSum s.unbonding = info.stake.toNat + unbondingSum m) :
    Sound ((s.setStaker a info).setUnbonding m) := by
  refine hs.withStake (hs.addressed_restake ha info hm) ?_ rfl rfl
  have h₁ := bondedTotal_insert s.stakers a info
  have h₂ := hs.staking
  unfold StakingBacked at h₂ ⊢
  simp only [setStaker_balances, setStaker_stakers]
  omega

/-! ## Vesting moves -/

/-- Rewriting balances and vesting entries together. -/
theorem withVesting (hs : Sound s) {balances : BTreeMap UInt64}
    {vesting : BTreeMap (List VestingEntry)}
    (hm : ∀ k, k ∈ vesting → isValidAddress k = true) (hsched : SchedulesSound vesting)
    (hvest : VestingBacked balances vesting)
    (hstake : valueAt balances stakingPoolAccount = valueAt s.balances stakingPoolAccount)
    (hamm : valueAt balances ammPoolAccount = valueAt s.balances ammPoolAccount) :
    Sound { s with balances := balances, vesting := vesting } where
  addressed := ⟨hs.addressed.staker, hs.addressed.unbonding, hm⟩
  staking := by
    change StakingBacked balances s.stakers s.unbonding
    rw [StakingBacked, hstake]
    exact hs.staking
  vesting := hvest
  amm := by
    change AmmBacked balances s.pools
    rw [AmmBacked, hamm]
    exact hs.amm
  ammTokens := hs.ammTokens
  schedules := hsched
  pools := hs.pools
  tokens := hs.tokens
  baseFee := hs.baseFee

/-- Replacing the entries that vest toward an address, together with the pool's balance. -/
theorem revest (hs : Sound s) (pool : UInt64) (m : BTreeMap (List VestingEntry))
    (hm : ∀ k, k ∈ m → isValidAddress k = true) (hsched : SchedulesSound m)
    (hb : pool.toNat + lockedTotal s.vesting =
      (valueAt s.balances vestingPoolAccount).toNat + lockedTotal m) :
    Sound ((s.setBalance vestingPoolAccount pool).setVesting m) := by
  refine hs.withVesting hm hsched ?_
    (valueAt_insert_of_ne pool (by decide)) (valueAt_insert_of_ne pool (by decide))
  have h₂ := hs.vesting
  unfold VestingBacked at h₂ ⊢
  rw [setBalance_balances, valueAt_insert_self]
  omega

/-! ## Token supply -/

/-- Writing a token's record and holders together, when the sum is the new supply and the
AMM account keeps its balance. -/
theorem retoken (hs : Sound s) (t : String) (info : TokenInfo) (m : BTreeMap UInt64)
    (hsum : sumOf m = info.totalSupply.toNat)
    (hamm : valueAt m ammPoolAccount = valueAt (mapAt s.tokenBalances t) ammPoolAccount) :
    Sound ((s.setToken t info).setHolders t m) where
  addressed := hs.addressed
  staking := hs.staking
  vesting := hs.vesting
  amm := hs.amm
  ammTokens := by
    intro t'
    simp only [setHolders_tokenBalances, setToken_tokenBalances, setHolders_pools,
      setToken_pools, mapAt_insert]
    split
    · rename_i ht
      rw [← ht, hamm]
      exact hs.ammTokens t
    · exact hs.ammTokens t'
  schedules := hs.schedules
  pools := hs.pools
  tokens := by
    intro t'
    simp only [setHolders_tokenBalances, setToken_tokenBalances, setHolders_tokens,
      setToken_tokens, mapAt_insert, tokenSupplyAt_insert]
    split
    · exact hsum
    · exact hs.tokens t'
  baseFee := hs.baseFee

/-! ## Pools -/

/-- Rewriting a pool, its custody and its providers together. -/
theorem repool (hs : Sound s) (t : String) (pool : Pool) (custody : UInt64)
    (m : BTreeMap UInt64) (lpShares : BTreeMap (BTreeMap UInt64))
    (hcustody : custody.toNat + reserveHkmAt s.pools t =
      (valueAt s.balances ammPoolAccount).toNat + pool.reserveHkm.toNat)
    (hamm : (valueAt m ammPoolAccount).toNat = pool.reserveToken.toNat)
    (hsum : sumOf m = sumOf (mapAt s.tokenBalances t))
    (hlp : ∀ t', t ≠ t' → mapAt lpShares t' = mapAt s.lpShares t')
    (hpool : PoolSound pool (sumOf (mapAt lpShares t))) :
    Sound { ((s.setBalance ammPoolAccount custody).setHolders t m).setPool t pool with
      lpShares := lpShares } where
  addressed := hs.addressed
  staking := by
    have h : ammPoolAccount ≠ stakingPoolAccount := by decide
    change StakingBacked (s.balances.insert ammPoolAccount custody) s.stakers s.unbonding
    rw [StakingBacked, valueAt_insert_of_ne custody h]
    exact hs.staking
  vesting := by
    have h : ammPoolAccount ≠ vestingPoolAccount := by decide
    change VestingBacked (s.balances.insert ammPoolAccount custody) s.vesting
    rw [VestingBacked, valueAt_insert_of_ne custody h]
    exact hs.vesting
  amm := by
    change AmmBacked (s.balances.insert ammPoolAccount custody) (s.pools.insert t pool)
    have h₁ := poolHkmTotal_insert s.pools t pool
    have h₂ := hs.amm
    unfold AmmBacked at h₂ ⊢
    rw [valueAt_insert_self]
    omega
  ammTokens := by
    change AmmTokensBacked (s.tokenBalances.insert t m) (s.pools.insert t pool)
    intro t'
    rw [mapAt_insert, reserveTokenAt_insert]
    split
    · exact hamm
    · exact hs.ammTokens t'
  schedules := hs.schedules
  pools := by
    change PoolsSound (s.pools.insert t pool) lpShares
    constructor
    · intro t' p hp
      rw [lookup_insert] at hp
      split at hp
      · rename_i ht
        rw [Option.some.injEq] at hp
        rw [← ht, ← hp]
        exact hpool
      · rename_i ht
        rw [hlp t' ht]
        exact hs.pools.live t' p hp
    · intro t' hp
      rw [lookup_insert] at hp
      split at hp
      · simp at hp
      · rename_i ht
        rw [hlp t' ht]
        exact hs.pools.dead t' hp
  tokens := by
    change TokensSound (s.tokenBalances.insert t m) s.tokens
    intro t'
    rw [mapAt_insert]
    split
    · rename_i ht
      rw [← ht, hsum]
      exact hs.tokens t
    · exact hs.tokens t'
  baseFee := hs.baseFee

end Sound

end ChainState
