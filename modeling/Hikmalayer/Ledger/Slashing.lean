/-
# When a slash is accepted

On a sound ledger the staking pool covers what a staker has at risk, so an accepted proof is
applied exactly when the staker it names is registered with its key, the offense is new and
inside the window, and a tenth of what is at risk is not zero.
-/
import Mathlib.Tactic
import Hikmalayer.Ledger.Ownership
import Hikmalayer.Ledger.Registry

open Outcome Exec OrderedMap

namespace ChainState

variable {E : Node} {s s' : ChainState} {tx : Transaction} {height index : UInt64}
  {validator key : String}

/-- The key under which an offense is recorded. -/
def offenseKey (validator : String) (index : UInt64) : String := validator ++ ":" ++ toString index

/-- What the state must say for a proof against a validator's blocks at `index`, under `key`,
to be applied at `height`. -/
structure Slashable (s : ChainState) (height index : UInt64) (validator key : String) : Prop where
  window : height.toNat ≤ index.toNat + slashingWindowBlocks.toNat
  fits : index.toNat + slashingWindowBlocks.toNat < 2 ^ 64
  registered : ∃ info, s.stakers[validator]? = some info ∧ info.publicKey = key
  unpunished : ¬ offenseKey validator index ∈ s.slashedOffenses
  positive : 10 ≤ s.atRisk validator

/-- What a staker has at risk is in the staking pool. -/
theorem Sound.atRisk_le (hs : Sound s) (x : String) :
    s.atRisk x ≤ (valueAt s.balances stakingPoolAccount).toNat := by
  have hpool := hs.staking
  have hbonded := stakeAt_le_bondedTotal s.stakers x
  have hunbonding := entriesSum_le_unbondingSum s.unbonding x
  rw [stakeAt_eq] at hbonded
  unfold StakingBacked at hpool
  unfold atRisk
  omega

/-- A tenth is not zero from ten on. -/
theorem slashAmount_ne_zero {base : UInt64} :
    Word.saturatingMul base slashPercent / 100 ≠ 0 ↔ 10 ≤ base.toNat := by
  have hlt := Word.toNat_lt base
  have h10 : slashPercent.toNat = 10 := rfl
  have h100 : (100 : UInt64).toNat = 100 := rfl
  rw [ne_eq, ← UInt64.toNat_inj, UInt64.toNat_div, Word.saturatingMul_toNat, h10, h100,
    UInt64.toNat_zero]
  omega

/-- On a sound ledger the checks of a slash pass exactly on slashable validators. -/
theorem slashChecks_returns_iff (hs : Sound s) {proof : SlashProof}
    (hp : tx.slashProof = some proof) :
    (∃ r, slashChecks tx height s = ok r) ↔ Slashable s height proof.blockA.index tx.recipient
      (proof.blockA.validatorPublicKey.getD "") := by
  have hrisk := hs.atRisk_le tx.recipient
  have hlt := Word.toNat_lt (valueAt s.balances stakingPoolAccount)
  simp only [slashChecks, Outcome.bind_eq_ok, okOr_eq_ok, ensure_eq_ok, plain_eq_ok, pure_eq,
    ok.injEq, unbondingTotal_eq_ok, Word.checkedAdd_eq_some, hp, Option.some.injEq,
    UInt64.lt_iff_toNat_lt, not_lt]
  constructor
  · rintro ⟨r, _, rfl, deadline, hd, _, hwindow, info, hi, _, hk, _, hnew, unbonding, hu, base, hb,
      _, hne, rfl⟩
    have hdl := Word.toNat_lt deadline
    refine ⟨by omega, by omega, ⟨info, hi, hk.symm⟩, hnew, ?_⟩
    rw [slashAmount_ne_zero] at hne
    unfold atRisk
    rw [hi, Option.getD_some]
    omega
  · rintro ⟨hwindow, hfits, ⟨info, hi, hk⟩, hnew, hpos⟩
    have hread : s.atRisk tx.recipient =
        info.stake.toNat + entriesSum (s.unbonding[tx.recipient]?.getD []) := by
      rw [atRisk, hi, Option.getD_some]
    have hsum : (UInt64.ofNat (entriesSum (s.unbonding[tx.recipient]?.getD []))).toNat = _ :=
      Word.toNat_ofNat_of_lt (by omega)
    have hdl : (proof.blockA.index + slashingWindowBlocks).toNat = _ := Word.toNat_add_of_lt hfits
    have hbase := Word.toNat_add_of_lt (a := info.stake)
      (b := UInt64.ofNat (entriesSum (s.unbonding[tx.recipient]?.getD []))) (by omega)
    refine ⟨_, proof, rfl, _, hdl, (), by omega, info, hi, (), hk.symm, (), hnew, _, hsum, _, hbase,
      (), slashAmount_ne_zero.mpr (by omega), rfl⟩

/-- Taking from unbonding entries always returns. -/
theorem slashUnbonding_returns (validator : String) (remaining : UInt64) (s : ChainState) :
    ∃ s', slashUnbonding validator remaining s = ok ((), s') := by
  simp only [slashUnbonding, update_eq_ok]
  split
  · exact ⟨s, rfl⟩
  · split
    · exact ⟨s, rfl⟩
    · rename_i entries _
      obtain ⟨entries', he, -⟩ := takeFromEntries_total entries remaining
      rw [he]
      exact ⟨_, rfl⟩

/-- On a sound ledger of the clamping node, a slash whose checks pass is carried out. -/
theorem applySlash_returns (hE : E.saturation = .clamp) (hs : Sound s) {r : SlashRequest}
    (h : slashChecks tx height s = ok r) : ∃ s', applySlash E tx height s = ok ((), s') := by
  obtain ⟨proof, info, -, hi, -, -, -, hstake, hle⟩ := slashChecks_ok h
  have hrisk := hs.atRisk_le tx.recipient
  rw [atRisk, hi, Option.getD_some] at hrisk
  have hpool : r.slashed.toNat ≤ (valueAt s.balances stakingPoolAccount).toNat := by omega
  have hmin := Word.min_toNat r.slashed r.stake
  have hbonded := Word.checkedSub_of_le (a := r.stake) (b := min r.slashed r.stake) (by omega)
  have hleft := Word.checkedSub_of_le (a := r.slashed) (b := min r.slashed r.stake) (by omega)
  -- what the debit, the counters and the staker entry have been turned into
  set mid := ((s.setBalance stakingPoolAccount
    (valueAt s.balances stakingPoolAccount - r.slashed)).setSupply
      (Word.saturatingSub s.totalSupply r.slashed)
      (Word.saturatingAdd s.burned r.slashed)).setStaker tx.recipient
        { info with stake := r.stake - min r.slashed r.stake }
  obtain ⟨s', hs'⟩ := slashUnbonding_returns tx.recipient (r.slashed - min r.slashed r.stake) mid
  refine ⟨s'.setOffense r.offenseKey r.slashed, ?_⟩
  simp only [applySlash, slashEffects, Exec.bind_eq_ok, read_eq_ok, update_eq_ok, setStake_eq_ok,
    modify_apply, Outcome.bind_eq_ok, plain_eq_ok, pure_eq, ok.injEq, Prod.mk.injEq, hE]
  exact ⟨r, s, ⟨h, rfl⟩, (), _, debit_of_le hpool, (), _, ⟨_, rfl, _, rfl, rfl⟩, _, _, ⟨hbonded, rfl⟩,
    (), mid, ⟨info, hi, rfl⟩, _, mid, ⟨hleft, rfl⟩, (), s', hs', trivial, rfl⟩

/-- On a sound ledger a verified slash is applied exactly when its target is slashable. -/
theorem slash_accepted_iff (hE : E.saturation = .clamp) (hs : Sound s)
    (ht : tx.transactionType = .slash) {proof : SlashProof} (hp : tx.slashProof = some proof) :
    (∃ s', applyVerified E tx height s = ok ((), s')) ↔ Slashable s height proof.blockA.index
      tx.recipient (proof.blockA.validatorPublicKey.getD "") := by
  have hscope : s.verifyChainScope tx = ok () := by
    unfold verifyChainScope
    rw [if_pos (Or.inr ht)]
  have hpolicy : s.verifySignaturePolicy tx = ok () := by
    unfold verifySignaturePolicy
    rw [if_pos (Or.inr ht)]
    split <;> rfl
  have hbranch : applyBranch E tx height = applySlash E tx height := by
    unfold applyBranch
    rw [ht]
  rw [← slashChecks_returns_iff hs hp]
  constructor
  · rintro ⟨s', h⟩
    simp only [applyVerified, Exec.bind_eq_ok, read_eq_ok, hbranch, applySlash] at h
    obtain ⟨_, _, ⟨-, rfl⟩, _, _, ⟨-, rfl⟩, r, _, ⟨hc, rfl⟩, -⟩ := h
    exact ⟨r, hc⟩
  · rintro ⟨r, hc⟩
    obtain ⟨s', h⟩ := applySlash_returns hE hs hc
    refine ⟨s', ?_⟩
    simp only [applyVerified, Exec.bind_eq_ok, read_eq_ok, hbranch]
    exact ⟨(), s, ⟨hscope, rfl⟩, (), s, ⟨hpolicy, rfl⟩, h⟩

end ChainState
