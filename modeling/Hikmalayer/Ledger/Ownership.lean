/-
# Funds move only with their owner's authorization

A transaction takes nothing from an ordinary account other than its signer: not HKM, not
tokens, not liquidity shares, not bonded or unbonding stake.  The one exception is the
validator a slash names.  Each primitive keeps what an account it does not debit holds; the
branches are chains of primitives.
-/
import Mathlib.Tactic
import Hikmalayer.Authorization.Signers

open Outcome Exec OrderedMap

namespace ChainState

variable {E : Node} {s s' s₀ : ChainState} {tx : Transaction} {height amount fee : UInt64}
  {account tokenId x : String} {risk : Prop}

/-! ## What an account holds -/

/-- Bonded stake and unbonding stake of an account. -/
def atRisk (s : ChainState) (x : String) : ℕ :=
  (s.stakers[x]?.getD .empty).stake.toNat + entriesSum (s.unbonding[x]?.getD [])

/-- Since `s₀`, account `x` has lost no HKM, no tokens and no shares; under `risk`, no stake
either. -/
structure Keeps (risk : Prop) (s₀ : ChainState) (x : String) (s : ChainState) : Prop where
  balance : s₀.balanceOf x ≤ s.balanceOf x
  tokens : ∀ t, s₀.tokenBalanceOf t x ≤ s.tokenBalanceOf t x
  shares : ∀ t, s₀.lpSharesOf t x ≤ s.lpSharesOf t x
  stake : risk → s₀.atRisk x ≤ s.atRisk x

theorem Keeps.refl (risk : Prop) (s : ChainState) (x : String) : Keeps risk s x s :=
  ⟨UInt64.le_refl _, fun _ => UInt64.le_refl _, fun _ => UInt64.le_refl _, fun _ => le_rfl⟩

/-! ## Writes -/

theorem balanceOf_setBalance (s : ChainState) (account x : String) (v : UInt64) :
    (s.setBalance account v).balanceOf x = if account = x then v else s.balanceOf x :=
  valueAt_insert s.balances account x v

theorem tokenBalanceOf_setHolders (s : ChainState) (tokenId t x : String)
    (holders : BTreeMap UInt64) : (s.setHolders tokenId holders).tokenBalanceOf t x =
      if tokenId = t then valueAt holders x else s.tokenBalanceOf t x := by
  unfold tokenBalanceOf
  rw [setHolders_tokenBalances, mapAt_insert]
  split <;> rfl

theorem lpSharesOf_setProviders (s : ChainState) (tokenId t x : String)
    (providers : BTreeMap UInt64) : (s.setProviders tokenId providers).lpSharesOf t x =
      if tokenId = t then valueAt providers x else s.lpSharesOf t x := by
  unfold lpSharesOf
  rw [setProviders_lpShares, mapAt_insert]
  split <;> rfl

/-- Writing a balance of another account, or a larger one. -/
theorem Keeps.setBalance (h : Keeps risk s₀ x s) {v : UInt64}
    (hv : account = x → s.balanceOf x ≤ v) : Keeps risk s₀ x (s.setBalance account v) := by
  refine ⟨?_, h.tokens, h.shares, h.stake⟩
  rw [balanceOf_setBalance]
  split
  · rename_i ha
    exact UInt64.le_trans h.balance (hv ha)
  · exact h.balance

/-- Replacing the holders of a token. -/
theorem Keeps.setHolders (h : Keeps risk s₀ x s) {holders : BTreeMap UInt64}
    (hv : s.tokenBalanceOf tokenId x ≤ valueAt holders x) :
    Keeps risk s₀ x (s.setHolders tokenId holders) := by
  refine ⟨h.balance, fun t => ?_, h.shares, h.stake⟩
  rw [tokenBalanceOf_setHolders]
  split
  · rename_i ht
    rw [← ht]
    exact UInt64.le_trans (h.tokens tokenId) hv
  · exact h.tokens t

/-- Replacing the providers of a pool. -/
theorem Keeps.setProviders (h : Keeps risk s₀ x s) {providers : BTreeMap UInt64}
    (hv : s.lpSharesOf tokenId x ≤ valueAt providers x) :
    Keeps risk s₀ x (s.setProviders tokenId providers) := by
  refine ⟨h.balance, h.tokens, fun t => ?_, h.stake⟩
  rw [lpSharesOf_setProviders]
  split
  · rename_i ht
    rw [← ht]
    exact UInt64.le_trans (h.shares tokenId) hv
  · exact h.shares t

/-- Writing the record of another staker. -/
theorem Keeps.setStaker (h : Keeps risk s₀ x s) (hx : risk → account ≠ x) (info : StakeInfo) :
    Keeps risk s₀ x (s.setStaker account info) := by
  refine ⟨h.balance, h.tokens, h.shares, fun hr => ?_⟩
  have hkept : (s.setStaker account info).atRisk x = s.atRisk x := by
    unfold atRisk
    rw [setStaker_stakers, lookup_insert_of_ne _ _ (hx hr)]
    rfl
  rw [hkept]
  exact h.stake hr

/-- Replacing unbonding entries, but not those of the account. -/
theorem Keeps.setUnbonding (h : Keeps risk s₀ x s) {unbonding : BTreeMap (List UnbondingEntry)}
    (hx : risk → unbonding[x]? = s.unbonding[x]?) :
    Keeps risk s₀ x (s.setUnbonding unbonding) := by
  refine ⟨h.balance, h.tokens, h.shares, fun hr => ?_⟩
  have hkept : (s.setUnbonding unbonding).atRisk x = s.atRisk x := by
    unfold atRisk
    rw [setUnbonding_unbonding, hx hr]
    rfl
  rw [hkept]
  exact h.stake hr

/-- Writes of the other fields. -/
theorem Keeps.of_eq (h : Keeps risk s₀ x s) (hb : s'.balances = s.balances)
    (ht : s'.tokenBalances = s.tokenBalances) (hl : s'.lpShares = s.lpShares)
    (hk : s'.stakers = s.stakers) (hu : s'.unbonding = s.unbonding) : Keeps risk s₀ x s' := by
  have hbalance : s'.balanceOf x = s.balanceOf x := congrArg (valueAt · x) hb
  have htokens : ∀ t, s'.tokenBalanceOf t x = s.tokenBalanceOf t x :=
    fun t => congrArg (fun m => valueAt (mapAt m t) x) ht
  have hshares : ∀ t, s'.lpSharesOf t x = s.lpSharesOf t x :=
    fun t => congrArg (fun m => valueAt (mapAt m t) x) hl
  have hstake : s'.atRisk x = s.atRisk x := by
    unfold atRisk
    rw [hk, hu]
  refine ⟨?_, fun t => ?_, fun t => ?_, fun hr => ?_⟩
  · rw [hbalance]
    exact h.balance
  · rw [htokens]
    exact h.tokens t
  · rw [hshares]
    exact h.shares t
  · rw [hstake]
    exact h.stake hr

/-! ## Primitives -/

theorem debit_keeps (hx : account ≠ x) : Preserves (Keeps risk s₀ x) (debit account amount) := by
  intro s u s' hs h
  obtain ⟨rest, -, rfl⟩ := debit_eq_ok.mp h
  exact hs.setBalance fun ha => absurd ha hx

theorem tryCredit_keeps : Preserves (Keeps risk s₀ x) (tryCredit account amount) := by
  intro s u s' hs h
  obtain ⟨balance, hb, rfl⟩ := tryCredit_eq_ok.mp h
  refine hs.setBalance ?_
  rintro rfl
  rw [UInt64.le_iff_toNat_le, hb]
  exact Nat.le_add_right _ _

theorem credit_keeps : Preserves (Keeps risk s₀ x) (credit E account amount) := by
  intro s u s' hs h
  obtain ⟨balance, hb, rfl⟩ := credit_eq_ok.mp h
  refine hs.setBalance ?_
  rintro rfl
  exact UInt64.le_iff_toNat_le.mpr (Word.Saturation.le_add_left hb)

theorem collectFee_keeps : Preserves (Keeps risk s₀ x) (collectFee E fee) := by
  intro s u s' hs h
  obtain ⟨pot, -, rfl⟩ := collectFee_eq_ok.mp h
  exact hs.of_eq rfl rfl rfl rfl rfl

theorem tryCreditToken_keeps :
    Preserves (Keeps risk s₀ x) (tryCreditToken tokenId account amount) := by
  intro s u s' hs h
  obtain ⟨balance, hb, rfl⟩ := tryCreditToken_eq_ok.mp h
  refine hs.setHolders ?_
  rw [valueAt_insert]
  split
  · rename_i ha
    rw [UInt64.le_iff_toNat_le, hb, ha]
    exact Nat.le_add_right _ _
  · exact UInt64.le_refl _

theorem creditToken_keeps : Preserves (Keeps risk s₀ x) (creditToken E tokenId account amount) := by
  intro s u s' hs h
  obtain ⟨balance, hb, rfl⟩ := creditToken_eq_ok.mp h
  refine hs.setHolders ?_
  rw [valueAt_insert]
  split
  · rename_i ha
    rw [← ha]
    exact UInt64.le_iff_toNat_le.mpr (Word.Saturation.le_add_left hb)
  · exact UInt64.le_refl _

theorem debitToken_keeps (hx : account ≠ x) :
    Preserves (Keeps risk s₀ x) (debitToken tokenId account amount) := by
  intro s u s' hs h
  obtain ⟨-, -, rest, -, rfl⟩ := debitToken_eq_ok.mp h
  refine hs.setHolders ?_
  rw [valueAt_writeOrRemove, if_neg hx]
  exact UInt64.le_refl _

theorem burnShares_keeps (hx : account ≠ x) {shares : UInt64} :
    Preserves (Keeps risk s₀ x) (burnShares tokenId account shares) := by
  intro s u s' hs h
  obtain ⟨-, -, rest, -, rfl⟩ := burnShares_eq_ok.mp h
  refine hs.setProviders ?_
  rw [valueAt_writeOrRemove, if_neg hx]
  exact UInt64.le_refl _

theorem updateStaker_keeps (hx : account ≠ x) (f : StakeInfo → StakeInfo) :
    Preserves (Keeps risk s₀ x) (updateStaker account f) :=
  Preserves.modify fun _ hs => hs.setStaker (fun _ => hx) _

theorem setStake_keeps (hx : risk → account ≠ x) (stake : UInt64) :
    Preserves (Keeps risk s₀ x) (setStake account stake) := by
  intro s u s' hs h
  obtain ⟨info, -, rfl⟩ := setStake_eq_ok.mp h
  exact hs.setStaker hx _

theorem consumeNonce_keeps {nonce : UInt64} :
    Preserves (Keeps risk s₀ x) (consumeNonce account nonce) := by
  intro s u s' hs h
  obtain ⟨-, rfl⟩ := consumeNonce_eq_ok.mp h
  exact hs.of_eq rfl rfl rfl rfl rfl

/-! ## Branches -/

/-- An account that is not one of the reserves. -/
structure Ordinary (x : String) : Prop where
  staking : stakingPoolAccount ≠ x
  vesting : vestingPoolAccount ≠ x
  amm : ammPoolAccount ≠ x

theorem transferEffects_keeps {sender : String} (hx : sender ≠ x) :
    Preserves (Keeps risk s₀ x) (transferEffects E tx sender) :=
  (Preserves.read _).bind fun _ => (Preserves.read _).bind fun _ => (debit_keeps hx).bind fun _ =>
    tryCredit_keeps.bind fun _ => collectFee_keeps

theorem stakeEffects_keeps {r : StakeRequest} (hx : r.sender ≠ x) :
    Preserves (Keeps risk s₀ x) (stakeEffects E tx r) :=
  (Preserves.read _).bind fun _ => (Preserves.read _).bind fun _ => (debit_keeps hx).bind fun _ =>
    tryCredit_keeps.bind fun _ => collectFee_keeps.bind fun _ =>
      (updateStaker_keeps hx _).bind fun _ => (Preserves.read _).bind fun _ =>
        (updateStaker_keeps hx _).bind fun _ => (Preserves.read _).bind fun _ =>
          updateStaker_keeps hx _

theorem withdrawEffects_keeps {r : WithdrawRequest} (hx : r.sender ≠ x) :
    Preserves (Keeps risk s₀ x) (withdrawEffects E tx height r) :=
  (Preserves.read _).bind fun _ => (debit_keeps hx).bind fun _ => collectFee_keeps.bind fun _ =>
    (setStake_keeps (fun _ => hx) _).bind fun _ => (Preserves.read _).bind fun _ =>
      Preserves.modify fun _ hs => hs.setUnbonding fun _ => lookup_insert_of_ne _ _ hx

theorem vestEffects_keeps {r : VestRequest} (hx : r.sender ≠ x) :
    Preserves (Keeps risk s₀ x) (vestEffects E tx height r) :=
  (Preserves.read _).bind fun _ => (Preserves.read _).bind fun _ => (debit_keeps hx).bind fun _ =>
    tryCredit_keeps.bind fun _ => collectFee_keeps.bind fun _ => (Preserves.read _).bind fun _ =>
      (Preserves.read _).bind fun _ => Preserves.modify fun _ hs => hs.of_eq rfl rfl rfl rfl rfl

theorem applyReward_keeps : Preserves (Keeps risk s₀ x) (applyReward E tx) := by
  refine credit_keeps.bind fun _ => Preserves.update fun s s' hs h => ?_
  simp only [Outcome.bind_eq_ok, plain_eq_ok, pure_eq, ok.injEq] at h
  obtain ⟨totalSupply, -, rfl⟩ := h
  exact hs.of_eq rfl rfl rfl rfl rfl

theorem tokenCreateEffects_keeps {r : TokenRequest} (hx : r.sender ≠ x) :
    Preserves (Keeps risk s₀ x) (tokenCreateEffects E tx height r) :=
  (Preserves.read _).bind fun _ => (debit_keeps hx).bind fun _ => collectFee_keeps.bind fun _ =>
    (Preserves.modify fun _ hs => hs.of_eq rfl rfl rfl rfl rfl).bind fun _ => tryCreditToken_keeps

theorem tokenTransferEffects_keeps {r : TokenRequest} (hx : r.sender ≠ x) :
    Preserves (Keeps risk s₀ x) (tokenTransferEffects E tx r) :=
  (Preserves.read _).bind fun _ => (debit_keeps hx).bind fun _ => collectFee_keeps.bind fun _ =>
    (debitToken_keeps hx).bind fun _ => tryCreditToken_keeps

theorem tokenBurnEffects_keeps {r : TokenRequest} (hx : r.sender ≠ x) :
    Preserves (Keeps risk s₀ x) (tokenBurnEffects E tx r) := by
  refine (Preserves.read _).bind fun _ => (debit_keeps hx).bind fun _ =>
    collectFee_keeps.bind fun _ => (debitToken_keeps hx).bind fun _ =>
      Preserves.update fun s s' hs h => ?_
  split at h
  · simp only [Outcome.bind_eq_ok, plain_eq_ok, pure_eq, ok.injEq] at h
    obtain ⟨totalSupply, -, rfl⟩ := h
    exact hs.of_eq rfl rfl rfl rfl rfl
  · rw [pure_eq, ok.injEq] at h
    rw [← h]
    exact hs

theorem addLiquidityEffects_keeps {r : AddRequest} (hx : r.sender ≠ x) :
    Preserves (Keeps risk s₀ x) (addLiquidityEffects E r) := by
  refine (Preserves.read _).bind fun _ => (Preserves.read _).bind fun _ =>
    (debit_keeps hx).bind fun _ => collectFee_keeps.bind fun _ => tryCredit_keeps.bind fun _ =>
      (debitToken_keeps hx).bind fun _ => tryCreditToken_keeps.bind fun _ =>
        (Preserves.modify fun _ hs => hs.of_eq rfl rfl rfl rfl rfl).bind fun _ =>
          Preserves.bind (Preserves.update fun s s' hs h => ?_) fun _ =>
            Preserves.update fun s s' hs h => ?_
  · simp only [Outcome.bind_eq_ok, okOr_eq_ok, pure_eq, ok.injEq] at h
    obtain ⟨_, -, _, -, _, -, _, -, rfl⟩ := h
    exact hs.of_eq rfl rfl rfl rfl rfl
  · simp only [Outcome.bind_eq_ok, okOr_eq_ok, pure_eq, ok.injEq] at h
    obtain ⟨holding, -, rfl⟩ := h
    refine hs.setProviders ?_
    rw [valueAt_insert_of_ne holding hx]
    exact UInt64.le_refl _

theorem removeLiquidityEffects_keeps {r : RemoveRequest} (ho : Ordinary x) (hx : r.sender ≠ x) :
    Preserves (Keeps risk s₀ x) (removeLiquidityEffects E r) := by
  refine (Preserves.read _).bind fun _ => (debit_keeps hx).bind fun _ =>
    collectFee_keeps.bind fun _ => (burnShares_keeps hx).bind fun _ =>
      (debit_keeps ho.amm).bind fun _ => credit_keeps.bind fun _ =>
        (debitToken_keeps ho.amm).bind fun _ => creditToken_keeps.bind fun _ =>
          Preserves.update fun s s' hs h => ?_
  simp only [Outcome.bind_eq_ok, plain_eq_ok, pure_eq, ok.injEq] at h
  obtain ⟨_, -, _, -, _, -, _, -, rfl⟩ := h
  exact hs.of_eq rfl rfl rfl rfl rfl

theorem swapEffects_keeps {r : SwapRequest} (ho : Ordinary x) (hx : r.sender ≠ x) :
    Preserves (Keeps risk s₀ x) (swapEffects E r) := by
  unfold swapEffects
  split
  · refine (Preserves.read _).bind fun _ => (Preserves.read _).bind fun _ =>
      (debit_keeps hx).bind fun _ => collectFee_keeps.bind fun _ => tryCredit_keeps.bind fun _ =>
        (debitToken_keeps ho.amm).bind fun _ => creditToken_keeps.bind fun _ =>
          Preserves.update fun s s' hs h => ?_
    simp only [Outcome.bind_eq_ok, plain_eq_ok, okOr_eq_ok, pure_eq, ok.injEq] at h
    obtain ⟨_, -, _, -, _, -, rfl⟩ := h
    exact hs.of_eq rfl rfl rfl rfl rfl
  · refine (Preserves.read _).bind fun _ => (debit_keeps hx).bind fun _ =>
      collectFee_keeps.bind fun _ => (debitToken_keeps hx).bind fun _ =>
        tryCreditToken_keeps.bind fun _ => (debit_keeps ho.amm).bind fun _ =>
          credit_keeps.bind fun _ => Preserves.update fun s s' hs h => ?_
    simp only [Outcome.bind_eq_ok, plain_eq_ok, okOr_eq_ok, pure_eq, ok.injEq] at h
    obtain ⟨_, -, _, -, _, -, rfl⟩ := h
    exact hs.of_eq rfl rfl rfl rfl rfl

theorem certificateEffects_keeps {action : CredentialAction} {issuer : String} :
    Preserves (Keeps risk s₀ x) (certificateEffects tx action issuer) := by
  refine Preserves.update fun s s' hs h => ?_
  split at h
  · simp only [Outcome.bind_eq_ok, okOr_eq_ok, ensure_eq_ok, pure_eq, ok.injEq] at h
    obtain ⟨_, -, _, -, rfl⟩ := h
    exact hs.of_eq rfl rfl rfl rfl rfl
  · simp only [Outcome.bind_eq_ok, ensure_eq_ok, pure_eq, ok.injEq] at h
    obtain ⟨_, -, rfl⟩ := h
    exact hs.of_eq rfl rfl rfl rfl rfl

theorem slashUnbonding_keeps {validator : String} (hx : risk → validator ≠ x)
    (remaining : UInt64) : Preserves (Keeps risk s₀ x) (slashUnbonding validator remaining) := by
  refine Preserves.update fun s s' hs h => ?_
  split at h
  · rw [ok.injEq] at h
    exact h ▸ hs
  · split at h
    · rw [ok.injEq] at h
      exact h ▸ hs
    · simp only [Outcome.bind_eq_ok, pure_eq, ok.injEq] at h
      obtain ⟨entries, -, rfl⟩ := h
      refine hs.setUnbonding fun hr => ?_
      unfold writeEntries
      split
      · rw [lookup_erase, if_neg (hx hr)]
      · exact lookup_insert_of_ne _ _ (hx hr)

/-- A slash takes stake of the validator it names, and nothing else of an ordinary account. -/
theorem slashEffects_keeps {validator : String} (ho : Ordinary x) (hx : risk → validator ≠ x)
    (r : SlashRequest) : Preserves (Keeps risk s₀ x) (slashEffects E validator r) := by
  refine (debit_keeps ho.staking).bind fun _ =>
    Preserves.bind (Preserves.update fun s s' hs h => ?_) fun _ =>
      (Preserves.read _).bind fun _ => (setStake_keeps hx _).bind fun _ =>
        (Preserves.read _).bind fun _ => (slashUnbonding_keeps hx _).bind fun _ =>
          Preserves.modify fun _ hs => hs.of_eq rfl rfl rfl rfl rfl
  simp only [Outcome.bind_eq_ok, plain_eq_ok, pure_eq, ok.injEq] at h
  obtain ⟨_, -, _, -, rfl⟩ := h
  exact hs.of_eq rfl rfl rfl rfl rfl

/-! ## Transactions -/

theorem Mutation.keeps {effects : StateAction} (h : Mutation E tx height s account effects)
    (ho : Ordinary x) (hx : account ≠ x) : Preserves (Keeps risk s₀ x) effects := by
  cases h with
  | transfer => exact transferEffects_keeps hx
  | stake => exact stakeEffects_keeps hx
  | withdraw => exact withdrawEffects_keeps hx
  | vest => exact vestEffects_keeps hx
  | tokenCreate => exact tokenCreateEffects_keeps hx
  | tokenTransfer => exact tokenTransferEffects_keeps hx
  | tokenBurn => exact tokenBurnEffects_keeps hx
  | addLiquidity => exact addLiquidityEffects_keeps hx
  | removeLiquidity => exact removeLiquidityEffects_keeps ho hx
  | swap => exact swapEffects_keeps ho hx
  | certificate => exact certificateEffects_keeps

/-- Only the validator a slash names can lose stake to a transaction it did not sign. -/
theorem Applied.keeps (h : Applied E tx height s s') (ho : Ordinary x)
    (hx : tx.signer ≠ some x) :
    Keeps (¬ (tx.transactionType = .slash ∧ tx.recipient = x)) s x s' := by
  have hs := Keeps.refl (¬ (tx.transactionType = .slash ∧ tx.recipient = x)) s x
  cases h with
  | @signed account effects hm hn he =>
    have hne : account ≠ x := by
      rintro rfl
      exact hx hm.signer
    exact hm.keeps ho hne (s.setNonce account tx.nonce) () s'
      (hs.of_eq rfl rfl rfl rfl rfl) he
  | reward _ he => exact applyReward_keeps s () s' hs he
  | slash ht he =>
    refine Preserves.bind (Preserves.read _) (fun r => ?_) s () s' hs he
    exact slashEffects_keeps ho (fun hrisk hrec => hrisk ⟨ht, hrec⟩) r
  | anchor _ _ he => exact he ▸ hs

/-! ## Closing a block -/

theorem attempt_debit_keeps (hx : account ≠ x) :
    Preserves (Keeps risk s₀ x) (attempt (debit account amount)) := by
  intro s u s' hs h
  rcases attempt_ok h with hd | ⟨e, hd⟩
  · exact debit_keeps hx s u s' hs hd
  · rw [(debit_err hd).2]
    exact hs

theorem payOut_keeps {reserve : String} (hx : reserve ≠ x) :
    Preserves (Keeps risk s₀ x) (payOut E reserve account amount) := by
  unfold payOut
  split
  · exact (attempt_debit_keeps hx).bind fun _ => credit_keeps
  · exact Preserves.pure ()

/-- Housekeeping takes no HKM, no tokens and no shares of an ordinary account. -/
theorem endBlock_keeps {validator : String} (ho : Ordinary x) :
    Preserves (Keeps False s₀ x) (endBlock E height validator) := by
  refine (Preserves.read _).bind fun _ => Preserves.bind (Preserves.forEach fun account _ => ?_)
    fun _ => (Preserves.read _).bind fun _ =>
      Preserves.bind (Preserves.forEach fun recipient _ => ?_) fun _ => ?_
  · refine Preserves.bind (Preserves.readWrite fun s a s' hs h => ?_) fun _ =>
      (payOut_keeps ho.staking).bind fun _ => Preserves.modify fun s hs => ?_
    · unfold takeMatured at h
      split at h
      · rw [ok.injEq, Prod.mk.injEq] at h
        exact h.2 ▸ hs
      · simp only [Outcome.bind_eq_ok, pure_eq, ok.injEq, Prod.mk.injEq] at h
        obtain ⟨_, -, -, rfl⟩ := h
        exact hs.setUnbonding False.elim
    · split
      · exact ⟨hs.balance, hs.tokens, hs.shares, False.elim⟩
      · exact hs
  · refine Preserves.bind (Preserves.readWrite fun s a s' hs h => ?_) fun _ =>
      payOut_keeps ho.vesting
    unfold takeVested at h
    split at h
    · rw [ok.injEq, Prod.mk.injEq] at h
      exact h.2 ▸ hs
    · simp only [Outcome.bind_eq_ok, pure_eq, ok.injEq, Prod.mk.injEq] at h
      obtain ⟨_, -, -, rfl⟩ := h
      exact hs.of_eq rfl rfl rfl rfl rfl
  · refine Preserves.bind (Preserves.update fun s s' hs h => ?_) fun _ =>
      (Preserves.read _).bind fun _ => ?_
    · simp only [Outcome.bind_eq_ok, pure_eq, ok.injEq] at h
      obtain ⟨_, -, rfl⟩ := h
      exact hs.of_eq rfl rfl rfl rfl rfl
    · split
      · exact (Preserves.modify fun _ hs => hs.of_eq rfl rfl rfl rfl rfl).bind fun _ => credit_keeps
      · exact Preserves.pure ()

/-! ## The law -/

/-- The validator a verified slash names is the one its proof names. -/
theorem slash_offender {validator : String} (hver : tx.verifyForBlock E validator = ok ())
    (ht : tx.transactionType = .slash) :
    ∃ proof, tx.slashProof = some proof ∧ proof.verify E = ok tx.recipient := by
  simp only [Transaction.verifyForBlock, ht, Outcome.bind_eq_ok, okOr_eq_ok, ensure_eq_ok] at hver
  obtain ⟨_, -, proof, hp, offender, hv, rfl⟩ := hver
  exact ⟨proof, hp, hv⟩

/-- Funds move only with their owner's authorization.  A verified transaction takes no HKM, no
tokens, no shares and no stake of an ordinary account it is not authenticated for, except
that a slash takes stake of the validator its verified proof names; closing a block takes no
HKM of an ordinary account. -/
theorem funds_stay_with_owner (s : ChainState) {x : String} (ho : Ordinary x) (height : UInt64)
    (validator : String) (s' : ChainState) :
    (∀ tx : Transaction, tx.verifyForBlock E validator = ok () →
      applyVerified E tx height s = ok ((), s') → ¬ tx.Authenticated E s x →
      s.balanceOf x ≤ s'.balanceOf x ∧
      (∀ t, s.tokenBalanceOf t x ≤ s'.tokenBalanceOf t x) ∧
      (∀ t, s.lpSharesOf t x ≤ s'.lpSharesOf t x) ∧
      (s.atRisk x ≤ s'.atRisk x ∨ tx.transactionType = .slash ∧
        ∃ proof, tx.slashProof = some proof ∧ proof.verify E = ok x)) ∧
    (endBlock E height validator s = ok ((), s') → s.balanceOf x ≤ s'.balanceOf x) := by
  constructor
  · intro tx hver h hx
    obtain ⟨-, -, happ⟩ := applyVerified_applied h
    have hkeeps := happ.keeps ho fun hsig => hx (happ.authenticated hver hsig)
    refine ⟨hkeeps.balance, hkeeps.tokens, hkeeps.shares, ?_⟩
    by_cases hslash : tx.transactionType = .slash ∧ tx.recipient = x
    · obtain ⟨ht, rfl⟩ := hslash
      exact Or.inr ⟨ht, slash_offender hver ht⟩
    · exact Or.inl (hkeeps.stake hslash)
  · intro h
    exact (endBlock_keeps ho s () s' (Keeps.refl False s x) h).balance

/-- Holder 7 creates a token; holder 8 loses nothing, and closing the block keeps it so. -/
theorem funds_stay_with_owner_sample :
    ∃ s' s'', applyVerified (Sample.node []) Sample.tokenCreation 1
        (Sample.genesis 1000000000000000000) = ok ((), s') ∧
      endBlock (Sample.node []) 1 (Sample.address 7) s' = ok ((), s'') ∧
      (Sample.genesis 1000000000000000000).balanceOf (Sample.address 8) ≤
        s'.balanceOf (Sample.address 8) ∧
      s'.balanceOf (Sample.address 8) ≤ s''.balanceOf (Sample.address 8) := by
  obtain ⟨⟨_, s'⟩, happ, hclose⟩ := exists_of_returns
    (p := fun r => (endBlock (Sample.node []) 1 (Sample.address 7) r.2).returns fun _ => true)
    (x := applyVerified (Sample.node []) Sample.tokenCreation 1
      (Sample.genesis 1000000000000000000)) (by decide +kernel)
  obtain ⟨⟨_, s''⟩, hend, -⟩ := exists_of_returns hclose
  have ho : Ordinary (Sample.address 8) :=
    ⟨by decide +kernel, by decide +kernel, by decide +kernel⟩
  have hx : ¬ Sample.tokenCreation.Authenticated (Sample.node []) (Sample.genesis 1000000000000000000)
      (Sample.address 8) :=
    fun h => absurd h.1 (by decide +kernel)
  have hver : Sample.tokenCreation.verifyForBlock (Sample.node []) (Sample.address 7) = ok () := by
    decide +kernel
  exact ⟨s', s'', happ, hend,
    ((funds_stay_with_owner _ ho 1 (Sample.address 7) s').1 _ hver happ hx).1,
    (funds_stay_with_owner s' ho 1 (Sample.address 7) s'').2 hend⟩

end ChainState
