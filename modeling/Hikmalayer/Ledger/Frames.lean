/-
# What the branches leave alone

A part `g` of the state that no write of a branch touches stays, however the branch ends.
The setters a branch uses are the hypotheses of its lemma, so that each part of the state
is framed by saying that those setters do not touch it.
-/
import Mathlib.Tactic
import Hikmalayer.Model.Apply

open Outcome Exec

namespace ChainState

variable {E : Node} {tx : Transaction} {height nonce amount fee : UInt64}
  {account tokenId validator : String} {γ : Type} {g : ChainState → γ}

/-! ## Primitives -/

section

variable (hb : ∀ s a v, g (setBalance s a v) = g s) (hf : ∀ s v, g (setFeePot s v) = g s)
  (ht : ∀ s t m, g (setHolders s t m) = g s) (hk : ∀ s a i, g (setStaker s a i) = g s)

include hb in
theorem debit_leaves : Leaves g (debit account amount) := by
  refine Leaves.update fun s s' h => ?_
  simp only [Outcome.bind_eq_ok, ensure_eq_ok, plain_eq_ok, pure_eq, ok.injEq] at h
  obtain ⟨_, -, rest, -, rfl⟩ := h
  exact hb s account rest

include hb in
theorem tryCredit_leaves : Leaves g (tryCredit account amount) := by
  refine Leaves.update fun s s' h => ?_
  simp only [Outcome.bind_eq_ok, okOr_eq_ok, pure_eq, ok.injEq] at h
  obtain ⟨balance, -, rfl⟩ := h
  exact hb s account balance

include hb in
theorem credit_leaves : Leaves g (credit E account amount) := by
  refine Leaves.update fun s s' h => ?_
  simp only [Outcome.bind_eq_ok, plain_eq_ok, pure_eq, ok.injEq] at h
  obtain ⟨balance, -, rfl⟩ := h
  exact hb s account balance

include hf in
theorem collectFee_leaves : Leaves g (collectFee E fee) := by
  refine Leaves.update fun s s' h => ?_
  simp only [Outcome.bind_eq_ok, plain_eq_ok, pure_eq, ok.injEq] at h
  obtain ⟨pot, -, rfl⟩ := h
  exact hf s pot

include ht in
theorem tryCreditToken_leaves : Leaves g (tryCreditToken tokenId account amount) := by
  refine Leaves.update fun s s' h => ?_
  simp only [Outcome.bind_eq_ok, okOr_eq_ok, pure_eq, ok.injEq] at h
  obtain ⟨balance, -, rfl⟩ := h
  exact ht s tokenId _

include ht in
theorem creditToken_leaves : Leaves g (creditToken E tokenId account amount) := by
  refine Leaves.update fun s s' h => ?_
  simp only [Outcome.bind_eq_ok, plain_eq_ok, pure_eq, ok.injEq] at h
  obtain ⟨balance, -, rfl⟩ := h
  exact ht s tokenId _

include ht in
theorem debitToken_leaves : Leaves g (debitToken tokenId account amount) := by
  refine Leaves.update fun s s' h => ?_
  simp only [Outcome.bind_eq_ok, ensure_eq_ok, okOr_eq_ok, plain_eq_ok, pure_eq, ok.injEq] at h
  obtain ⟨_, -, holders, -, entry, -, rest, -, rfl⟩ := h
  exact ht s tokenId _

include hk in
theorem updateStaker_leaves (f : StakeInfo → StakeInfo) : Leaves g (updateStaker account f) :=
  Leaves.modify fun s => hk s account _

include hk in
theorem setStake_leaves (stake : UInt64) : Leaves g (setStake account stake) := by
  refine Leaves.update fun s s' h => ?_
  simp only [Outcome.bind_eq_ok, plain_eq_ok, pure_eq, ok.injEq] at h
  obtain ⟨info, -, rfl⟩ := h
  exact hk s account _

theorem consumeNonce_leaves (hn : ∀ s a n, g (setNonce s a n) = g s) :
    Leaves g (consumeNonce account nonce) := by
  refine Leaves.update fun s s' h => ?_
  simp only [Outcome.bind_eq_ok, ensure_eq_ok, plain_eq_ok, pure_eq, ok.injEq] at h
  obtain ⟨_, -, _, -, rfl⟩ := h
  exact hn s account nonce

theorem guarded_leaves {α : Type} {checks : ChainState → Outcome String α} {sender : α → String}
    {effects : α → StateAction} (hn : ∀ s a n, g (setNonce s a n) = g s)
    (he : ∀ a, Leaves g (effects a)) : Leaves g (guarded checks sender nonce effects) :=
  (Leaves.read g _).bind fun a => (consumeNonce_leaves hn).bind fun _ => he a

/-! ## Branches -/

include hb hf in
theorem transferEffects_leaves (sender : String) : Leaves g (transferEffects E tx sender) :=
  (Leaves.read g _).bind fun _ => (Leaves.read g _).bind fun _ => (debit_leaves hb).bind fun _ =>
    (tryCredit_leaves hb).bind fun _ => collectFee_leaves hf

include hb hf hk in
theorem stakeEffects_leaves (r : StakeRequest) : Leaves g (stakeEffects E tx r) :=
  (Leaves.read g _).bind fun _ => (Leaves.read g _).bind fun _ => (debit_leaves hb).bind fun _ =>
    (tryCredit_leaves hb).bind fun _ => (collectFee_leaves hf).bind fun _ =>
      (updateStaker_leaves hk _).bind fun _ => (Leaves.read g _).bind fun _ =>
        (updateStaker_leaves hk _).bind fun _ => (Leaves.read g _).bind fun _ =>
          updateStaker_leaves hk _

include hb hf hk in
theorem withdrawEffects_leaves (hu : ∀ s m, g (setUnbonding s m) = g s) (r : WithdrawRequest) :
    Leaves g (withdrawEffects E tx height r) :=
  (Leaves.read g _).bind fun _ => (debit_leaves hb).bind fun _ =>
    (collectFee_leaves hf).bind fun _ => (setStake_leaves hk _).bind fun _ =>
      (Leaves.read g _).bind fun _ => Leaves.modify fun _ => hu _ _

include hb hf in
theorem vestEffects_leaves (hv : ∀ s m, g (setVesting s m) = g s) (r : VestRequest) :
    Leaves g (vestEffects E tx height r) :=
  (Leaves.read g _).bind fun _ => (Leaves.read g _).bind fun _ => (debit_leaves hb).bind fun _ =>
    (tryCredit_leaves hb).bind fun _ => (collectFee_leaves hf).bind fun _ =>
      (Leaves.read g _).bind fun _ => (Leaves.read g _).bind fun _ => Leaves.modify fun _ => hv _ _

include hb in
theorem applyReward_leaves (hs : ∀ s v w, g (setSupply s v w) = g s) :
    Leaves g (applyReward E tx) := by
  refine (credit_leaves hb).bind fun _ => Leaves.update fun s s' h => ?_
  simp only [Outcome.bind_eq_ok, plain_eq_ok, pure_eq, ok.injEq] at h
  obtain ⟨totalSupply, -, rfl⟩ := h
  exact hs s _ _

include hb hf ht in
theorem tokenCreateEffects_leaves (hr : ∀ s t i, g (setToken s t i) = g s) (r : TokenRequest) :
    Leaves g (tokenCreateEffects E tx height r) :=
  (Leaves.read g _).bind fun _ => (debit_leaves hb).bind fun _ =>
    (collectFee_leaves hf).bind fun _ => (Leaves.modify fun s => hr s _ _).bind fun _ =>
      tryCreditToken_leaves ht

include hb hf ht in
theorem tokenTransferEffects_leaves (r : TokenRequest) : Leaves g (tokenTransferEffects E tx r) :=
  (Leaves.read g _).bind fun _ => (debit_leaves hb).bind fun _ =>
    (collectFee_leaves hf).bind fun _ => (debitToken_leaves ht).bind fun _ =>
      tryCreditToken_leaves ht

include hb hf ht in
theorem tokenBurnEffects_leaves (hr : ∀ s t i, g (setToken s t i) = g s) (r : TokenRequest) :
    Leaves g (tokenBurnEffects E tx r) := by
  refine (Leaves.read g _).bind fun _ => (debit_leaves hb).bind fun _ =>
    (collectFee_leaves hf).bind fun _ => (debitToken_leaves ht).bind fun _ =>
      Leaves.update fun s s' h => ?_
  split at h
  · simp only [Outcome.bind_eq_ok, plain_eq_ok, pure_eq, ok.injEq] at h
    obtain ⟨totalSupply, -, rfl⟩ := h
    exact hr s _ _
  · rw [pure_eq, ok.injEq] at h
    rw [h]

include hb hf ht in
theorem addLiquidityEffects_leaves (hp : ∀ s t p, g (setPool s t p) = g s)
    (hl : ∀ s t m, g (setProviders s t m) = g s) (r : AddRequest) :
    Leaves g (addLiquidityEffects E r) := by
  refine (Leaves.read g _).bind fun _ => (Leaves.read g _).bind fun _ =>
    (debit_leaves hb).bind fun _ => (collectFee_leaves hf).bind fun _ =>
      (tryCredit_leaves hb).bind fun _ => (debitToken_leaves ht).bind fun _ =>
        (tryCreditToken_leaves ht).bind fun _ => (Leaves.modify fun s => hp s _ _).bind fun _ =>
          Leaves.bind (Leaves.update fun s s' h => ?_) fun _ => Leaves.update fun s s' h => ?_
  · simp only [Outcome.bind_eq_ok, okOr_eq_ok, pure_eq, ok.injEq] at h
    obtain ⟨_, -, _, -, _, -, _, -, rfl⟩ := h
    exact hp s _ _
  · simp only [Outcome.bind_eq_ok, okOr_eq_ok, pure_eq, ok.injEq] at h
    obtain ⟨_, -, rfl⟩ := h
    exact hl s _ _

theorem burnShares_leaves (hl : ∀ s t m, g (setProviders s t m) = g s) (shares : UInt64) :
    Leaves g (burnShares tokenId account shares) := by
  refine Leaves.update fun s s' h => ?_
  simp only [Outcome.bind_eq_ok, plain_eq_ok, pure_eq, ok.injEq] at h
  obtain ⟨_, -, _, -, _, -, rfl⟩ := h
  exact hl s _ _

include hb hf ht in
theorem removeLiquidityEffects_leaves (hp : ∀ s t p, g (setPool s t p) = g s)
    (hl : ∀ s t m, g (setProviders s t m) = g s) (r : RemoveRequest) :
    Leaves g (removeLiquidityEffects E r) := by
  refine (Leaves.read g _).bind fun _ => (debit_leaves hb).bind fun _ =>
    (collectFee_leaves hf).bind fun _ => (burnShares_leaves hl _).bind fun _ =>
      (debit_leaves hb).bind fun _ => (credit_leaves hb).bind fun _ =>
        (debitToken_leaves ht).bind fun _ => (creditToken_leaves ht).bind fun _ =>
          Leaves.update fun s s' h => ?_
  simp only [Outcome.bind_eq_ok, plain_eq_ok, pure_eq, ok.injEq] at h
  obtain ⟨_, -, _, -, _, -, _, -, rfl⟩ := h
  exact hp s _ _

include hb hf ht in
theorem swapEffects_leaves (hp : ∀ s t p, g (setPool s t p) = g s) (r : SwapRequest) :
    Leaves g (swapEffects E r) := by
  unfold swapEffects
  split
  · refine (Leaves.read g _).bind fun _ => (Leaves.read g _).bind fun _ =>
      (debit_leaves hb).bind fun _ => (collectFee_leaves hf).bind fun _ =>
        (tryCredit_leaves hb).bind fun _ => (debitToken_leaves ht).bind fun _ =>
          (creditToken_leaves ht).bind fun _ => Leaves.update fun s s' h => ?_
    simp only [Outcome.bind_eq_ok, plain_eq_ok, okOr_eq_ok, pure_eq, ok.injEq] at h
    obtain ⟨_, -, _, -, _, -, rfl⟩ := h
    exact hp s _ _
  · refine (Leaves.read g _).bind fun _ => (debit_leaves hb).bind fun _ =>
      (collectFee_leaves hf).bind fun _ => (debitToken_leaves ht).bind fun _ =>
        (tryCreditToken_leaves ht).bind fun _ => (debit_leaves hb).bind fun _ =>
          (credit_leaves hb).bind fun _ => Leaves.update fun s s' h => ?_
    simp only [Outcome.bind_eq_ok, plain_eq_ok, okOr_eq_ok, pure_eq, ok.injEq] at h
    obtain ⟨_, -, _, -, _, -, rfl⟩ := h
    exact hp s _ _

theorem certificateEffects_leaves (hc : ∀ s i r, g (setCredential s i r) = g s)
    (action : CredentialAction) (issuer : String) :
    Leaves g (certificateEffects tx action issuer) := by
  refine Leaves.update fun s s' h => ?_
  split at h
  · simp only [Outcome.bind_eq_ok, okOr_eq_ok, ensure_eq_ok, pure_eq, ok.injEq] at h
    obtain ⟨_, -, _, -, rfl⟩ := h
    exact hc s _ _
  · simp only [Outcome.bind_eq_ok, ensure_eq_ok, pure_eq, ok.injEq] at h
    obtain ⟨_, -, rfl⟩ := h
    exact hc s _ _

include hb hk in
theorem slashEffects_leaves (hs : ∀ s v w, g (setSupply s v w) = g s)
    (hu : ∀ s m, g (setUnbonding s m) = g s) (ho : ∀ s k v, g (setOffense s k v) = g s)
    (validator : String) (r : SlashRequest) : Leaves g (slashEffects E validator r) := by
  refine (debit_leaves hb).bind fun _ => Leaves.bind (Leaves.update fun s s' h => ?_) fun _ =>
    (Leaves.read g _).bind fun _ => (setStake_leaves hk _).bind fun _ =>
      (Leaves.read g _).bind fun _ => Leaves.bind (Leaves.update fun s s' h => ?_) fun _ =>
        Leaves.modify fun s => ho s _ _
  · simp only [Outcome.bind_eq_ok, plain_eq_ok, pure_eq, ok.injEq] at h
    obtain ⟨_, -, _, -, rfl⟩ := h
    exact hs s _ _
  · split at h
    · rw [ok.injEq] at h
      rw [h]
    · split at h
      · rw [ok.injEq] at h
        rw [h]
      · simp only [Outcome.bind_eq_ok, pure_eq, ok.injEq] at h
        obtain ⟨_, -, rfl⟩ := h
        exact hu s _

/-! ## Closing a block -/

include hb in
theorem payOut_leaves (reserve : String) : Leaves g (payOut E reserve account amount) := by
  unfold payOut
  split
  · exact (debit_leaves hb).attempt.bind fun _ => credit_leaves hb
  · exact Leaves.pure g ()

include hb in
theorem releaseUnbonding_leaves (hu : ∀ s m, g (setUnbonding s m) = g s)
    (he : ∀ s a, g (eraseStaker s a) = g s) :
    Leaves g (releaseUnbonding E height account) := by
  refine Leaves.bind (Leaves.readWrite fun s a s' h => ?_) fun _ =>
    (payOut_leaves hb _).bind fun _ => Leaves.modify fun s => ?_
  · unfold takeMatured at h
    split at h
    · rw [ok.injEq, Prod.mk.injEq] at h
      rw [h.2]
    · simp only [Outcome.bind_eq_ok, pure_eq, ok.injEq, Prod.mk.injEq] at h
      obtain ⟨_, -, -, rfl⟩ := h
      exact hu s _
  · split
    · exact he s account
    · rfl

include hb in
theorem releaseVesting_leaves (hv : ∀ s m, g (setVesting s m) = g s) :
    Leaves g (releaseVesting E height account) := by
  refine Leaves.bind (Leaves.readWrite fun s a s' h => ?_) fun _ => payOut_leaves hb _
  unfold takeVested at h
  split at h
  · rw [ok.injEq, Prod.mk.injEq] at h
    rw [h.2]
  · simp only [Outcome.bind_eq_ok, pure_eq, ok.injEq, Prod.mk.injEq] at h
    obtain ⟨_, -, -, rfl⟩ := h
    exact hv s _

include hb hf in
theorem settleFees_leaves (hbf : ∀ s v, g (setBaseFee s v) = g s) :
    Leaves g (settleFees E validator) := by
  refine Leaves.bind (Leaves.update fun s s' h => ?_) fun _ => (Leaves.read g _).bind fun _ => ?_
  · simp only [Outcome.bind_eq_ok, pure_eq, ok.injEq] at h
    obtain ⟨_, -, rfl⟩ := h
    exact hbf s _
  · split
    · exact (Leaves.modify fun s => hf s _).bind fun _ => credit_leaves hb
    · exact Leaves.pure g ()

include hb hf in
theorem endBlock_leaves (hu : ∀ s m, g (setUnbonding s m) = g s)
    (hv : ∀ s m, g (setVesting s m) = g s) (he : ∀ s a, g (eraseStaker s a) = g s)
    (hbf : ∀ s v, g (setBaseFee s v) = g s) : Leaves g (endBlock E height validator) :=
  (Leaves.read g _).bind fun _ =>
    (Leaves.forEach (fun _ => releaseUnbonding_leaves hb hu he) _).bind fun _ =>
      (Leaves.read g _).bind fun _ =>
        (Leaves.forEach (fun _ => releaseVesting_leaves hb hv) _).bind fun _ =>
          settleFees_leaves hb hf hbf

end

/-! ## Assets -/

/-- The part of the state that native tokens and pools live in. -/
structure Assets where
  tokens : BTreeMap TokenInfo
  tokenBalances : BTreeMap (BTreeMap UInt64)
  pools : BTreeMap Pool
  lpShares : BTreeMap (BTreeMap UInt64)

def assets (s : ChainState) : Assets := ⟨s.tokens, s.tokenBalances, s.pools, s.lpShares⟩

/-- Housekeeping leaves tokens and pools alone. -/
theorem endBlock_assets : Leaves assets (endBlock E height validator) :=
  endBlock_leaves (fun _ _ _ => rfl) (fun _ _ => rfl) (fun _ _ => rfl) (fun _ _ => rfl)
    (fun _ _ => rfl) (fun _ _ => rfl)

/-- The types that trade neither tokens nor liquidity. -/
def isPlain (t : TransactionType) : Bool :=
  t matches .transfer | .stake | .withdraw | .vest | .reward | .certificate | .slash

/-- Transactions of the other types leave tokens and pools alone. -/
theorem applyBranch_assets (h : isPlain tx.transactionType = true) :
    Leaves assets (applyBranch E tx height) := by
  unfold applyBranch
  cases ht : tx.transactionType <;> rw [ht] at h
  case transfer =>
    exact guarded_leaves (fun _ _ _ => rfl) fun _ =>
      transferEffects_leaves (fun _ _ _ => rfl) (fun _ _ => rfl) _
  case stake =>
    exact guarded_leaves (fun _ _ _ => rfl) fun _ =>
      stakeEffects_leaves (fun _ _ _ => rfl) (fun _ _ => rfl) (fun _ _ _ => rfl) _
  case withdraw =>
    exact guarded_leaves (fun _ _ _ => rfl) fun _ =>
      withdrawEffects_leaves (fun _ _ _ => rfl) (fun _ _ => rfl) (fun _ _ _ => rfl)
        (fun _ _ => rfl) _
  case vest =>
    exact guarded_leaves (fun _ _ _ => rfl) fun _ =>
      vestEffects_leaves (fun _ _ _ => rfl) (fun _ _ => rfl) (fun _ _ => rfl) _
  case reward => exact applyReward_leaves (fun _ _ _ => rfl) (fun _ _ _ => rfl)
  case certificate =>
    change Leaves assets (applyCertificate tx)
    unfold applyCertificate
    split
    · exact Leaves.pure _ ()
    · exact guarded_leaves (fun _ _ _ => rfl) fun _ =>
        certificateEffects_leaves (fun _ _ _ => rfl) _ _
  case slash =>
    exact (Leaves.read _ _).bind fun _ =>
      slashEffects_leaves (fun _ _ _ => rfl) (fun _ _ _ => rfl) (fun _ _ _ => rfl)
        (fun _ _ => rfl) (fun _ _ _ => rfl) _ _
  all_goals cases h

/-! ## Nonces -/

/-- Only taking a nonce writes one: no mutation after it does. -/
theorem transferEffects_nonces (sender : String) : Leaves nonces (transferEffects E tx sender) :=
  transferEffects_leaves (fun _ _ _ => rfl) (fun _ _ => rfl) sender

theorem stakeEffects_nonces (r : StakeRequest) : Leaves nonces (stakeEffects E tx r) :=
  stakeEffects_leaves (fun _ _ _ => rfl) (fun _ _ => rfl) (fun _ _ _ => rfl) r

theorem withdrawEffects_nonces (r : WithdrawRequest) :
    Leaves nonces (withdrawEffects E tx height r) :=
  withdrawEffects_leaves (fun _ _ _ => rfl) (fun _ _ => rfl) (fun _ _ _ => rfl) (fun _ _ => rfl) r

theorem vestEffects_nonces (r : VestRequest) : Leaves nonces (vestEffects E tx height r) :=
  vestEffects_leaves (fun _ _ _ => rfl) (fun _ _ => rfl) (fun _ _ => rfl) r

theorem applyReward_nonces : Leaves nonces (applyReward E tx) :=
  applyReward_leaves (fun _ _ _ => rfl) (fun _ _ _ => rfl)

theorem tokenCreateEffects_nonces (r : TokenRequest) :
    Leaves nonces (tokenCreateEffects E tx height r) :=
  tokenCreateEffects_leaves (fun _ _ _ => rfl) (fun _ _ => rfl) (fun _ _ _ => rfl)
    (fun _ _ _ => rfl) r

theorem tokenTransferEffects_nonces (r : TokenRequest) :
    Leaves nonces (tokenTransferEffects E tx r) :=
  tokenTransferEffects_leaves (fun _ _ _ => rfl) (fun _ _ => rfl) (fun _ _ _ => rfl) r

theorem tokenBurnEffects_nonces (r : TokenRequest) : Leaves nonces (tokenBurnEffects E tx r) :=
  tokenBurnEffects_leaves (fun _ _ _ => rfl) (fun _ _ => rfl) (fun _ _ _ => rfl)
    (fun _ _ _ => rfl) r

theorem addLiquidityEffects_nonces (r : AddRequest) : Leaves nonces (addLiquidityEffects E r) :=
  addLiquidityEffects_leaves (fun _ _ _ => rfl) (fun _ _ => rfl) (fun _ _ _ => rfl)
    (fun _ _ _ => rfl) (fun _ _ _ => rfl) r

theorem removeLiquidityEffects_nonces (r : RemoveRequest) :
    Leaves nonces (removeLiquidityEffects E r) :=
  removeLiquidityEffects_leaves (fun _ _ _ => rfl) (fun _ _ => rfl) (fun _ _ _ => rfl)
    (fun _ _ _ => rfl) (fun _ _ _ => rfl) r

theorem swapEffects_nonces (r : SwapRequest) : Leaves nonces (swapEffects E r) :=
  swapEffects_leaves (fun _ _ _ => rfl) (fun _ _ => rfl) (fun _ _ _ => rfl) (fun _ _ _ => rfl) r

theorem certificateEffects_nonces (action : CredentialAction) (issuer : String) :
    Leaves nonces (certificateEffects tx action issuer) :=
  certificateEffects_leaves (fun _ _ _ => rfl) action issuer

theorem applySlash_nonces : Leaves nonces (applySlash E tx height) :=
  (Leaves.read _ _).bind fun r =>
    slashEffects_leaves (fun _ _ _ => rfl) (fun _ _ _ => rfl) (fun _ _ _ => rfl)
      (fun _ _ => rfl) (fun _ _ _ => rfl) _ r

theorem endBlock_nonces : Leaves nonces (endBlock E height validator) :=
  endBlock_leaves (fun _ _ _ => rfl) (fun _ _ => rfl) (fun _ _ => rfl) (fun _ _ => rfl)
    (fun _ _ => rfl) (fun _ _ => rfl)

end ChainState
