/-
# What can abort a block

The plain operators of `apply_verified` and `end_block` abort the process where a checked one would
return an error.  On a reachable state one of them does so only where a slash proof names a height
near the largest word, or where the next nonce of a sender is no word any more.
-/
import Mathlib.Tactic
import Hikmalayer.Ledger.Atomicity
import Hikmalayer.Ledger.Backing
import Hikmalayer.Ledger.Liquidity
import Hikmalayer.Ledger.Window

open Outcome Exec OrderedMap

namespace ChainState

variable {E : Node} {s s' : ChainState} {tx : Transaction} {height : UInt64}
  {account tokenId : String} {amount fee : UInt64}

/-! ## The primitives -/

theorem debit_steady : Steady (debit account amount) := fun _ => debit_ne_panicked

theorem tryCredit_steady : Steady (tryCredit account amount) := fun _ => tryCredit_ne_panicked

theorem tryCreditToken_steady : Steady (tryCreditToken tokenId account amount) := fun _ =>
  tryCreditToken_ne_panicked

theorem totalDebit_steady : Steady (Exec.read fun _ : ChainState => totalDebit amount fee) :=
  Steady.read fun _ => okOr_ne_panicked

theorem baseFee_steady :
    Steady (Exec.read fun s : ChainState => (ok s.baseFee : Outcome String UInt64)) :=
  Steady.read fun _ => nofun

/-- A positive amount of tokens is not taken from a missing holder. -/
theorem debitToken_steady (h0 : amount ≠ 0) : Steady (debitToken tokenId account amount) :=
  fun _ h => h0 (debitToken_panicked h).2.2

section

variable (hE : E.saturation = .clamp)

include hE

/-- The saturating operators never leave the words. -/
theorem saturating_ne_panicked {a b : UInt64} (f : UInt64 → ChainState) :
    (do let c ← plain (E.saturation.add a b); return f c : Outcome String ChainState) ≠ panicked ∧
      (do let c ← plain (E.saturation.sub a b); return f c : Outcome String ChainState) ≠
        panicked := by
  rw [hE, Word.Saturation.add_clamp, Word.Saturation.sub_clamp, plain_some, plain_some]
  exact ⟨nofun, nofun⟩

theorem credit_steady : Steady (credit E account amount) :=
  Steady.update fun _ => (saturating_ne_panicked hE _).1

theorem collectFee_steady : Steady (collectFee E fee) :=
  Steady.update fun _ => (saturating_ne_panicked hE _).1

theorem creditToken_steady : Steady (creditToken E tokenId account amount) :=
  Steady.update fun _ => (saturating_ne_panicked hE _).1

/-! ## The mutations of the branches -/

theorem transferEffects_steady (sender : String) : Steady (transferEffects E tx sender) :=
  baseFee_steady.bind fun _ => totalDebit_steady.bind fun _ => debit_steady.bind fun _ =>
    tryCredit_steady.bind fun _ => collectFee_steady hE

theorem stakeEffects_steady (r : StakeRequest) : Steady (stakeEffects E tx r) := by
  refine baseFee_steady.bind fun _ => totalDebit_steady.bind fun _ => debit_steady.bind fun _ =>
    tryCredit_steady.bind fun _ => (collectFee_steady hE).bind fun _ => ?_
  refine (Steady.modify _).bind fun _ => (Steady.read fun _ => okOr_ne_panicked).bind fun _ =>
    (Steady.modify _).bind fun _ => (Steady.read fun _ => ?_).bind fun _ => Steady.modify _
  split
  · exact okOr_ne_panicked
  · nofun

/-- Unbonding needs a registered staker, and a height that has room for the delay. -/
theorem withdrawEffects_steady {r : WithdrawRequest} {stakers : BTreeMap StakeInfo}
    (hmem : r.sender ∈ stakers) (hroom : height.toNat + unbondingBlocks.toNat < 2 ^ 64) :
    SteadyAt ChainState.stakers stakers (withdrawEffects E tx height r) := by
  refine SteadyAt.bind (Leaves.read _ _) baseFee_steady fun fee => ?_
  refine SteadyAt.bind (debit_leaves fun _ _ _ => rfl) debit_steady fun _ => ?_
  refine SteadyAt.bind (collectFee_leaves fun _ _ => rfl) (collectFee_steady hE) fun _ => ?_
  rintro s rfl h
  simp only [Exec.bind_eq_panicked, setStake, update_eq_panicked, Outcome.bind_eq_panicked,
    plain_eq_panicked, pure_eq, reduceCtorEq, and_false, exists_false, or_false, read_eq_panicked,
    Word.checkedAdd_eq_none, modify_apply] at h
  rcases h with h | ⟨_, _, -, h⟩
  · rw [Std.ExtTreeMap.mem_iff_isSome_getElem?, h] at hmem
    cases hmem
  · omega

/-- Vesting needs a height that has room for its schedule. -/
theorem vestEffects_steady (r : VestRequest) (hcliff : height.toNat + r.cliff.toNat < 2 ^ 64)
    (hduration : height.toNat + r.duration.toNat < 2 ^ 64) : Steady (vestEffects E tx height r) := by
  have hroom : ∀ {a : UInt64}, height.toNat + a.toNat < 2 ^ 64 →
      Steady (Exec.read fun _ : ChainState => (plain (Word.checkedAdd height a) :
        Outcome String UInt64)) := by
    intro a ha
    refine Steady.read fun _ h => ?_
    rw [plain_eq_panicked, Word.checkedAdd_eq_none] at h
    omega
  exact baseFee_steady.bind fun _ => totalDebit_steady.bind fun _ => debit_steady.bind fun _ =>
    tryCredit_steady.bind fun _ => (collectFee_steady hE).bind fun _ =>
      (hroom hcliff).bind fun _ => (hroom hduration).bind fun _ => Steady.modify _

theorem applyReward_steady : Steady (applyReward E tx) :=
  (credit_steady hE).bind fun _ =>
    Steady.update fun _ => (saturating_ne_panicked hE _).1

theorem tokenCreateEffects_steady (r : TokenRequest) : Steady (tokenCreateEffects E tx height r) :=
  baseFee_steady.bind fun _ => debit_steady.bind fun _ => (collectFee_steady hE).bind fun _ =>
    (Steady.modify _).bind fun _ => tryCreditToken_steady

theorem tokenTransferEffects_steady (h0 : tx.amount ≠ 0) (r : TokenRequest) :
    Steady (tokenTransferEffects E tx r) :=
  baseFee_steady.bind fun _ => debit_steady.bind fun _ => (collectFee_steady hE).bind fun _ =>
    (debitToken_steady h0).bind fun _ => tryCreditToken_steady

theorem tokenBurnEffects_steady (h0 : tx.amount ≠ 0) (r : TokenRequest) :
    Steady (tokenBurnEffects E tx r) := by
  refine baseFee_steady.bind fun _ => debit_steady.bind fun _ => (collectFee_steady hE).bind fun _ =>
    (debitToken_steady h0).bind fun _ => Steady.update fun s => ?_
  split
  · exact (saturating_ne_panicked hE _).2
  · nofun

theorem addLiquidityEffects_steady {r : AddRequest} (h0 : r.quote.useToken ≠ 0) :
    Steady (addLiquidityEffects E r) := by
  refine baseFee_steady.bind fun _ => totalDebit_steady.bind fun _ => debit_steady.bind fun _ =>
    (collectFee_steady hE).bind fun _ => tryCredit_steady.bind fun _ =>
      (debitToken_steady h0).bind fun _ => tryCreditToken_steady.bind fun _ =>
        (Steady.modify _).bind fun _ => (Steady.update fun _ => ?_).bind fun _ =>
          Steady.update fun _ => ?_
  · simp only [ne_eq, Outcome.bind_eq_panicked, mintedTotal_ne_panicked, okOr_ne_panicked, pure_eq,
      reduceCtorEq, and_false, exists_false, or_self, not_false_eq_true]
  · simp only [ne_eq, Outcome.bind_eq_panicked, okOr_ne_panicked, pure_eq, reduceCtorEq, and_false,
      exists_false, or_self, not_false_eq_true]

/-! ## Removals and swaps -/

/-- A removal from a pool that holds what is paid out. -/
theorem removeLiquidityEffects_steady {r : RemoveRequest} {pool : Pool} {s : ChainState}
    (hle : r.shares ≤ s.lpSharesOf r.tokenId r.sender) (h0 : r.shares ≠ 0)
    (ht : r.amountToken ≠ 0) (hp : s.pools[r.tokenId]? = some pool)
    (hhkm : r.amountHkm.toNat ≤ pool.reserveHkm.toNat)
    (htoken : r.amountToken.toNat ≤ pool.reserveToken.toNat)
    (hshares : r.shares.toNat ≤ pool.totalShares.toNat) :
    SteadyAt (fun s => (s.pools, s.lpShares)) (s.pools, s.lpShares)
      (removeLiquidityEffects E r) := by
  refine SteadyAt.bind (Leaves.read _ _) baseFee_steady fun fee => ?_
  refine SteadyAt.bind (debit_leaves fun _ _ _ => rfl) debit_steady fun _ => ?_
  refine SteadyAt.bind (collectFee_leaves fun _ _ => rfl) (collectFee_steady hE) fun _ => ?_
  intro s₁ hs₁
  obtain ⟨hpools, hproviders⟩ := Prod.mk.inj hs₁
  have hheld : s₁.lpSharesOf r.tokenId r.sender = s.lpSharesOf r.tokenId r.sender := by
    rw [lpSharesOf, hproviders, lpSharesOf]
  rw [Exec.bind_of_ok (burnShares_of_held (hheld ▸ hle) h0)]
  -- the shares are gone; what is left reads the pool only
  refine SteadyAt.bind (g := ChainState.pools) (v := s.pools) (debit_leaves fun _ _ _ => rfl)
    debit_steady (fun _ => ?_) _ hpools
  refine SteadyAt.bind (credit_leaves fun _ _ _ => rfl) (credit_steady hE) fun _ => ?_
  refine SteadyAt.bind (debitToken_leaves fun _ _ _ => rfl) (debitToken_steady ht) fun _ => ?_
  refine SteadyAt.bind (creditToken_leaves fun _ _ _ => rfl) (creditToken_steady hE) fun _ => ?_
  intro s₂ hs₂
  rw [ne_eq, update_eq_panicked, hs₂, hp, plain_some, ok_bind, Word.checkedSub_of_le hhkm, plain_some,
    ok_bind, Word.checkedSub_of_le htoken, plain_some, ok_bind, Word.checkedSub_of_le hshares,
    plain_some, ok_bind]
  intro h
  cases h

/-- A swap that leaves something on the side it takes from. -/
theorem swapEffects_steady {r : SwapRequest} {pool : Pool} {pools : BTreeMap Pool}
    (hin : r.amountIn ≠ 0) (hout : r.amountOut ≠ 0) (hp : pools[r.tokenId]? = some pool)
    (hlt : r.amountOut.toNat ≤ (reserveOut pool r.hkmToToken).toNat) :
    SteadyAt ChainState.pools pools (swapEffects E r) := by
  unfold swapEffects
  unfold reserveOut at hlt
  split
  · rename_i hd
    rw [if_pos hd] at hlt
    refine SteadyAt.bind (Leaves.read _ _) baseFee_steady fun fee => ?_
    refine SteadyAt.bind (Leaves.read _ _) totalDebit_steady fun _ => ?_
    refine SteadyAt.bind (debit_leaves fun _ _ _ => rfl) debit_steady fun _ => ?_
    refine SteadyAt.bind (collectFee_leaves fun _ _ => rfl) (collectFee_steady hE) fun _ => ?_
    refine SteadyAt.bind (tryCredit_leaves fun _ _ _ => rfl) tryCredit_steady fun _ => ?_
    refine SteadyAt.bind (debitToken_leaves fun _ _ _ => rfl) (debitToken_steady hout) fun _ => ?_
    refine SteadyAt.bind (creditToken_leaves fun _ _ _ => rfl) (creditToken_steady hE) fun _ => ?_
    intro s hs h
    simp only [update_eq_panicked, hs, hp, plain_some, ok_bind, Outcome.bind_eq_panicked,
      okOr_ne_panicked, Word.checkedSub_of_le hlt, pure_eq, reduceCtorEq, and_false, exists_false,
      or_self] at h
  · rename_i hd
    rw [if_neg hd] at hlt
    refine SteadyAt.bind (Leaves.read _ _) baseFee_steady fun fee => ?_
    refine SteadyAt.bind (debit_leaves fun _ _ _ => rfl) debit_steady fun _ => ?_
    refine SteadyAt.bind (collectFee_leaves fun _ _ => rfl) (collectFee_steady hE) fun _ => ?_
    refine SteadyAt.bind (debitToken_leaves fun _ _ _ => rfl) (debitToken_steady hin) fun _ => ?_
    refine SteadyAt.bind (tryCreditToken_leaves fun _ _ _ => rfl) tryCreditToken_steady fun _ => ?_
    refine SteadyAt.bind (debit_leaves fun _ _ _ => rfl) debit_steady fun _ => ?_
    refine SteadyAt.bind (credit_leaves fun _ _ _ => rfl) (credit_steady hE) fun _ => ?_
    intro s hs h
    simp only [update_eq_panicked, hs, hp, plain_some, ok_bind, Outcome.bind_eq_panicked,
      okOr_ne_panicked, Word.checkedSub_of_le hlt, pure_eq, reduceCtorEq, and_false, exists_false,
      or_self] at h

end

theorem certificateEffects_steady (action : CredentialAction) (issuer : String) :
    Steady (certificateEffects tx action issuer) := by
  refine Steady.update fun s => ?_
  split <;> simp only [ne_eq, Outcome.bind_eq_panicked, okOr_ne_panicked, ensure_ne_panicked, pure_eq,
    reduceCtorEq, and_false, exists_false, or_self, not_false_eq_true]

/-! ## The checks of the branches -/

theorem transferChecks_ne_panicked : transferChecks tx s ≠ panicked := by
  simp only [transferChecks, ne_eq, Outcome.bind_eq_panicked, okOr_ne_panicked, ensure_ne_panicked,
    pure_eq, reduceCtorEq, and_false, exists_false, or_self, not_false_eq_true]

theorem stakeChecks_ne_panicked (hE : E.saturation = .clamp) : stakeChecks E tx s ≠ panicked := by
  simp only [stakeChecks, ne_eq, hE, Word.Saturation.add_clamp, plain_some, ok_bind,
    Outcome.bind_eq_panicked, okOr_ne_panicked, ensure_ne_panicked, pure_eq, reduceCtorEq, and_false,
    exists_false, or_self, not_false_eq_true]

theorem withdrawChecks_ne_panicked : withdrawChecks E tx s ≠ panicked := by
  have hkey : ∀ {message registered : String},
      checkRegisteredPqKey E tx message registered ≠ panicked := by
    intro message registered
    unfold checkRegisteredPqKey
    split <;> simp only [ne_eq, Outcome.bind_eq_panicked, okOr_ne_panicked, ensure_ne_panicked,
      and_false, exists_false, or_self, not_false_eq_true]
  simp only [withdrawChecks, ne_eq, Outcome.bind_eq_panicked, okOr_ne_panicked, ensure_ne_panicked,
    hkey, ensure_eq_ok, plain_eq_panicked, Word.checkedSub_eq_none, UInt64.lt_iff_toNat_lt, pure_eq,
    reduceCtorEq, and_false, exists_false, or_false, false_or, not_exists, not_and]
  intro _ _ _ _ _ _ _ _ _ _ _ hle hlt
  exact hle hlt

theorem vestChecks_ne_panicked : vestChecks tx s ≠ panicked := by
  simp only [vestChecks, ne_eq, Outcome.bind_eq_panicked, okOr_ne_panicked, ensure_ne_panicked,
    pure_eq, reduceCtorEq, and_false, exists_false, or_self, not_false_eq_true]

theorem tokenChecks_ne_panicked : tokenCreateChecks E tx s ≠ panicked ∧
    tokenTransferChecks tx s ≠ panicked ∧ tokenBurnChecks tx s ≠ panicked := by
  refine ⟨?_, ?_, ?_⟩ <;>
    simp only [tokenCreateChecks, tokenTransferChecks, tokenBurnChecks, ne_eq,
      Outcome.bind_eq_panicked, okOr_ne_panicked, ensure_ne_panicked, pure_eq, reduceCtorEq,
      and_false, exists_false, or_self, not_false_eq_true]

/-- On a sound ledger only the deadline of a slash can leave the words. -/
theorem slashChecks_eq_panicked (hs : Sound s) : slashChecks tx height s = panicked ↔
    ∃ proof, tx.slashProof = some proof ∧ Overflows proof.blockA.index slashingWindowBlocks := by
  have hrisk := hs.atRisk_le tx.recipient
  have hlt := Word.toNat_lt (valueAt s.balances stakingPoolAccount)
  cases hp : tx.slashProof with
  | none => simp [slashChecks, hp]
  | some proof =>
    simp only [slashChecks, hp, okOr_some, ok_bind, Outcome.bind_eq_panicked, plain_eq_panicked,
      Word.checkedAdd_eq_none, Option.some.injEq, exists_eq_left']
    refine or_iff_left ?_
    rintro ⟨deadline, -, h⟩
    simp only [ensure_ne_panicked, ensure_eq_ok, okOr_ne_panicked, okOr_eq_ok, false_or, pure_eq,
      reduceCtorEq, and_false, exists_false, or_false] at h
    obtain ⟨_, -, info, hi, _, -, _, -, h⟩ := h
    rw [atRisk, hi, Option.getD_some] at hrisk
    rcases h with h | ⟨unbonding, hu, h⟩
    · have hsum := Word.checkedSum_of_lt (l := (s.unbonding[tx.recipient]?.getD []).map (·.amount))
        (by rw [List.map_map]; exact Nat.lt_of_le_of_lt (Nat.le_trans (Nat.le_add_left _ _) hrisk) hlt)
      rw [unbondingTotal, hsum] at h
      cases h
    · rw [unbondingTotal_eq_ok] at hu
      omega

/-! ## Closing a block -/

/-- Between its bounds the base fee steps, and the fees are paid to whoever is named. -/
theorem settleFees_returns (hE : E.saturation = .clamp) (hs : Sound s) (producer : String) :
    ∃ s', settleFees E producer s = ok ((), s') := by
  obtain ⟨next, hnext, -⟩ := nextBaseFee_total hs.baseFee (feePayingTxs s)
  have hbase : Exec.update (fun s : ChainState => do
      let feePayingTxs := if 0 < s.baseFee then s.feePot / s.baseFee else 0
      let baseFee ← nextBaseFee E s.baseFee feePayingTxs
      return s.setBaseFee baseFee) s = ok ((), s.setBaseFee next) := by
    rw [update_eq_ok]
    change (nextBaseFee E s.baseFee (feePayingTxs s) >>= _) = _
    rw [hnext E, ok_bind]
    rfl
  unfold settleFees
  rw [Exec.bind_of_ok hbase, Exec.read_ok_bind]
  split
  · rw [Exec.bind_of_ok (modify_apply _ _)]
    exact ⟨_, credit_eq_ok.mpr ⟨_, by rw [hE, Word.Saturation.add_clamp], rfl⟩⟩
  · exact ⟨_, rfl⟩

/-- On a sound ledger the housekeeping of a block returns, whoever produced it. -/
theorem Sound.endBlock_returns (hE : E.saturation = .clamp) (hs : Sound s) (producer : String)
    (height : UInt64) : ∃ s', ChainState.endBlock E height producer s = ok ((), s') := by
  obtain ⟨due, hdue⟩ := hs.releaseDue (Or.inl hE) height
  obtain ⟨s', hsettle⟩ := settleFees_returns hE hdue.sound producer
  refine ⟨s', ?_⟩
  rw [endBlock_eq, Exec.bind_of_ok hdue.returns]
  exact hsettle

/-! ## Applying a transaction -/

/-- The checks pass, and the nonce of the sender is the largest word. -/
def Exhausts {α : Type} (checks : ChainState → Outcome String α) (sender : α → String)
    (s : ChainState) : Prop :=
  ∃ a, checks s = ok a ∧ s.nonceOf (sender a) = Word.max64

/-- A branch whose checks and mutations do not abort aborts where the next nonce is no word. -/
theorem guarded_eq_panicked {α : Type} {checks : ChainState → Outcome String α}
    {sender : α → String} {nonce : UInt64} {effects : α → StateAction}
    (hc : checks s ≠ panicked)
    (he : ∀ a, checks s = ok a → effects a (s.setNonce (sender a) nonce) ≠ panicked) :
    guarded checks sender nonce effects s = panicked ↔ Exhausts checks sender s := by
  simp only [guarded, Exec.bind_eq_panicked, read_eq_panicked, hc, read_eq_ok, false_or,
    consumeNonce_eq_panicked, consumeNonce_eq_ok]
  constructor
  · rintro ⟨a, _, ⟨ha, rfl⟩, hmax | ⟨_, _, ⟨-, rfl⟩, h⟩⟩
    · exact ⟨a, ha, hmax⟩
    · exact absurd h (he a ha)
  · rintro ⟨a, ha, hmax⟩
    exact ⟨a, s, ⟨ha, rfl⟩, .inl hmax⟩

/-- Where applying a transaction aborts: the nonce of its sender is used up, or the deadline of its
slash proof is no word. -/
def Aborts (E : Node) (tx : Transaction) (s : ChainState) : Prop :=
  match tx.transactionType with
  | .transfer => Exhausts (transferChecks tx) id s
  | .stake => Exhausts (stakeChecks E tx) StakeRequest.sender s
  | .withdraw => Exhausts (withdrawChecks E tx) WithdrawRequest.sender s
  | .vest => Exhausts (vestChecks tx) VestRequest.sender s
  | .tokenCreate => Exhausts (tokenCreateChecks E tx) TokenRequest.sender s
  | .tokenTransfer => Exhausts (tokenTransferChecks tx) TokenRequest.sender s
  | .tokenBurn => Exhausts (tokenBurnChecks tx) TokenRequest.sender s
  | .addLiquidity => Exhausts (addLiquidityChecks tx) AddRequest.sender s
  | .removeLiquidity => Exhausts (removeLiquidityChecks tx) RemoveRequest.sender s
  | .swap => Exhausts (swapChecks tx) SwapRequest.sender s
  | .certificate => tx.credential ≠ none ∧ Exhausts (certificateChecks tx) id s
  | .reward => False
  | .slash => ∃ proof, tx.slashProof = some proof ∧
      Overflows proof.blockA.index slashingWindowBlocks

theorem certificate_eq_panicked : applyCertificate tx s = panicked ↔
    tx.credential ≠ none ∧ Exhausts (certificateChecks tx) id s := by
  unfold applyCertificate
  cases tx.credential with
  | none => simp
  | some action =>
    rw [and_iff_right (Option.some_ne_none action)]
    exact guarded_eq_panicked okOr_ne_panicked fun issuer _ => certificateEffects_steady action issuer _

/-- A verified vesting has a schedule that fits above every height of a chain. -/
theorem vest_room {validator : String} (ht : tx.transactionType = .vest)
    (hver : tx.verifyForBlock E validator = ok ()) (hheight : height.toNat < 2 ^ 63)
    {r : VestRequest} (hr : vestChecks tx s = ok r) :
    height.toNat + r.cliff.toNat < 2 ^ 64 ∧ height.toNat + r.duration.toNat < 2 ^ 64 := by
  obtain ⟨-, -, hduration, -, hle, -⟩ := vestChecks_ok hr
  have hmax : maxVestingDurationBlocks.toNat = 100000000 := rfl
  simp only [Transaction.verifyForBlock, ht, Outcome.bind_eq_ok, okOr_eq_ok, ensure_eq_ok,
    hduration, Option.some.injEq, not_or, UInt64.lt_iff_toNat_lt, not_lt] at hver
  obtain ⟨_, -, _, -, _, -, _, -, duration, rfl, _, ⟨-, hbound⟩, -⟩ := hver
  omega

/-- A verified transfer or burn of tokens moves some. -/
theorem token_amount_ne_zero {validator : String}
    (ht : tx.transactionType = .tokenTransfer ∨ tx.transactionType = .tokenBurn)
    (hver : tx.verifyForBlock E validator = ok ()) : tx.amount ≠ 0 := by
  rcases ht with ht | ht
  · simp only [Transaction.verifyForBlock, ht, Outcome.bind_eq_ok, ensure_eq_ok] at hver
    obtain ⟨_, -, _, -, _, -, _, -, _, h0, -⟩ := hver
    exact h0
  · simp only [Transaction.verifyForBlock, ht, Outcome.bind_eq_ok, ensure_eq_ok] at hver
    obtain ⟨_, -, _, -, _, -, _, h0, -⟩ := hver
    exact h0

/-- A verified transaction aborts on a reachable state in these cases only. -/
theorem applyBranch_eq_panicked (hE : E.saturation = .clamp) (hr : Reachable E s)
    {validator : String} (hver : tx.verifyForBlock E validator = ok ())
    (hheight : height.toNat < 2 ^ 63) :
    applyBranch E tx height s = panicked ↔ s.Aborts E tx := by
  have hs := hr.sound hE
  have hpools : ∀ (t : String) (pool : Pool), s.pools[t]? = some pool → PoolInvariant s t pool :=
    fun t pool hp => hr.poolInvariant hE hp
  unfold applyBranch Aborts
  cases ht : tx.transactionType with
  | transfer =>
    exact guarded_eq_panicked transferChecks_ne_panicked fun sender _ =>
      transferEffects_steady hE sender _
  | stake =>
    exact guarded_eq_panicked (stakeChecks_ne_panicked hE) fun r _ => stakeEffects_steady hE r _
  | withdraw =>
    refine guarded_eq_panicked withdrawChecks_ne_panicked fun r hchecks => ?_
    obtain ⟨info, -, hi, -⟩ := withdrawChecks_ok hchecks
    have hblocks : unbondingBlocks.toNat = 20 := rfl
    have hmem : r.sender ∈ s.stakers := Std.ExtTreeMap.mem_iff_isSome_getElem?.mpr (by rw [hi]; rfl)
    exact withdrawEffects_steady hE hmem (by omega) _ rfl
  | vest =>
    refine guarded_eq_panicked vestChecks_ne_panicked fun r hchecks => ?_
    obtain ⟨hcliff, hduration⟩ := vest_room ht hver hheight hchecks
    exact vestEffects_steady hE r hcliff hduration _
  | reward => exact iff_of_false (applyReward_steady hE s) not_false
  | certificate => exact certificate_eq_panicked
  | slash =>
    rw [← @slashChecks_eq_panicked s tx height hs, applySlash, Exec.bind_eq_panicked,
      read_eq_panicked]
    refine or_iff_left ?_
    rintro ⟨r, _, hread, heffects⟩
    obtain ⟨hchecks, rfl⟩ := read_eq_ok.mp hread
    obtain ⟨s', happly⟩ := applySlash_returns hE hs hchecks
    rw [applySlash, Exec.bind_of_ok hread, heffects] at happly
    cases happly
  | tokenCreate =>
    exact guarded_eq_panicked (tokenChecks_ne_panicked (E := E)).1 fun r _ => tokenCreateEffects_steady hE r _
  | tokenTransfer =>
    exact guarded_eq_panicked (tokenChecks_ne_panicked (E := E)).2.1 fun r _ =>
      tokenTransferEffects_steady hE (token_amount_ne_zero (.inl ht) hver) r _
  | tokenBurn =>
    exact guarded_eq_panicked (tokenChecks_ne_panicked (E := E)).2.2 fun r _ =>
      tokenBurnEffects_steady hE (token_amount_ne_zero (.inr ht) hver) r _
  | addLiquidity =>
    exact guarded_eq_panicked (addLiquidityChecks_ne_panicked hpools tx) fun r hchecks =>
      addLiquidityEffects_steady hE (addLiquidityChecks_useToken hchecks) _
  | removeLiquidity =>
    refine guarded_eq_panicked (removeLiquidityChecks_ne_panicked hpools tx) fun r hchecks => ?_
    obtain ⟨hle, h0⟩ := removeLiquidityChecks_held hchecks
    obtain ⟨_, pool, -, -, -, -, hp, -, htotal, hhkm, htoken, -, hpos⟩ :=
      removeLiquidityChecks_ok hchecks
    have hinv := hpools _ pool hp
    have hshares : r.shares.toNat ≤ pool.totalShares.toNat :=
      (UInt64.le_iff_toNat_le.mp hle).trans (hinv.held_le r.sender)
    obtain ⟨-, hcast, hbound⟩ := mulDiv_exact pool.reserveHkm htotal hshares
    obtain ⟨-, hcast', hbound'⟩ := mulDiv_exact pool.reserveToken htotal hshares
    have ht0 : r.amountToken ≠ 0 := by
      intro hzero
      rw [hzero] at hpos
      exact absurd hpos (Nat.lt_irrefl 0)
    refine removeLiquidityEffects_steady hE (s := s) hle h0 ht0 hp ?_ ?_ hshares _ rfl
    · rw [hhkm, hcast]
      exact hbound
    · rw [htoken, hcast']
      exact hbound'
  | swap =>
    refine guarded_eq_panicked (swapChecks_ne_panicked hpools tx) fun r hchecks => ?_
    obtain ⟨hin, hout, -⟩ := swapChecks_moves hchecks
    obtain ⟨_, pool, -, -, -, -, hp, -, hlt⟩ := swapChecks_ok hchecks
    exact swapEffects_steady hE hin hout hp hlt.le _ rfl

theorem verifyChainScope_ne_panicked : s.verifyChainScope tx ≠ panicked := by
  intro h
  unfold verifyChainScope at h
  split at h
  · cases h
  · exact ensure_ne_panicked h

theorem verifySignaturePolicy_ne_panicked : s.verifySignaturePolicy tx ≠ panicked := by
  intro h
  unfold verifySignaturePolicy at h
  split at h
  · cases h
  · split at h
    · cases h
    · split at h
      · cases h
      · exact ensure_ne_panicked h

/-- A verified transaction aborts on a reachable state when it is within the network's rules and its
branch aborts. -/
theorem applyVerified_eq_panicked (hE : E.saturation = .clamp) (hr : Reachable E s)
    {validator : String} (hver : tx.verifyForBlock E validator = ok ())
    (hheight : height.toNat < 2 ^ 63) : applyVerified E tx height s = panicked ↔
      s.verifyChainScope tx = ok () ∧ s.verifySignaturePolicy tx = ok () ∧ s.Aborts E tx := by
  simp only [applyVerified, Exec.bind_eq_panicked, read_eq_panicked, read_eq_ok,
    verifyChainScope_ne_panicked, false_or]
  have hbranch := applyBranch_eq_panicked hE hr hver hheight
  constructor
  · rintro ⟨_, _, ⟨hscope, rfl⟩, habort | ⟨_, _, ⟨hpassed, rfl⟩, h⟩⟩
    · exact absurd habort verifySignaturePolicy_ne_panicked
    · exact ⟨hscope, hpassed, hbranch.mp h⟩
  · rintro ⟨hscope, hpassed, h⟩
    exact ⟨(), s, ⟨hscope, rfl⟩, .inr ⟨(), s, ⟨hpassed, rfl⟩, hbranch.mpr h⟩⟩

/-- On a reachable state a verified transaction returns or fails and the housekeeping of a block
returns, except for a transaction within the network's rules that aborts. -/
theorem arithmetic_safe_iff (hE : E.saturation = .clamp) (hr : Reachable E s) {validator : String}
    (hver : tx.verifyForBlock E validator = ok ()) (hheight : height.toNat < 2 ^ 63) :
    (applyVerified E tx height s ≠ panicked ∧
      ∀ producer, ∃ s', endBlock E height producer s = ok ((), s')) ↔
    ¬ (s.verifyChainScope tx = ok () ∧ s.verifySignaturePolicy tx = ok () ∧ s.Aborts E tx) := by
  rw [and_iff_left fun producer => (hr.sound hE).endBlock_returns hE producer height, ne_eq,
    applyVerified_eq_panicked hE hr hver hheight]

theorem arithmetic_safe_iff_sample :
    applyVerified (Sample.node []) Sample.doubleSlash 1 (Sample.genesis 1000000000000000) ≠
        panicked ∧
      ∀ producer, ∃ s', endBlock (Sample.node []) 1 producer (Sample.genesis 1000000000000000) =
        ok ((), s') := by
  refine (arithmetic_safe_iff (E := Sample.node []) rfl (Sample.genesis_reachable _)
    (@Sample.doubleSlash_verified [] "") (by decide)).mpr ?_
  rintro ⟨-, -, proof, hproof, hover⟩
  cases hproof
  have hfits : ¬ Overflows 1 slashingWindowBlocks := by
    unfold Overflows
    decide
  exact hfits hover

/-- Holder 7 has signed two blocks of the last height that a word can hold. -/
def Sample.lastSlash : Transaction :=
  { Sample.doubleSlash with
    slashProof := some ⟨Sample.sealBlock [] 7 (Sample.placeAt Word.max64) [] "a",
      Sample.sealBlock [] 7 (Sample.placeAt Word.max64) [] "b"⟩ }

/-- A verified slash that aborts on the genesis state. -/
theorem arithmetic_unsafe :
    Reachable (Sample.node []) (Sample.genesis 1000000000000000) ∧
    Sample.lastSlash.verifyForBlock (Sample.node []) "__queue__" = ok () ∧
    applyVerified (Sample.node []) Sample.lastSlash 1 (Sample.genesis 1000000000000000) =
      panicked := by
  have hne : (Sample.sealBlock [] 7 (Sample.placeAt Word.max64) [] "a").hash ≠
      (Sample.sealBlock [] 7 (Sample.placeAt Word.max64) [] "b").hash := by decide +kernel
  have hproof : SlashProof.verify (Sample.env []) ⟨Sample.sealBlock [] 7 (Sample.placeAt Word.max64)
      [] "a", Sample.sealBlock [] 7 (Sample.placeAt Word.max64) [] "b"⟩ = ok (Sample.address 7) :=
    Sample.verify_sealBlock hne
  exact ⟨Sample.genesis_reachable _,
    (Transaction.verifyForBlock_slash rfl).mpr ⟨⟨rfl, rfl⟩, _, rfl, hproof⟩, rfl⟩

end ChainState
