/-
# What a successful branch does

For each branch of `apply_verified`, what holds when it returns: which checks passed and
the exact state it leaves, as a chain of writes on the state it started from.
-/
import Mathlib.Tactic
import Hikmalayer.Ledger.Primitives

open Outcome Exec OrderedMap

namespace ChainState

variable {E : Node} {s s' : ChainState} {tx : Transaction} {height : UInt64} {u : Unit}

/-- A guarded branch returns when its checks pass, the nonce is next, and its effects
return. -/
theorem guarded_eq_ok {α : Type} {checks : ChainState → Outcome String α} {sender : α → String}
    {nonce : UInt64} {effects : α → StateAction} :
    guarded checks sender nonce effects s = ok (u, s') ↔
      ∃ a, checks s = ok a ∧ s.NextNonce (sender a) nonce ∧
        effects a (s.setNonce (sender a) nonce) = ok (u, s') := by
  simp only [guarded, Exec.bind_eq_ok, read_eq_ok, consumeNonce_eq_ok]
  constructor
  · rintro ⟨a, _, ⟨ha, rfl⟩, _, _, ⟨hn, rfl⟩, he⟩
    exact ⟨a, ha, hn, he⟩
  · rintro ⟨a, ha, hn, he⟩
    exact ⟨a, s, ⟨ha, rfl⟩, (), _, ⟨hn, rfl⟩, he⟩

/-! ## Transfer -/

theorem transferChecks_eq_ok {sender : String} :
    transferChecks tx s = ok sender ↔
      tx.sender = some sender ∧ isValidAddress tx.recipient = true := by
  simp only [transferChecks, Outcome.bind_eq_ok, okOr_eq_ok, ensure_eq_ok, pure_eq, ok.injEq]
  constructor
  · rintro ⟨a, ha, _, hv, rfl⟩
    exact ⟨ha, hv⟩
  · rintro ⟨ha, hv⟩
    exact ⟨sender, ha, (), hv, rfl⟩

theorem transferEffects_ok {sender : String} (h : transferEffects E tx sender s = ok (u, s')) :
    ∃ rest balance pot : UInt64,
      rest.toNat + (tx.amount.toNat + s.baseFee.toNat) = (valueAt s.balances sender).toNat ∧
      balance.toNat =
        (valueAt (s.balances.insert sender rest) tx.recipient).toNat + tx.amount.toNat ∧
      E.saturation.add s.feePot s.baseFee = some pot ∧
      s' = ((s.setBalance sender rest).setBalance tx.recipient balance).setFeePot pot := by
  simp only [transferEffects, Exec.bind_eq_ok, read_eq_ok, ok.injEq, totalDebit_eq_ok,
    debit_eq_ok, tryCredit_eq_ok, collectFee_eq_ok] at h
  obtain ⟨_, _, ⟨rfl, rfl⟩, total, _, ⟨ht, rfl⟩, _, _, ⟨rest, hr, rfl⟩, _, _,
    ⟨balance, hb, rfl⟩, pot, hp, rfl⟩ := h
  exact ⟨rest, balance, pot, by omega, hb, hp, rfl⟩

/-! ## Stake -/

theorem stakeChecks_ok {r : StakeRequest} (h : stakeChecks E tx s = ok r) :
    tx.sender = some r.sender ∧ tx.publicKey = some r.publicKey ∧
      tx.vrfPublicKey = some r.vrfPublicKey ∧
      ∃ resulting, E.saturation.add (s.stakers[r.sender]?.getD .empty).stake tx.amount
        = some resulting := by
  simp only [stakeChecks, Outcome.bind_eq_ok, okOr_eq_ok, ensure_eq_ok, plain_eq_ok, pure_eq,
    ok.injEq] at h
  obtain ⟨sender, hs, publicKey, hk, vrf, hv, _, _, resulting, hr, _, _, rfl⟩ := h
  refine ⟨hs, hk, hv, resulting, ?_⟩
  rw [← hr]
  cases s.stakers[sender]? <;> rfl

theorem stakeEffects_ok {r : StakeRequest} (h : stakeEffects E tx r s = ok (u, s')) :
    ∃ (rest balance pot stake : UInt64) (pqPublicKey : String),
      rest.toNat + (tx.amount.toNat + s.baseFee.toNat) = (valueAt s.balances r.sender).toNat ∧
      balance.toNat =
        (valueAt (s.balances.insert r.sender rest) stakingPoolAccount).toNat + tx.amount.toNat ∧
      E.saturation.add s.feePot s.baseFee = some pot ∧
      stake.toNat = (s.stakers[r.sender]?.getD .empty).stake.toNat + tx.amount.toNat ∧
      ((Hybrid.schemeOf r.sender = some .hybrid → tx.pqPublicKey = some pqPublicKey) ∧
        (Hybrid.schemeOf r.sender ≠ some .hybrid → pqPublicKey = "")) ∧
      s' = (((s.setBalance r.sender rest).setBalance stakingPoolAccount balance).setFeePot
        pot).setStaker r.sender ⟨stake, r.publicKey, r.vrfPublicKey, pqPublicKey⟩ := by
  simp only [stakeEffects, updateStaker, Exec.bind_eq_ok, read_eq_ok, ok.injEq,
    totalDebit_eq_ok, debit_eq_ok, tryCredit_eq_ok, collectFee_eq_ok, modify_apply,
    Prod.mk.injEq, okOr_eq_ok, Word.checkedAdd_eq_some] at h
  obtain ⟨_, _, ⟨rfl, rfl⟩, total, _, ⟨ht, rfl⟩, _, _, ⟨rest, hr, rfl⟩, _, _,
    ⟨balance, hb, rfl⟩, _, _, ⟨pot, hp, rfl⟩, _, _, ⟨-, rfl⟩, stake, _, ⟨hk, rfl⟩, _, _,
    ⟨-, rfl⟩, pq, _, ⟨hpq, rfl⟩, -, rfl⟩ := h
  simp only [setStaker_stakers, setFeePot_stakers, setBalance_stakers, lookup_insert_self,
    Option.getD_some, id] at hk
  refine ⟨rest, balance, pot, stake, pq, by omega, hb, hp, hk, ⟨fun hs => ?_, fun hs => ?_⟩, ?_⟩
  · rw [hs] at hpq
    exact okOr_eq_ok.mp hpq
  · split at hpq
    · rename_i hhybrid
      exact absurd hhybrid hs
    · exact (ok.inj hpq).symm
  ext1 <;> try rfl
  simp only [setStaker_stakers, setFeePot_stakers, setBalance_stakers, lookup_insert_self,
    Option.getD_some, insert_insert]

/-! ## Withdraw -/

theorem withdrawChecks_ok {r : WithdrawRequest} (h : withdrawChecks E tx s = ok r) :
    ∃ info, tx.sender = some r.sender ∧ s.stakers[r.sender]? = some info ∧
      r.remaining.toNat + tx.amount.toNat = info.stake.toNat := by
  simp only [withdrawChecks, Outcome.bind_eq_ok, okOr_eq_ok, ensure_eq_ok, plain_eq_ok, pure_eq,
    ok.injEq, Word.checkedSub_eq_some] at h
  obtain ⟨sender, hs, _, _, info, hi, _, _, _, _, _, _, remaining, hr, _, _, rfl⟩ := h
  exact ⟨info, hs, hi, hr⟩

theorem withdrawEffects_ok {r : WithdrawRequest}
    (h : withdrawEffects E tx height r s = ok (u, s')) :
    ∃ (rest pot releaseHeight : UInt64) (info : StakeInfo),
      rest.toNat + s.baseFee.toNat = (valueAt s.balances r.sender).toNat ∧
      E.saturation.add s.feePot s.baseFee = some pot ∧
      s.stakers[r.sender]? = some info ∧
      s' = ((((s.setBalance r.sender rest).setFeePot pot).setStaker r.sender
        { info with stake := r.remaining }).setUnbonding (s.unbonding.insert r.sender
          (s.unbonding[r.sender]?.getD [] ++ [⟨tx.amount, releaseHeight⟩]))) := by
  simp only [withdrawEffects, Exec.bind_eq_ok, read_eq_ok, ok.injEq, debit_eq_ok,
    collectFee_eq_ok, setStake_eq_ok, modify_apply, Prod.mk.injEq] at h
  obtain ⟨_, _, ⟨rfl, rfl⟩, _, _, ⟨rest, hr, rfl⟩, _, _, ⟨pot, hp, rfl⟩, _, _,
    ⟨info, hi, rfl⟩, releaseHeight, _, ⟨-, rfl⟩, -, rfl⟩ := h
  exact ⟨rest, pot, releaseHeight, info, hr, hp, hi, rfl⟩

/-! ## Vest -/

theorem vestChecks_ok {r : VestRequest} (h : vestChecks tx s = ok r) :
    tx.sender = some r.sender ∧ tx.vestingCliffBlocks = some r.cliff ∧
      tx.vestingDurationBlocks = some r.duration ∧ 0 < r.duration.toNat ∧
      r.cliff.toNat ≤ r.duration.toNat ∧ isValidAddress tx.recipient = true := by
  simp only [vestChecks, Outcome.bind_eq_ok, okOr_eq_ok, ensure_eq_ok, pure_eq, ok.injEq,
    not_or, UInt64.lt_iff_toNat_lt, not_lt] at h
  obtain ⟨sender, hs, cliff, hc, duration, hd, _, ⟨h0, hle⟩, _, hv, rfl⟩ := h
  refine ⟨hs, hc, hd, ?_, hle, hv⟩
  rw [← UInt64.toNat_inj] at h0
  exact Nat.pos_of_ne_zero h0

theorem vestEffects_ok {r : VestRequest} (h : vestEffects E tx height r s = ok (u, s')) :
    ∃ rest balance pot cliffHeight endHeight : UInt64,
      rest.toNat + (tx.amount.toNat + s.baseFee.toNat) = (valueAt s.balances r.sender).toNat ∧
      balance.toNat =
        (valueAt (s.balances.insert r.sender rest) vestingPoolAccount).toNat + tx.amount.toNat ∧
      E.saturation.add s.feePot s.baseFee = some pot ∧
      cliffHeight.toNat = height.toNat + r.cliff.toNat ∧
      endHeight.toNat = height.toNat + r.duration.toNat ∧
      s' = (((s.setBalance r.sender rest).setBalance vestingPoolAccount balance).setFeePot
        pot).setVesting (s.vesting.insert tx.recipient (s.vesting[tx.recipient]?.getD [] ++
          [⟨tx.amount, 0, height, cliffHeight, endHeight⟩])) := by
  simp only [vestEffects, Exec.bind_eq_ok, read_eq_ok, ok.injEq, totalDebit_eq_ok, debit_eq_ok,
    tryCredit_eq_ok, collectFee_eq_ok, plain_eq_ok, Word.checkedAdd_eq_some, modify_apply,
    Prod.mk.injEq] at h
  obtain ⟨_, _, ⟨rfl, rfl⟩, total, _, ⟨ht, rfl⟩, _, _, ⟨rest, hr, rfl⟩, _, _,
    ⟨balance, hb, rfl⟩, _, _, ⟨pot, hp, rfl⟩, cliffHeight, _, ⟨hc, rfl⟩, endHeight, _,
    ⟨he, rfl⟩, -, rfl⟩ := h
  exact ⟨rest, balance, pot, cliffHeight, endHeight, by omega, hb, hp, hc, he, rfl⟩

/-! ## Reward -/

theorem applyReward_ok (h : applyReward E tx s = ok (u, s')) :
    ∃ balance totalSupply,
      E.saturation.add (valueAt s.balances tx.recipient) tx.amount = some balance ∧
      E.saturation.add s.totalSupply tx.amount = some totalSupply ∧
      s' = (s.setBalance tx.recipient balance).setSupply totalSupply s.burned := by
  simp only [applyReward, Exec.bind_eq_ok, credit_eq_ok, update_eq_ok, Outcome.bind_eq_ok,
    plain_eq_ok, pure_eq, ok.injEq] at h
  obtain ⟨_, _, ⟨balance, hb, rfl⟩, totalSupply, ht, rfl⟩ := h
  exact ⟨balance, totalSupply, hb, ht, rfl⟩

/-! ## Native tokens -/

theorem tokenCreateChecks_ok {r : TokenRequest} (h : tokenCreateChecks E tx s = ok r) :
    tx.sender = some r.sender ∧ tx.token = some r.action ∧ s.tokens[r.tokenId]? = none := by
  simp only [tokenCreateChecks, Outcome.bind_eq_ok, okOr_eq_ok, ensure_eq_ok, pure_eq,
    ok.injEq] at h
  obtain ⟨sender, hs, action, ha, _, hn, rfl⟩ := h
  refine ⟨hs, ha, ?_⟩
  rw [Std.ExtTreeMap.mem_iff_isSome_getElem?] at hn
  simpa using hn

theorem tokenCreateEffects_ok {r : TokenRequest}
    (h : tokenCreateEffects E tx height r s = ok (u, s')) :
    ∃ rest pot balance : UInt64,
      rest.toNat + s.baseFee.toNat = (valueAt s.balances r.sender).toNat ∧
      E.saturation.add s.feePot s.baseFee = some pot ∧
      balance.toNat =
        (valueAt (mapAt s.tokenBalances r.tokenId) r.sender).toNat + tx.amount.toNat ∧
      s' = (((s.setBalance r.sender rest).setFeePot pot).setToken r.tokenId
        ⟨r.tokenId, r.action.symbol, r.action.name, r.action.decimals, tx.amount, r.sender,
          height⟩).setHolders r.tokenId
            ((mapAt s.tokenBalances r.tokenId).insert r.sender balance) := by
  simp only [tokenCreateEffects, Exec.bind_eq_ok, read_eq_ok, ok.injEq, debit_eq_ok,
    collectFee_eq_ok, modify_apply, Prod.mk.injEq, tryCreditToken_eq_ok] at h
  obtain ⟨_, _, ⟨rfl, rfl⟩, _, _, ⟨rest, hr, rfl⟩, _, _, ⟨pot, hp, rfl⟩, _, _, ⟨-, rfl⟩,
    balance, hb, rfl⟩ := h
  exact ⟨rest, pot, balance, hr, hp, hb, rfl⟩

theorem tokenTransferChecks_ok {r : TokenRequest} (h : tokenTransferChecks tx s = ok r) :
    tx.sender = some r.sender ∧ tx.token = some r.action ∧ r.tokenId = r.action.tokenId ∧
      r.tokenId ∈ s.tokens ∧ isValidAddress tx.recipient = true := by
  simp only [tokenTransferChecks, Outcome.bind_eq_ok, okOr_eq_ok, ensure_eq_ok, pure_eq,
    ok.injEq] at h
  obtain ⟨sender, hs, action, ha, _, ht, _, hv, rfl⟩ := h
  exact ⟨hs, ha, rfl, ht, hv⟩

theorem tokenTransferEffects_ok {r : TokenRequest}
    (h : tokenTransferEffects E tx r s = ok (u, s')) :
    ∃ (rest pot left balance : UInt64) (holders : BTreeMap UInt64),
      rest.toNat + s.baseFee.toNat = (valueAt s.balances r.sender).toNat ∧
      E.saturation.add s.feePot s.baseFee = some pot ∧
      left.toNat + tx.amount.toNat =
        (valueAt (mapAt s.tokenBalances r.tokenId) r.sender).toNat ∧
      holders = writeOrRemove (mapAt s.tokenBalances r.tokenId) r.sender left ∧
      balance.toNat = (valueAt holders tx.recipient).toNat + tx.amount.toNat ∧
      s' = ((s.setBalance r.sender rest).setFeePot pot).setHolders r.tokenId
        (holders.insert tx.recipient balance) := by
  simp only [tokenTransferEffects, Exec.bind_eq_ok, read_eq_ok, ok.injEq, debit_eq_ok,
    collectFee_eq_ok, debitToken_eq_ok, tryCreditToken_eq_ok] at h
  obtain ⟨_, _, ⟨rfl, rfl⟩, _, _, ⟨rest, hr, rfl⟩, _, _, ⟨pot, hp, rfl⟩, _, _,
    ⟨-, -, left, hl, rfl⟩, balance, hb, rfl⟩ := h
  simp only [setHolders_tokenBalances, setFeePot_tokenBalances, setBalance_tokenBalances,
    mapAt_insert, if_true] at hb hl ⊢
  refine ⟨rest, pot, left, balance, _, hr, hp, hl, rfl, hb, ?_⟩
  ext1 <;> try rfl
  exact insert_insert _ _ _ _

theorem tokenBurnChecks_ok {r : TokenRequest} (h : tokenBurnChecks tx s = ok r) :
    tx.sender = some r.sender ∧ tx.token = some r.action ∧ r.tokenId = r.action.tokenId ∧
      r.tokenId ∈ s.tokens := by
  simp only [tokenBurnChecks, Outcome.bind_eq_ok, okOr_eq_ok, ensure_eq_ok, pure_eq,
    ok.injEq] at h
  obtain ⟨sender, hs, action, ha, _, ht, rfl⟩ := h
  exact ⟨hs, ha, rfl, ht⟩

theorem tokenBurnEffects_ok {r : TokenRequest} (ht : r.tokenId ∈ s.tokens)
    (h : tokenBurnEffects E tx r s = ok (u, s')) :
    ∃ (rest pot left totalSupply : UInt64) (info : TokenInfo),
      rest.toNat + s.baseFee.toNat = (valueAt s.balances r.sender).toNat ∧
      E.saturation.add s.feePot s.baseFee = some pot ∧
      left.toNat + tx.amount.toNat =
        (valueAt (mapAt s.tokenBalances r.tokenId) r.sender).toNat ∧
      s.tokens[r.tokenId]? = some info ∧
      E.saturation.sub info.totalSupply tx.amount = some totalSupply ∧
      s' = (((s.setBalance r.sender rest).setFeePot pot).setHolders r.tokenId
        (writeOrRemove (mapAt s.tokenBalances r.tokenId) r.sender left)).setToken r.tokenId
          { info with totalSupply } := by
  obtain ⟨info, hi⟩ := Option.isSome_iff_exists.mp
    (Std.ExtTreeMap.mem_iff_isSome_getElem?.mp ht)
  simp only [tokenBurnEffects, Exec.bind_eq_ok, read_eq_ok, ok.injEq, debit_eq_ok,
    collectFee_eq_ok, debitToken_eq_ok, update_eq_ok] at h
  obtain ⟨_, _, ⟨rfl, rfl⟩, _, _, ⟨rest, hr, rfl⟩, _, _, ⟨pot, hp, rfl⟩, _, _,
    ⟨-, -, left, hl, rfl⟩, h⟩ := h
  simp only [setHolders_tokens, setFeePot_tokens, setBalance_tokens, hi, Outcome.bind_eq_ok,
    plain_eq_ok, pure_eq, ok.injEq] at h
  obtain ⟨totalSupply, hs, rfl⟩ := h
  exact ⟨rest, pot, left, totalSupply, info, hr, hp, hl, hi, hs, rfl⟩

/-! ## Liquidity -/

theorem addLiquidityChecks_ok {r : AddRequest} (h : addLiquidityChecks tx s = ok r) :
    ∃ action, tx.sender = some r.sender ∧ tx.amm = some action ∧ r.tokenId = action.tokenId ∧
      r.tokenId ∈ s.tokens ∧ 0 < r.quote.minted.toNat ∧
      addQuote (s.pools[r.tokenId]?.getD .empty) action = ok r.quote := by
  simp only [addLiquidityChecks, Outcome.bind_eq_ok, okOr_eq_ok, ensure_eq_ok, pure_eq,
    ok.injEq, not_or] at h
  obtain ⟨sender, hs, action, ha, _, ht, quote, hq, _, ⟨hm, -⟩, rfl⟩ := h
  refine ⟨action, hs, ha, rfl, ht, ?_, hq⟩
  rw [← UInt64.toNat_inj] at hm
  exact Nat.pos_of_ne_zero hm

/-- The pool after an addition. -/
def grownPool (pool : Pool) (reserveHkm reserveToken totalShares : UInt64) : Pool :=
  { pool with reserveHkm, reserveToken, totalShares }

theorem mintedTotal_eq_ok {quote : AddQuote} {n : UInt64} :
    mintedTotal quote = ok n ↔
      n.toNat = quote.minted.toNat + if quote.first then minimumLiquidity.toNat else 0 := by
  unfold mintedTotal
  split
  · rw [okOr_eq_ok, Word.checkedAdd_eq_some]
  · rw [ok.injEq, ← UInt64.toNat_inj, Nat.add_zero, eq_comm]

theorem addLiquidityEffects_ok {r : AddRequest} (h : addLiquidityEffects E r s = ok (u, s')) :
    ∃ (rest pot custody left inPool reserveHkm reserveToken totalShares holding : UInt64)
      (holders : BTreeMap UInt64),
      rest.toNat + (r.quote.useHkm.toNat + s.baseFee.toNat) =
        (valueAt s.balances r.sender).toNat ∧
      E.saturation.add s.feePot s.baseFee = some pot ∧
      custody.toNat = (valueAt (s.balances.insert r.sender rest) ammPoolAccount).toNat +
        r.quote.useHkm.toNat ∧
      left.toNat + r.quote.useToken.toNat =
        (valueAt (mapAt s.tokenBalances r.tokenId) r.sender).toNat ∧
      holders = writeOrRemove (mapAt s.tokenBalances r.tokenId) r.sender left ∧
      inPool.toNat = (valueAt holders ammPoolAccount).toNat + r.quote.useToken.toNat ∧
      reserveHkm.toNat = (s.poolOrNew r.tokenId).reserveHkm.toNat + r.quote.useHkm.toNat ∧
      reserveToken.toNat = (s.poolOrNew r.tokenId).reserveToken.toNat + r.quote.useToken.toNat ∧
      totalShares.toNat = (s.poolOrNew r.tokenId).totalShares.toNat +
        (r.quote.minted.toNat + if r.quote.first then minimumLiquidity.toNat else 0) ∧
      holding.toNat = (valueAt (mapAt s.lpShares r.tokenId) r.sender).toNat +
        r.quote.minted.toNat ∧
      s' = (((((s.setBalance r.sender rest).setFeePot pot).setBalance ammPoolAccount
        custody).setHolders r.tokenId (holders.insert ammPoolAccount inPool)).setPool r.tokenId
          (grownPool (s.poolOrNew r.tokenId) reserveHkm reserveToken totalShares)).setProviders
            r.tokenId ((mapAt s.lpShares r.tokenId).insert r.sender holding) := by
  simp only [addLiquidityEffects, Exec.bind_eq_ok, read_eq_ok, ok.injEq, totalDebit_eq_ok,
    debit_eq_ok, tryCredit_eq_ok, collectFee_eq_ok, debitToken_eq_ok, tryCreditToken_eq_ok,
    modify_apply, Prod.mk.injEq, update_eq_ok, Outcome.bind_eq_ok, okOr_eq_ok,
    Word.checkedAdd_eq_some, mintedTotal_eq_ok, pure_eq] at h
  obtain ⟨_, _, ⟨rfl, rfl⟩, total, _, ⟨ht, rfl⟩, _, _, ⟨rest, hr, rfl⟩, _, _, ⟨pot, hp, rfl⟩,
    _, _, ⟨custody, hc, rfl⟩, _, _, ⟨-, -, left, hl, rfl⟩, _, _, ⟨inPool, hi, rfl⟩, _, _,
    ⟨-, rfl⟩, _, _, ⟨minted, hm, reserveHkm, hh, reserveToken, hk, totalShares, hs, rfl⟩,
    holding, hg, rfl⟩ := h
  simp only [setHolders_tokenBalances, setFeePot_tokenBalances, setBalance_tokenBalances,
    mapAt_insert, if_true, setFeePot_balances, setBalance_balances] at hi hl hc hg
  simp only [poolOrNew, setPool_pools, setHolders_pools, setBalance_pools, setFeePot_pools,
    lookup_insert_self, Option.getD_some] at hh hk hs ⊢
  rw [hm] at hs
  simp only [lpSharesOf, setPool_lpShares, setHolders_lpShares, setBalance_lpShares,
    setFeePot_lpShares] at hg
  refine ⟨rest, pot, custody, left, inPool, reserveHkm, reserveToken, totalShares, holding, _,
    by omega, hp, hc, hl, rfl, hi, hh, hk, hs, hg, ?_⟩
  ext1 <;> try rfl
  · simp only [setProviders_tokenBalances, setPool_tokenBalances, setHolders_tokenBalances,
      setBalance_tokenBalances, setFeePot_tokenBalances, mapAt_insert, if_true, insert_insert]
  · simp only [setProviders_pools, setPool_pools, setHolders_pools, setBalance_pools,
      setFeePot_pools, grownPool, insert_insert]

theorem removeLiquidityChecks_ok {r : RemoveRequest}
    (h : removeLiquidityChecks tx s = ok r) :
    ∃ action pool, tx.sender = some r.sender ∧ tx.amm = some action ∧
      r.tokenId = action.tokenId ∧ r.shares = action.shares ∧
      s.pools[r.tokenId]? = some pool ∧
      r.shares.toNat ≤ (valueAt (mapAt s.lpShares r.tokenId) r.sender).toNat ∧
      0 < pool.totalShares.toNat ∧
      r.amountHkm = UInt64.ofNat
        (r.shares.toNat * pool.reserveHkm.toNat / pool.totalShares.toNat) ∧
      r.amountToken = UInt64.ofNat
        (r.shares.toNat * pool.reserveToken.toNat / pool.totalShares.toNat) ∧
      0 < r.amountHkm.toNat ∧ 0 < r.amountToken.toNat := by
  simp only [removeLiquidityChecks, Outcome.bind_eq_ok, okOr_eq_ok, ensure_eq_ok, plain_eq_ok,
    pure_eq, ok.injEq, Word.mulDiv_eq_some, not_or, UInt64.lt_iff_toNat_lt, not_lt] at h
  obtain ⟨sender, hs, action, ha, pool, hp, _, hh, hkm, ⟨rfl, hpos⟩, token, ⟨rfl, -⟩, _,
    ⟨h0, h0'⟩, _, -, rfl⟩ := h
  rw [← UInt64.toNat_inj] at h0 h0'
  exact ⟨action, pool, hs, ha, rfl, rfl, hp, hh, hpos, rfl, rfl, Nat.pos_of_ne_zero h0,
    Nat.pos_of_ne_zero h0'⟩

theorem removeLiquidityEffects_ok {r : RemoveRequest}
    (h : removeLiquidityEffects E r s = ok (u, s')) :
    ∃ (rest pot left custody balance inPool held reserveHkm reserveToken totalShares : UInt64)
      (holders : BTreeMap UInt64) (pool : Pool),
      rest.toNat + s.baseFee.toNat = (valueAt s.balances r.sender).toNat ∧
      E.saturation.add s.feePot s.baseFee = some pot ∧
      left.toNat + r.shares.toNat = (valueAt (mapAt s.lpShares r.tokenId) r.sender).toNat ∧
      custody.toNat + r.amountHkm.toNat =
        (valueAt (s.balances.insert r.sender rest) ammPoolAccount).toNat ∧
      E.saturation.add
        (valueAt ((s.balances.insert r.sender rest).insert ammPoolAccount custody) r.sender)
        r.amountHkm = some balance ∧
      inPool.toNat + r.amountToken.toNat =
        (valueAt (mapAt s.tokenBalances r.tokenId) ammPoolAccount).toNat ∧
      holders = writeOrRemove (mapAt s.tokenBalances r.tokenId) ammPoolAccount inPool ∧
      E.saturation.add (valueAt holders r.sender) r.amountToken = some held ∧
      s.pools[r.tokenId]? = some pool ∧
      reserveHkm.toNat + r.amountHkm.toNat = pool.reserveHkm.toNat ∧
      reserveToken.toNat + r.amountToken.toNat = pool.reserveToken.toNat ∧
      totalShares.toNat + r.shares.toNat = pool.totalShares.toNat ∧
      s' = ((((((s.setBalance r.sender rest).setFeePot pot).setProviders r.tokenId
        (writeOrRemove (mapAt s.lpShares r.tokenId) r.sender left)).setBalance ammPoolAccount
          custody).setBalance r.sender balance).setHolders r.tokenId
            (holders.insert r.sender held)).setPool r.tokenId
              (grownPool pool reserveHkm reserveToken totalShares) := by
  simp only [removeLiquidityEffects, Exec.bind_eq_ok, read_eq_ok, ok.injEq, debit_eq_ok,
    collectFee_eq_ok, burnShares_eq_ok, credit_eq_ok, debitToken_eq_ok, creditToken_eq_ok,
    update_eq_ok, Outcome.bind_eq_ok, plain_eq_ok, Word.checkedSub_eq_some, pure_eq] at h
  obtain ⟨_, _, ⟨rfl, rfl⟩, _, _, ⟨rest, hr, rfl⟩, _, _, ⟨pot, hp, rfl⟩, _, _,
    ⟨-, -, left, hl, rfl⟩, _, _, ⟨custody, hc, rfl⟩, _, _, ⟨balance, hb, rfl⟩, _, _,
    ⟨-, -, inPool, hi, rfl⟩, _, _, ⟨held, hh, rfl⟩, pool, hq, reserveHkm, h₁, reserveToken, h₂,
    totalShares, h₃, rfl⟩ := h
  simp only [setHolders_tokenBalances, setFeePot_tokenBalances, setBalance_tokenBalances,
    setProviders_tokenBalances, mapAt_insert, if_true] at hi hh
  refine ⟨rest, pot, left, custody, balance, inPool, held, reserveHkm, reserveToken,
    totalShares, _, pool, hr, hp, hl, hc, hb, hi, rfl, hh, hq, h₁, h₂, h₃, ?_⟩
  ext1 <;> try rfl
  simp only [setPool_tokenBalances, setHolders_tokenBalances, setBalance_tokenBalances,
    setProviders_tokenBalances, setFeePot_tokenBalances, mapAt_insert, if_true, insert_insert]

/-! ## Swapping -/

/-- The side of the pool a swap takes from. -/
def reserveOut (pool : Pool) (hkmToToken : Bool) : UInt64 :=
  if hkmToToken then pool.reserveToken else pool.reserveHkm

theorem swapChecks_ok {r : SwapRequest} (h : swapChecks tx s = ok r) :
    ∃ action pool, tx.sender = some r.sender ∧ tx.amm = some action ∧
      r.tokenId = action.tokenId ∧ r.amountIn = action.amountIn ∧
      s.pools[r.tokenId]? = some pool ∧ 0 < r.amountOut.toNat ∧
      r.amountOut.toNat < (reserveOut pool r.hkmToToken).toNat := by
  simp only [swapChecks, Outcome.bind_eq_ok, okOr_eq_ok, ensure_eq_ok, pure_eq, ok.injEq,
    not_or, UInt64.le_iff_toNat_le, not_le] at h
  obtain ⟨sender, hs, action, ha, pool, hp, _, -, amountOut, -, _, ⟨h0, hlt⟩, _, -, rfl⟩ := h
  rw [← UInt64.toNat_inj] at h0
  exact ⟨action, pool, hs, ha, rfl, rfl, hp, Nat.pos_of_ne_zero h0, hlt⟩

theorem swapHkmToToken_ok {r : SwapRequest} (h : swapHkmToToken E r s = ok (u, s')) :
    ∃ (rest pot custody inPool held reserveHkm reserveToken : UInt64)
      (holders : BTreeMap UInt64) (pool : Pool),
      rest.toNat + (r.amountIn.toNat + s.baseFee.toNat) = (valueAt s.balances r.sender).toNat ∧
      E.saturation.add s.feePot s.baseFee = some pot ∧
      custody.toNat = (valueAt (s.balances.insert r.sender rest) ammPoolAccount).toNat +
        r.amountIn.toNat ∧
      inPool.toNat + r.amountOut.toNat =
        (valueAt (mapAt s.tokenBalances r.tokenId) ammPoolAccount).toNat ∧
      holders = writeOrRemove (mapAt s.tokenBalances r.tokenId) ammPoolAccount inPool ∧
      E.saturation.add (valueAt holders r.sender) r.amountOut = some held ∧
      s.pools[r.tokenId]? = some pool ∧
      reserveHkm.toNat = pool.reserveHkm.toNat + r.amountIn.toNat ∧
      reserveToken.toNat + r.amountOut.toNat = pool.reserveToken.toNat ∧
      s' = ((((s.setBalance r.sender rest).setFeePot pot).setBalance ammPoolAccount
        custody).setHolders r.tokenId (holders.insert r.sender held)).setPool r.tokenId
          (grownPool pool reserveHkm reserveToken pool.totalShares) := by
  simp only [swapHkmToToken, Exec.bind_eq_ok, read_eq_ok, ok.injEq, totalDebit_eq_ok,
    debit_eq_ok, tryCredit_eq_ok, collectFee_eq_ok, debitToken_eq_ok, creditToken_eq_ok,
    update_eq_ok, Outcome.bind_eq_ok, plain_eq_ok, okOr_eq_ok, Word.checkedAdd_eq_some,
    Word.checkedSub_eq_some, pure_eq] at h
  obtain ⟨_, _, ⟨rfl, rfl⟩, total, _, ⟨ht, rfl⟩, _, _, ⟨rest, hr, rfl⟩, _, _, ⟨pot, hp, rfl⟩,
    _, _, ⟨custody, hc, rfl⟩, _, _, ⟨-, -, inPool, hi, rfl⟩, _, _, ⟨held, hh, rfl⟩, pool, hq,
    reserveHkm, h₁, reserveToken, h₂, rfl⟩ := h
  simp only [setHolders_tokenBalances, setFeePot_tokenBalances, setBalance_tokenBalances,
    mapAt_insert, if_true] at hi hh
  refine ⟨rest, pot, custody, inPool, held, reserveHkm, reserveToken, _, pool, by omega, hp, hc,
    hi, rfl, hh, hq, h₁, h₂, ?_⟩
  ext1 <;> try rfl
  simp only [setPool_tokenBalances, setHolders_tokenBalances, setBalance_tokenBalances,
    setFeePot_tokenBalances, mapAt_insert, if_true, insert_insert]

theorem swapTokenToHkm_ok {r : SwapRequest} (h : swapTokenToHkm E r s = ok (u, s')) :
    ∃ (rest pot left inPool custody balance reserveHkm reserveToken : UInt64)
      (holders : BTreeMap UInt64) (pool : Pool),
      rest.toNat + s.baseFee.toNat = (valueAt s.balances r.sender).toNat ∧
      E.saturation.add s.feePot s.baseFee = some pot ∧
      left.toNat + r.amountIn.toNat =
        (valueAt (mapAt s.tokenBalances r.tokenId) r.sender).toNat ∧
      holders = writeOrRemove (mapAt s.tokenBalances r.tokenId) r.sender left ∧
      inPool.toNat = (valueAt holders ammPoolAccount).toNat + r.amountIn.toNat ∧
      custody.toNat + r.amountOut.toNat =
        (valueAt (s.balances.insert r.sender rest) ammPoolAccount).toNat ∧
      E.saturation.add
        (valueAt ((s.balances.insert r.sender rest).insert ammPoolAccount custody) r.sender)
        r.amountOut = some balance ∧
      s.pools[r.tokenId]? = some pool ∧
      reserveToken.toNat = pool.reserveToken.toNat + r.amountIn.toNat ∧
      reserveHkm.toNat + r.amountOut.toNat = pool.reserveHkm.toNat ∧
      s' = (((((s.setBalance r.sender rest).setFeePot pot).setHolders r.tokenId
        (holders.insert ammPoolAccount inPool)).setBalance ammPoolAccount custody).setBalance
          r.sender balance).setPool r.tokenId
            (grownPool pool reserveHkm reserveToken pool.totalShares) := by
  simp only [swapTokenToHkm, Exec.bind_eq_ok, read_eq_ok, ok.injEq, debit_eq_ok, credit_eq_ok,
    collectFee_eq_ok, debitToken_eq_ok, tryCreditToken_eq_ok, update_eq_ok, Outcome.bind_eq_ok,
    plain_eq_ok, okOr_eq_ok, Word.checkedAdd_eq_some, Word.checkedSub_eq_some, pure_eq] at h
  obtain ⟨_, _, ⟨rfl, rfl⟩, _, _, ⟨rest, hr, rfl⟩, _, _, ⟨pot, hp, rfl⟩, _, _,
    ⟨-, -, left, hl, rfl⟩, _, _, ⟨inPool, hi, rfl⟩, _, _, ⟨custody, hc, rfl⟩, _, _,
    ⟨balance, hb, rfl⟩, pool, hq, reserveToken, h₁, reserveHkm, h₂, rfl⟩ := h
  simp only [setHolders_tokenBalances, setFeePot_tokenBalances, setBalance_tokenBalances,
    mapAt_insert, if_true] at hi hl
  refine ⟨rest, pot, left, inPool, custody, balance, reserveHkm, reserveToken, _, pool, hr, hp,
    hl, rfl, hi, hc, hb, hq, h₁, h₂, ?_⟩
  ext1 <;> try rfl
  simp only [setPool_tokenBalances, setHolders_tokenBalances, setBalance_tokenBalances,
    setFeePot_tokenBalances, mapAt_insert, if_true, insert_insert]

/-! ## Credentials -/

theorem applyCertificate_ok (h : applyCertificate tx s = ok (u, s')) :
    s' = s ∨ ∃ (action : CredentialAction) (issuer : String) (record : CredentialRecord),
      tx.credential = some action ∧ tx.sender = some issuer ∧ s.NextNonce issuer tx.nonce ∧
        s' = (s.setNonce issuer tx.nonce).setCredential action.id record := by
  cases hc : tx.credential with
  | none =>
    simp only [applyCertificate, hc, pure_apply, ok.injEq, Prod.mk.injEq] at h
    exact Or.inl h.2.symm
  | some action =>
    simp only [applyCertificate, hc, guarded_eq_ok, certificateChecks, okOr_eq_ok,
      certificateEffects, update_eq_ok] at h
    obtain ⟨issuer, hs, hn, he⟩ := h
    right
    split at he
    · simp only [Outcome.bind_eq_ok, okOr_eq_ok, ensure_eq_ok, pure_eq, ok.injEq] at he
      obtain ⟨record, -, _, -, rfl⟩ := he
      exact ⟨action, issuer, _, rfl, hs, hn, rfl⟩
    · simp only [Outcome.bind_eq_ok, ensure_eq_ok, pure_eq, ok.injEq] at he
      obtain ⟨_, -, rfl⟩ := he
      exact ⟨action, issuer, _, rfl, hs, hn, rfl⟩

/-! ## Slashing -/

theorem unbondingTotal_eq_ok {account : String} {n : UInt64} :
    s.unbondingTotal account = ok n ↔
      n.toNat = entriesSum (s.unbonding[account]?.getD []) := by
  rw [unbondingTotal, plain_eq_ok, Word.checkedSum_eq_some, entriesSum, List.map_map]
  rfl

/-- Slashing takes at most the base. -/
theorem slashAmount_le (base : UInt64) :
    (Word.saturatingMul base slashPercent / 100).toNat ≤ base.toNat := by
  rw [UInt64.toNat_div, Word.saturatingMul_toNat]
  have h10 : slashPercent.toNat = 10 := rfl
  have h100 : (100 : UInt64).toNat = 100 := rfl
  rw [h10, h100]
  omega

theorem slashChecks_ok {r : SlashRequest} (h : slashChecks tx height s = ok r) :
    ∃ proof info, tx.slashProof = some proof ∧ s.stakers[tx.recipient]? = some info ∧
      proof.blockA.validatorPublicKey.getD "" = info.publicKey ∧
      proof.blockA.index.toNat + slashingWindowBlocks.toNat < 2 ^ 64 ∧
      r.offenseKey = tx.recipient ++ ":" ++ toString proof.blockA.index ∧
      r.stake = info.stake ∧
      r.slashed.toNat ≤
        info.stake.toNat + entriesSum (s.unbonding[tx.recipient]?.getD []) := by
  simp only [slashChecks, Outcome.bind_eq_ok, okOr_eq_ok, ensure_eq_ok, plain_eq_ok, pure_eq,
    ok.injEq, unbondingTotal_eq_ok, Word.checkedAdd_eq_some] at h
  obtain ⟨proof, hp, deadline, hd, _, -, info, hi, _, hk, _, -, unbonding, hu, base, hb, _, -,
    rfl⟩ := h
  have hlt := Word.toNat_lt deadline
  refine ⟨proof, info, hp, hi, hk, by omega, rfl, rfl, ?_⟩
  have hs := slashAmount_le base
  change (Word.saturatingMul base slashPercent / 100).toNat ≤ _
  omega

/-- Taking from the entries always returns, and takes what there is. -/
theorem takeFromEntries_total (entries : List UnbondingEntry) :
    ∀ remaining : UInt64, ∃ entries', takeFromEntries remaining entries = ok entries' ∧
      entriesSum entries' + min remaining.toNat (entriesSum entries) = entriesSum entries := by
  induction entries with
  | nil => exact fun remaining => ⟨[], rfl, by simp⟩
  | cons entry rest ih =>
    intro remaining
    have hmin := Word.min_toNat remaining entry.amount
    have h₁ : Word.checkedSub entry.amount (min remaining entry.amount) =
        some (entry.amount - min remaining entry.amount) :=
      Word.checkedSub_of_le (by omega)
    have h₂ : Word.checkedSub remaining (min remaining entry.amount) =
        some (remaining - min remaining entry.amount) :=
      Word.checkedSub_of_le (by omega)
    have ha := Word.checkedSub_eq_some.mp h₁
    have hr := Word.checkedSub_eq_some.mp h₂
    obtain ⟨rest', hrest, hsum⟩ := ih (remaining - min remaining entry.amount)
    simp only [takeFromEntries, h₁, h₂, plain_some, ok_bind, hrest, pure_eq]
    split
    · rename_i h0
      rw [← UInt64.toNat_inj, UInt64.toNat_zero] at h0
      refine ⟨_, rfl, ?_⟩
      simp only [entriesSum, List.map_cons, List.sum_cons]
      omega
    · refine ⟨_, rfl, ?_⟩
      simp only [entriesSum, List.map_cons, List.sum_cons] at hsum ⊢
      omega

/-- Dropping empty entries changes no total. -/
theorem entriesSum_filter_pos (entries : List UnbondingEntry) :
    entriesSum (entries.filter fun e => 0 < e.amount) = entriesSum entries := by
  induction entries with
  | nil => rfl
  | cons e rest ih =>
    rw [List.filter_cons]
    split
    · simp only [entriesSum, List.map_cons, List.sum_cons] at ih ⊢
      rw [ih]
    · rename_i h
      simp only [UInt64.lt_iff_toNat_lt, UInt64.toNat_zero, decide_eq_true_eq, not_lt,
        Nat.le_zero] at h
      simp only [entriesSum, List.map_cons, List.sum_cons] at ih ⊢
      rw [ih, h, Nat.zero_add]

theorem slashUnbonding_ok {validator : String} {remaining : UInt64}
    (hle : remaining.toNat ≤ entriesSum (s.unbonding[validator]?.getD []))
    (h : slashUnbonding validator remaining s = ok (u, s')) :
    ∃ m, s' = s.setUnbonding m ∧ unbondingSum m + remaining.toNat = unbondingSum s.unbonding ∧
      ∀ k, k ∈ m → k ∈ s.unbonding := by
  rw [slashUnbonding, update_eq_ok] at h
  split at h
  · rename_i h0
    rw [ok.injEq] at h
    exact ⟨s.unbonding, h.symm, by rw [h0]; rfl, fun _ hk => hk⟩
  · split at h
    · rename_i hn
      rw [ok.injEq] at h
      rw [hn, Option.getD_none, entriesSum_nil] at hle
      exact ⟨s.unbonding, h.symm, by omega, fun _ hk => hk⟩
    · rename_i entries he
      obtain ⟨entries', ht, hsum⟩ := takeFromEntries_total entries remaining
      rw [ht, ok_bind, pure_eq, ok.injEq] at h
      refine ⟨_, h.symm, ?_, ?_⟩
      · have hw := unbondingSum_writeEntries s.unbonding validator
          (entries'.filter fun e => 0 < e.amount)
        rw [entriesSum_filter_pos, he, Option.getD_some] at hw
        rw [he, Option.getD_some] at hle
        omega
      · intro k hk
        rw [Std.ExtTreeMap.mem_iff_isSome_getElem?, lookup_writeEntries] at hk
        rw [Std.ExtTreeMap.mem_iff_isSome_getElem?]
        split at hk
        · rename_i hv
          rw [← hv, he]
          rfl
        · exact hk

theorem slashEffects_ok {validator : String} {r : SlashRequest} {info : StakeInfo}
    (hi : s.stakers[validator]? = some info) (hstake : r.stake = info.stake)
    (hle : r.slashed.toNat ≤
      info.stake.toNat + entriesSum (s.unbonding[validator]?.getD []))
    (h : slashEffects E validator r s = ok (u, s')) :
    ∃ (pool burned totalSupply stake : UInt64) (unbonding : BTreeMap (List UnbondingEntry)),
      pool.toNat + r.slashed.toNat = (valueAt s.balances stakingPoolAccount).toNat ∧
      E.saturation.add s.burned r.slashed = some burned ∧
      E.saturation.sub s.totalSupply r.slashed = some totalSupply ∧
      stake.toNat + unbondingSum unbonding + r.slashed.toNat =
        info.stake.toNat + unbondingSum s.unbonding ∧
      (∀ k, k ∈ unbonding → k ∈ s.unbonding) ∧
      s' = ((((s.setBalance stakingPoolAccount pool).setSupply totalSupply burned).setStaker
        validator { info with stake }).setUnbonding unbonding).setOffense r.offenseKey
          r.slashed := by
  have hmin := Word.min_toNat r.slashed r.stake
  simp only [slashEffects, Exec.bind_eq_ok, read_eq_ok, debit_eq_ok, update_eq_ok,
    Outcome.bind_eq_ok, plain_eq_ok, pure_eq, ok.injEq, Word.checkedSub_eq_some, setStake_eq_ok,
    modify_apply, Prod.mk.injEq] at h
  obtain ⟨_, _, ⟨pool, hp, rfl⟩, _, _, ⟨burned, hb, totalSupply, ht, rfl⟩, stake, _, ⟨hs, rfl⟩,
    _, _, ⟨info', hi', rfl⟩, remaining, _, ⟨hr, rfl⟩, _, _, hu, -, rfl⟩ := h
  have hinfo : info' = info := by
    have h' : s.stakers[validator]? = some info' := hi'
    rw [hi, Option.some.injEq] at h'
    exact h'.symm
  rw [hstake] at hs hr hmin
  obtain ⟨m, rfl, hm, hk⟩ := slashUnbonding_ok (by
    change remaining.toNat ≤ entriesSum (s.unbonding[validator]?.getD [])
    omega) hu
  refine ⟨pool, burned, totalSupply, stake, m, hp, hb, ht, ?_, hk, by rw [hinfo]⟩
  change _ = unbondingSum s.unbonding at hm
  omega

end ChainState
