/-
# Every transaction keeps the invariant

One lemma for each branch, from its inversion, and from them the step lemma
`Sound.applyVerified`.
-/
import Mathlib.Tactic
import Hikmalayer.Authorization.Messages
import Hikmalayer.Ledger.Sound

open Outcome Exec OrderedMap

namespace ChainState

/-- Writing at an address keeps the keys addresses. -/
theorem insert_valid {β : Type} {m : BTreeMap β} {a : String} {v : β}
    (ha : isValidAddress a = true) (hm : ∀ k, k ∈ m → isValidAddress k = true) :
    ∀ k, k ∈ m.insert a v → isValidAddress k = true := by
  intro k hk
  rw [Std.ExtTreeMap.mem_insert, Std.LawfulEqCmp.compare_eq_iff_eq] at hk
  rcases hk with rfl | hk
  · exact ha
  · exact hm k hk

theorem mem_of_lookup {β : Type} {m : BTreeMap β} {k : String} {v : β} (h : m[k]? = some v) :
    k ∈ m :=
  Std.ExtTreeMap.mem_iff_isSome_getElem?.mpr (by rw [h]; rfl)

namespace Sound

variable {E : Node} {s s' : ChainState} {tx : Transaction} {height : UInt64} {u : Unit}

/-! ## Transfer, stake, vesting, reward -/

theorem applyTransfer (hs : Sound s)
    (hv : ∀ a, tx.sender = some a → isValidAddress a = true)
    (h : applyTransfer E tx s = ok (u, s')) : Sound s' := by
  obtain ⟨sender, hc, -, he⟩ := guarded_eq_ok.mp h
  obtain ⟨hsend, hrec⟩ := transferChecks_eq_ok.mp hc
  obtain ⟨rest, balance, pot, -, -, -, rfl⟩ := transferEffects_ok he
  exact (((hs.setNonce _ _).setBalance (hv _ hsend) _).setBalance hrec _).setFeePot _

theorem applyStake (hs : Sound s)
    (hv : ∀ a, tx.sender = some a → isValidAddress a = true)
    (h : applyStake E tx s = ok (u, s')) : Sound s' := by
  obtain ⟨r, hc, -, he⟩ := guarded_eq_ok.mp h
  have ha := hv _ (stakeChecks_ok hc).1
  obtain ⟨rest, balance, pot, stake, pq, -, hb, -, hk, -, rfl⟩ := stakeEffects_ok he
  have hs₁ := (hs.setNonce r.sender tx.nonce).setBalance ha rest
  rw [setNonce_balances, valueAt_insert_of_ne rest (ne_stakingPool ha)] at hb
  have hbal : valueAt ((s.setNonce r.sender tx.nonce).setBalance r.sender rest).balances
      stakingPoolAccount = valueAt s.balances stakingPoolAccount := by
    rw [setBalance_balances, valueAt_insert_of_ne rest (ne_stakingPool ha), setNonce_balances]
  have hstake := stakeAt_eq s.stakers r.sender
  rw [setNonce_stakers] at hk
  refine (hs₁.restake ha balance ⟨stake, r.publicKey, r.vrfPublicKey, pq⟩ s.unbonding
    hs.addressed.unbonding ?_).setFeePot pot
  rw [hbal, setBalance_stakers, setNonce_stakers, setBalance_unbonding, setNonce_unbonding]
  change balance.toNat + _ + _ = _ + stake.toNat + _
  omega

theorem applyVest (hs : Sound s)
    (hv : ∀ a, tx.sender = some a → isValidAddress a = true)
    (h : applyVest E tx height s = ok (u, s')) : Sound s' := by
  obtain ⟨r, hc, -, he⟩ := guarded_eq_ok.mp h
  obtain ⟨hsend, -, -, hdur, hcliff, hrec⟩ := vestChecks_ok hc
  have ha := hv _ hsend
  obtain ⟨rest, balance, pot, cliffHeight, endHeight, -, hb, -, hch, heh, rfl⟩ :=
    vestEffects_ok he
  have hs₁ := (hs.setNonce r.sender tx.nonce).setBalance ha rest
  have hbal : valueAt ((s.setNonce r.sender tx.nonce).setBalance r.sender rest).balances
      vestingPoolAccount = valueAt s.balances vestingPoolAccount := by
    rw [setBalance_balances, valueAt_insert_of_ne rest (ne_vestingPool ha), setNonce_balances]
  have hsum := lockedTotal_insert s.vesting tx.recipient
    (s.vesting[tx.recipient]?.getD [] ++ [⟨tx.amount, 0, height, cliffHeight, endHeight⟩])
  rw [lockedSum_append] at hsum
  refine (hs₁.revest balance (s.vesting.insert tx.recipient (s.vesting[tx.recipient]?.getD [] ++
    [⟨tx.amount, 0, height, cliffHeight, endHeight⟩])) (insert_valid hrec hs.addressed.vesting)
      ?_ ?_).setFeePot pot
  · intro k l hl e hel
    rw [lookup_insert] at hl
    split at hl
    · rw [Option.some.injEq] at hl
      rw [← hl, List.mem_append, List.mem_singleton] at hel
      rcases hel with hel | rfl
      · cases hold : s.vesting[tx.recipient]? with
        | none => simp [hold] at hel
        | some old =>
          rw [hold, Option.getD_some] at hel
          exact hs.schedules _ _ hold e hel
      · refine ⟨Nat.zero_le _, ?_, ?_⟩
        · change height.toNat ≤ cliffHeight.toNat
          omega
        · change height.toNat < endHeight.toNat
          omega
    · exact hs.schedules k l hl e hel
  · have hnew : lockedSum [⟨tx.amount, 0, height, cliffHeight, endHeight⟩] = tx.amount.toNat := by
      simp [lockedSum]
    rw [setNonce_balances, valueAt_insert_of_ne rest (ne_vestingPool ha)] at hb
    rw [hbal]
    change balance.toNat + lockedTotal s.vesting = _
    omega

theorem applyReward (hs : Sound s) (hv : isValidAddress tx.recipient = true)
    (h : applyReward E tx s = ok (u, s')) : Sound s' := by
  obtain ⟨balance, totalSupply, -, -, rfl⟩ := applyReward_ok h
  exact (hs.setBalance hv _).setSupply _ _

/-- A withdrawal needs a registered staker, which is an address. -/
theorem applyWithdraw (hs : Sound s) (h : applyWithdraw E tx height s = ok (u, s')) :
    Sound s' := by
  obtain ⟨r, hc, -, he⟩ := guarded_eq_ok.mp h
  obtain ⟨info, -, hi, hrem⟩ := withdrawChecks_ok hc
  have ha := hs.addressed.staker _ (mem_of_lookup hi)
  obtain ⟨rest, pot, releaseHeight, info', -, -, hi', rfl⟩ := withdrawEffects_ok he
  have hinfo : info' = info := by
    rw [setNonce_stakers, hi, Option.some.injEq] at hi'
    exact hi'.symm
  have hs₁ := (hs.setNonce r.sender tx.nonce).setBalance ha rest
  have hsum := unbondingSum_insert s.unbonding r.sender
    (s.unbonding[r.sender]?.getD [] ++ [⟨tx.amount, releaseHeight⟩])
  rw [entriesSum_append] at hsum
  refine (hs₁.setFeePot pot).unbond ha { info' with stake := r.remaining }
    (s.unbonding.insert r.sender
      (s.unbonding[r.sender]?.getD [] ++ [⟨tx.amount, releaseHeight⟩]))
    (insert_valid ha hs.addressed.unbonding) ?_
  change stakeAt s.stakers r.sender + unbondingSum s.unbonding = r.remaining.toNat + _
  rw [stakeAt_of_lookup hi]
  have hnew : entriesSum [⟨tx.amount, releaseHeight⟩] = tx.amount.toNat := by
    simp [entriesSum]
  omega

/-! ## Native tokens -/

theorem applyTokenCreate (hs : Sound s)
    (hv : ∀ a, tx.sender = some a → isValidAddress a = true)
    (h : applyTokenCreate E tx height s = ok (u, s')) : Sound s' := by
  obtain ⟨r, hc, -, he⟩ := guarded_eq_ok.mp h
  obtain ⟨hsend, -, hnew⟩ := tokenCreateChecks_ok hc
  have ha := hv _ hsend
  obtain ⟨rest, pot, balance, -, -, hb, rfl⟩ := tokenCreateEffects_ok he
  have hzero : sumOf (mapAt s.tokenBalances r.tokenId) = 0 := by
    rw [hs.tokens r.tokenId, tokenSupplyAt, share_of_none hnew]
  have hle := valueAt_le_sumOf (mapAt s.tokenBalances r.tokenId) r.sender
  have hins := sumOf_insert (mapAt s.tokenBalances r.tokenId) r.sender balance
  rw [setNonce_tokenBalances] at hb
  refine (((hs.setNonce r.sender tx.nonce).setBalance ha rest).setFeePot pot).retoken r.tokenId _
    ((mapAt s.tokenBalances r.tokenId).insert r.sender balance) ?_ ?_
  · change _ = tx.amount.toNat
    omega
  · exact valueAt_insert_of_ne balance (ne_ammPool ha)

/-- Moving units between two addresses changes neither the sum nor the AMM account. -/
theorem move_units {m : BTreeMap UInt64} {a b : String} {amount left balance : UInt64}
    (hl : left.toNat + amount.toNat = (valueAt m a).toNat)
    (hb : balance.toNat = (valueAt (writeOrRemove m a left) b).toNat + amount.toNat) :
    sumOf ((writeOrRemove m a left).insert b balance) = sumOf m := by
  have h₁ := sumOf_writeOrRemove m a left
  have h₂ := sumOf_insert (writeOrRemove m a left) b balance
  omega

theorem applyTokenTransfer (hs : Sound s)
    (hv : ∀ a, tx.sender = some a → isValidAddress a = true)
    (h : applyTokenTransfer E tx s = ok (u, s')) : Sound s' := by
  obtain ⟨r, hc, -, he⟩ := guarded_eq_ok.mp h
  obtain ⟨hsend, -, -, -, hrec⟩ := tokenTransferChecks_ok hc
  have ha := hv _ hsend
  obtain ⟨rest, pot, left, balance, holders, -, -, hl, rfl, hb, rfl⟩ := tokenTransferEffects_ok he
  refine (((hs.setNonce r.sender tx.nonce).setBalance ha rest).setFeePot pot).setHolders
    r.tokenId _ (move_units hl hb) ?_
  rw [valueAt_insert_of_ne balance (ne_ammPool hrec), valueAt_writeOrRemove,
    if_neg (ne_ammPool ha)]
  rfl

theorem applyTokenBurn (hs : Sound s)
    (hv : ∀ a, tx.sender = some a → isValidAddress a = true)
    (h : applyTokenBurn E tx s = ok (u, s')) : Sound s' := by
  obtain ⟨r, hc, -, he⟩ := guarded_eq_ok.mp h
  obtain ⟨hsend, -, -, ht⟩ := tokenBurnChecks_ok hc
  have ha := hv _ hsend
  have ht' : r.tokenId ∈ (s.setNonce r.sender tx.nonce).tokens := ht
  obtain ⟨rest, pot, left, totalSupply, info, -, -, hl, hi, hsup, rfl⟩ :=
    tokenBurnEffects_ok ht' he
  have hsum := hs.tokens r.tokenId
  rw [setNonce_tokens] at hi
  rw [tokenSupplyAt_of_lookup hi] at hsum
  have hle := valueAt_le_sumOf (mapAt s.tokenBalances r.tokenId) r.sender
  have hins := sumOf_writeOrRemove (mapAt s.tokenBalances r.tokenId) r.sender left
  rw [setNonce_tokenBalances] at hl
  have hex := Word.Saturation.toNat_of_sub hsup (by omega)
  refine (((hs.setNonce r.sender tx.nonce).setBalance ha rest).setFeePot pot).retoken r.tokenId
    { info with totalSupply } (writeOrRemove (mapAt s.tokenBalances r.tokenId) r.sender left) ?_ ?_
  · change _ = totalSupply.toNat
    omega
  · rw [valueAt_writeOrRemove, if_neg (ne_ammPool ha)]
    rfl

end Sound

/-! ## Quotes -/

theorem firstQuote_ok {action : AmmAction} {q : AddQuote} (h : firstQuote action = ok q) :
    0 < q.useHkm.toNat ∧ 0 < q.useToken.toNat ∧ q.first = true := by
  simp only [firstQuote, Outcome.bind_eq_ok, ensure_eq_ok, pure_eq, ok.injEq, not_le] at h
  obtain ⟨shares, hsq, _, hmin, rfl⟩ := h
  -- the root of a product with a zero side is below the minimum
  have hpos : 0 < action.amountHkm.toNat * action.amountToken.toNat := by
    by_contra h0
    have hz : Word.wideSaturatingMul action.amountHkm.toNat action.amountToken.toNat = 0 := by
      rw [Word.wideSaturatingMul]
      omega
    rw [hz, isqrtU128, if_pos (by decide), ok.injEq] at hsq
    rw [← hsq] at hmin
    exact absurd hmin (by decide)
  exact ⟨Nat.pos_of_mul_pos_right hpos, Nat.pos_of_mul_pos_left hpos, rfl⟩

theorem laterQuote_ok {pool : Pool} {action : AmmAction} {q : AddQuote}
    (h : laterQuote pool action = ok q) :
    0 < q.useHkm.toNat ∧ 0 < q.useToken.toNat ∧ q.first = false := by
  simp only [laterQuote, Outcome.bind_eq_ok, ensure_eq_ok, plain_eq_ok, pure_eq, ok.injEq,
    not_or, Prod.exists] at h
  obtain ⟨useHkm, useToken, -, _, ⟨h₁, h₂⟩, _, -, _, -, rfl⟩ := h
  rw [← UInt64.toNat_inj] at h₁ h₂
  exact ⟨Nat.pos_of_ne_zero h₁, Nat.pos_of_ne_zero h₂, rfl⟩

theorem addQuote_ok {pool : Pool} {action : AmmAction} {q : AddQuote}
    (h : addQuote pool action = ok q) :
    0 < q.useHkm.toNat ∧ 0 < q.useToken.toNat ∧ (q.first = true ↔ pool.totalShares = 0) := by
  unfold addQuote at h
  split at h
  · rename_i h0
    obtain ⟨h₁, h₂, h₃⟩ := firstQuote_ok h
    exact ⟨h₁, h₂, by simp [h₃, h0]⟩
  · rename_i h0
    obtain ⟨h₁, h₂, h₃⟩ := laterQuote_ok h
    exact ⟨h₁, h₂, by simp [h₃, h0]⟩

namespace Sound

variable {E : Node} {s s' : ChainState} {tx : Transaction} {height : UInt64} {u : Unit}

/-! ## Pools -/

/-- A live pool always keeps the locked minimum, so an empty share count means no pool. -/
theorem no_pool_of_no_shares (hs : Sound s) {t : String}
    (h : (s.pools[t]?.getD .empty).totalShares = 0) : s.pools[t]? = none := by
  cases hp : s.pools[t]? with
  | none => rfl
  | some p =>
    have hlive := (hs.pools.live t p hp).totalShares
    rw [hp, Option.getD_some] at h
    rw [h] at hlive
    have hmin : minimumLiquidity.toNat = 1000 := rfl
    rw [hmin, UInt64.toNat_zero] at hlive
    omega

theorem applyAddLiquidity (hs : Sound s)
    (hv : ∀ a, tx.sender = some a → isValidAddress a = true)
    (h : applyAddLiquidity E tx s = ok (u, s')) : Sound s' := by
  obtain ⟨r, hc, -, he⟩ := guarded_eq_ok.mp h
  obtain ⟨action, hsend, -, -, -, -, hq⟩ := addLiquidityChecks_ok hc
  obtain ⟨hpos₁, hpos₂, hfirst⟩ := addQuote_ok hq
  have ha := hv _ hsend
  obtain ⟨rest, pot, custody, left, inPool, reserveHkm, reserveToken, totalShares, holding, holders,
    -, -, hcus, hl, rfl, hin, hrh, hrt, hts, hg, rfl⟩ := addLiquidityEffects_ok he
  have hs₁ := ((hs.setNonce r.sender tx.nonce).setBalance ha rest).setFeePot pot
  obtain ⟨hold₁, hold₂⟩ := poolOrNew_reserves s r.tokenId
  have hlp := sumOf_insert (mapAt s.lpShares r.tokenId) r.sender holding
  change custody.toNat = (valueAt (s.balances.insert r.sender rest) ammPoolAccount).toNat + _ at hcus
  rw [valueAt_insert_of_ne rest (ne_ammPool ha)] at hcus
  rw [valueAt_writeOrRemove, if_neg (ne_ammPool ha)] at hin
  change inPool.toNat = (valueAt (mapAt s.tokenBalances r.tokenId) ammPoolAccount).toNat + _ at hin
  change reserveHkm.toNat = (s.poolOrNew r.tokenId).reserveHkm.toNat + _ at hrh
  change reserveToken.toNat = (s.poolOrNew r.tokenId).reserveToken.toNat + _ at hrt
  change totalShares.toNat = (s.poolOrNew r.tokenId).totalShares.toNat + _ at hts
  change holding.toNat = (valueAt (mapAt s.lpShares r.tokenId) r.sender).toNat + _ at hg
  have hamm := hs.ammTokens r.tokenId
  refine hs₁.repool r.tokenId
    (grownPool (s.poolOrNew r.tokenId) reserveHkm reserveToken totalShares) custody
    ((writeOrRemove (mapAt s.tokenBalances r.tokenId) r.sender left).insert ammPoolAccount inPool)
    (s.lpShares.insert r.tokenId ((mapAt s.lpShares r.tokenId).insert r.sender holding))
    ?_ ?_ (move_units hl ?_) ?_ ?_
  · change custody.toNat + reserveHkmAt s.pools r.tokenId =
      (valueAt (s.balances.insert r.sender rest) ammPoolAccount).toNat + reserveHkm.toNat
    rw [valueAt_insert_of_ne rest (ne_ammPool ha)]
    omega
  · rw [valueAt_insert_self]
    change inPool.toNat = reserveToken.toNat
    omega
  · rw [valueAt_writeOrRemove, if_neg (ne_ammPool ha)]
    exact hin
  · intro t' ht
    rw [mapAt_insert, if_neg ht]
    rfl
  · rw [mapAt_insert, if_pos rfl]
    refine ⟨?_, ?_, ?_⟩
    · change 0 < reserveHkm.toNat
      omega
    · change 0 < reserveToken.toNat
      omega
    · change sumOf ((mapAt s.lpShares r.tokenId).insert r.sender holding) + _ = totalShares.toNat
      cases hp : s.pools[r.tokenId]? with
      | none =>
        have hdead := hs.pools.dead r.tokenId hp
        have hf : r.quote.first = true := hfirst.mpr (by
          change (s.pools[r.tokenId]?.getD .empty).totalShares = 0
          rw [hp]
          rfl)
        rw [poolOrNew, hp, if_pos hf] at hts
        change totalShares.toNat = 0 + _ at hts
        omega
      | some p =>
        have hlive := (hs.pools.live r.tokenId p hp).totalShares
        have hf : ¬ r.quote.first = true := fun hf => by
          have := hs.no_pool_of_no_shares (hfirst.mp hf)
          rw [hp] at this
          simp at this
        rw [poolOrNew, hp, if_neg hf, Option.getD_some] at hts
        omega

/-- Taking out units and giving them back out, the receiver not saturating. -/
theorem release_units (hs : Sound s) {t a : String} {amount left held : UInt64}
    (hl : left.toNat + amount.toNat = (valueAt (mapAt s.tokenBalances t) ammPoolAccount).toNat)
    (ha : isValidAddress a = true)
    (hh : E.saturation.add
      (valueAt (writeOrRemove (mapAt s.tokenBalances t) ammPoolAccount left) a) amount = some held) :
    held.toNat = (valueAt (writeOrRemove (mapAt s.tokenBalances t) ammPoolAccount left) a).toNat +
      amount.toNat := by
  refine Word.Saturation.toNat_of_add hh ?_
  rw [valueAt_writeOrRemove, if_neg (ne_ammPool ha).symm]
  have h₁ := valueAt_add_le_sumOf (mapAt s.tokenBalances t) (ne_ammPool ha)
  have h₂ := hs.holders_lt t
  omega

theorem applyRemoveLiquidity (hs : Sound s)
    (hv : ∀ a, tx.sender = some a → isValidAddress a = true)
    (h : applyRemoveLiquidity E tx s = ok (u, s')) : Sound s' := by
  obtain ⟨r, hc, -, he⟩ := guarded_eq_ok.mp h
  obtain ⟨action, pool, hsend, -, -, -, hp, hheld, -, hhkm, htok, -, -⟩ :=
    removeLiquidityChecks_ok hc
  have ha := hv _ hsend
  obtain ⟨rest, pot, left, custody, balance, inPool, held, reserveHkm, reserveToken, totalShares,
    holders, pool', -, -, hl, hcus, -, hin, rfl, hh, hp', h₁, h₂, h₃, rfl⟩ :=
    removeLiquidityEffects_ok he
  have hpool : pool' = pool := by
    rw [setNonce_pools, hp, Option.some.injEq] at hp'
    exact hp'.symm
  subst hpool
  have hs₁ := ((hs.setNonce r.sender tx.nonce).setBalance ha rest).setFeePot pot
  have hlive := hs.pools.live r.tokenId pool' hp
  have hlp := sumOf_writeOrRemove (mapAt s.lpShares r.tokenId) r.sender left
  have hle := valueAt_le_sumOf (mapAt s.lpShares r.tokenId) r.sender
  change left.toNat + _ = (valueAt (mapAt s.lpShares r.tokenId) r.sender).toNat at hl
  change custody.toNat + _ = (valueAt (s.balances.insert r.sender rest) ammPoolAccount).toNat at hcus
  rw [valueAt_insert_of_ne rest (ne_ammPool ha)] at hcus
  have hexact := hs.release_units hin ha hh
  have hamm := hs.ammTokens r.tokenId
  rw [reserveTokenAt_of_lookup hp] at hamm
  change inPool.toNat + _ = (valueAt (mapAt s.tokenBalances r.tokenId) ammPoolAccount).toNat at hin
  -- the shares taken are fewer than all shares, so both reserves stay positive
  have hmin : minimumLiquidity.toNat = 1000 := rfl
  have hlt : r.shares.toNat < pool'.totalShares.toNat := by
    have := hlive.totalShares
    omega
  have hfloor : ∀ n : UInt64, 0 < n.toNat →
      (UInt64.ofNat (r.shares.toNat * n.toNat / pool'.totalShares.toNat)).toNat < n.toNat := by
    intro n hn
    rw [UInt64.toNat_ofNat']
    refine lt_of_le_of_lt (Nat.mod_le _ _) ?_
    rw [Nat.div_lt_iff_lt_mul (by omega), Nat.mul_comm n.toNat]
    exact Nat.mul_lt_mul_of_pos_right hlt hn
  have hlt₁ := hfloor _ hlive.reserveHkm
  have hlt₂ := hfloor _ hlive.reserveToken
  rw [← hhkm] at hlt₁
  rw [← htok] at hlt₂
  refine (hs₁.repool r.tokenId (grownPool pool' reserveHkm reserveToken totalShares) custody
    ((writeOrRemove (mapAt s.tokenBalances r.tokenId) ammPoolAccount inPool).insert r.sender held)
    (s.lpShares.insert r.tokenId (writeOrRemove (mapAt s.lpShares r.tokenId) r.sender left))
    ?_ ?_ (move_units hin hexact) ?_ ?_).setBalance ha balance
  · change custody.toNat + reserveHkmAt s.pools r.tokenId =
      (valueAt (s.balances.insert r.sender rest) ammPoolAccount).toNat + reserveHkm.toNat
    rw [valueAt_insert_of_ne rest (ne_ammPool ha), reserveHkmAt_of_lookup hp]
    omega
  · rw [valueAt_insert_of_ne held (ne_ammPool ha), valueAt_writeOrRemove, if_pos rfl]
    change inPool.toNat = reserveToken.toNat
    omega
  · intro t' ht
    rw [mapAt_insert, if_neg ht]
    rfl
  · rw [mapAt_insert, if_pos rfl]
    refine ⟨?_, ?_, ?_⟩
    · change 0 < reserveHkm.toNat
      omega
    · change 0 < reserveToken.toNat
      omega
    · change sumOf (writeOrRemove (mapAt s.lpShares r.tokenId) r.sender left) + _ =
        totalShares.toNat
      have := hlive.totalShares
      omega

/-- What a swap leaves of a pool keeps both reserves and the shares. -/
theorem poolSound_swapped (hs : Sound s) {t : String} {pool : Pool} (hp : s.pools[t]? = some pool)
    {reserveHkm reserveToken : UInt64} (h₁ : 0 < reserveHkm.toNat) (h₂ : 0 < reserveToken.toNat) :
    PoolSound (grownPool pool reserveHkm reserveToken pool.totalShares)
      (sumOf (mapAt s.lpShares t)) :=
  ⟨h₁, h₂, (hs.pools.live t pool hp).totalShares⟩

theorem swapHkmToToken (hs : Sound s) {r : SwapRequest} (ha : isValidAddress r.sender = true)
    {pool : Pool} (hp : s.pools[r.tokenId]? = some pool)
    (hout : r.amountOut.toNat < pool.reserveToken.toNat)
    (h : swapHkmToToken E r s = ok (u, s')) : Sound s' := by
  obtain ⟨rest, pot, custody, inPool, held, reserveHkm, reserveToken, holders, pool', -, -, hcus,
    hin, rfl, hh, hp', h₁, h₂, rfl⟩ := swapHkmToToken_ok h
  rw [hp, Option.some.injEq] at hp'
  subst hp'
  have hs₁ := (hs.setBalance ha rest).setFeePot pot
  have hexact := hs.release_units hin ha hh
  have hlive := hs.pools.live r.tokenId pool hp
  have hamm := hs.ammTokens r.tokenId
  rw [reserveTokenAt_of_lookup hp] at hamm
  rw [valueAt_insert_of_ne rest (ne_ammPool ha)] at hcus
  refine hs₁.repool r.tokenId (grownPool pool reserveHkm reserveToken pool.totalShares) custody
    ((writeOrRemove (mapAt s.tokenBalances r.tokenId) ammPoolAccount inPool).insert r.sender held)
    s.lpShares ?_ ?_ (move_units hin hexact) (fun _ _ => rfl) (hs.poolSound_swapped hp ?_ ?_)
  · change custody.toNat + reserveHkmAt s.pools r.tokenId =
      (valueAt (s.balances.insert r.sender rest) ammPoolAccount).toNat + reserveHkm.toNat
    rw [valueAt_insert_of_ne rest (ne_ammPool ha), reserveHkmAt_of_lookup hp]
    omega
  · rw [valueAt_insert_of_ne held (ne_ammPool ha), valueAt_writeOrRemove, if_pos rfl]
    change inPool.toNat = reserveToken.toNat
    omega
  · have := hlive.reserveHkm
    omega
  · omega

theorem swapTokenToHkm (hs : Sound s) {r : SwapRequest} (ha : isValidAddress r.sender = true)
    {pool : Pool} (hp : s.pools[r.tokenId]? = some pool)
    (hout : r.amountOut.toNat < pool.reserveHkm.toNat)
    (h : swapTokenToHkm E r s = ok (u, s')) : Sound s' := by
  obtain ⟨rest, pot, left, inPool, custody, balance, reserveHkm, reserveToken, holders, pool', -,
    -, hl, rfl, hin, hcus, -, hp', h₁, h₂, rfl⟩ := swapTokenToHkm_ok h
  rw [hp, Option.some.injEq] at hp'
  subst hp'
  have hs₁ := (hs.setBalance ha rest).setFeePot pot
  have hlive := hs.pools.live r.tokenId pool hp
  have hamm := hs.ammTokens r.tokenId
  rw [reserveTokenAt_of_lookup hp] at hamm
  rw [valueAt_insert_of_ne rest (ne_ammPool ha)] at hcus
  have hsum := move_units hl hin
  rw [valueAt_writeOrRemove, if_neg (ne_ammPool ha)] at hin
  refine (hs₁.repool r.tokenId (grownPool pool reserveHkm reserveToken pool.totalShares) custody
    ((writeOrRemove (mapAt s.tokenBalances r.tokenId) r.sender left).insert ammPoolAccount inPool)
    s.lpShares ?_ ?_ hsum (fun _ _ => rfl)
    (hs.poolSound_swapped hp ?_ ?_)).setBalance ha balance
  · change custody.toNat + reserveHkmAt s.pools r.tokenId =
      (valueAt (s.balances.insert r.sender rest) ammPoolAccount).toNat + reserveHkm.toNat
    rw [valueAt_insert_of_ne rest (ne_ammPool ha), reserveHkmAt_of_lookup hp]
    omega
  · rw [valueAt_insert_self]
    change inPool.toNat = reserveToken.toNat
    omega
  · omega
  · have := hlive.reserveToken
    omega

theorem applySwap (hs : Sound s)
    (hv : ∀ a, tx.sender = some a → isValidAddress a = true)
    (h : applySwap E tx s = ok (u, s')) : Sound s' := by
  obtain ⟨r, hc, -, he⟩ := guarded_eq_ok.mp h
  obtain ⟨action, pool, hsend, -, -, -, hp, -, hout⟩ := swapChecks_ok hc
  have ha := hv _ hsend
  have hs₁ := hs.setNonce r.sender tx.nonce
  unfold swapEffects at he
  unfold reserveOut at hout
  split at he
  · rename_i hd
    rw [if_pos hd] at hout
    exact hs₁.swapHkmToToken ha hp hout he
  · rename_i hd
    rw [if_neg hd] at hout
    exact hs₁.swapTokenToHkm ha hp hout he

/-! ## Credentials and slashing -/

theorem applyCertificate (hs : Sound s) (h : applyCertificate tx s = ok (u, s')) : Sound s' := by
  rcases applyCertificate_ok h with rfl | ⟨action, issuer, record, -, -, -, rfl⟩
  · exact hs
  · exact (hs.setNonce _ _).setCredential _ _

theorem applySlash (hs : Sound s) (h : applySlash E tx height s = ok (u, s')) : Sound s' := by
  simp only [ChainState.applySlash, Exec.bind_eq_ok, read_eq_ok] at h
  obtain ⟨r, _, ⟨hc, rfl⟩, he⟩ := h
  obtain ⟨proof, info, -, hi, -, -, -, hstake, hle⟩ := slashChecks_ok hc
  obtain ⟨pool, burned, totalSupply, stake, unbonding, hp, -, -, hsum, hk, rfl⟩ :=
    slashEffects_ok hi hstake hle he
  have ha := hs.addressed.staker _ (mem_of_lookup hi)
  refine ((hs.restake ha pool { info with stake } unbonding
    (fun k h => hs.addressed.unbonding k (hk k h)) ?_).setSupply totalSupply burned).setOffense _ _
  rw [stakeAt_of_lookup hi]
  change _ = _ + stake.toNat + _
  omega

/-! ## The step lemma -/

/-- A transaction that a block may carry keeps the invariant. -/
theorem applyVerified (hs : Sound s) {validator : String} (hval : isValidAddress validator = true)
    (hver : tx.verifyForBlock E validator = ok ())
    (h : applyVerified E tx height s = ok (u, s')) : Sound s' := by
  simp only [ChainState.applyVerified, Exec.bind_eq_ok, read_eq_ok] at h
  obtain ⟨_, _, ⟨-, rfl⟩, _, _, ⟨-, rfl⟩, h⟩ := h
  unfold applyBranch at h
  have hsender := Transaction.sender_valid hver
  cases ht : tx.transactionType <;> simp only [ht] at h
  case transfer => exact hs.applyTransfer (hsender (by simp [ht]) (by simp [ht])) h
  case reward =>
    simp only [Transaction.verifyForBlock, ht, Outcome.bind_eq_ok, ensure_eq_ok] at hver
    obtain ⟨_, -, hrec⟩ := hver
    exact hs.applyReward (hrec ▸ hval) h
  case certificate => exact hs.applyCertificate h
  case stake => exact hs.applyStake (hsender (by simp [ht]) (by simp [ht])) h
  case withdraw => exact hs.applyWithdraw h
  case slash => exact hs.applySlash h
  case vest => exact hs.applyVest (hsender (by simp [ht]) (by simp [ht])) h
  case tokenCreate => exact hs.applyTokenCreate (hsender (by simp [ht]) (by simp [ht])) h
  case tokenTransfer => exact hs.applyTokenTransfer (hsender (by simp [ht]) (by simp [ht])) h
  case tokenBurn => exact hs.applyTokenBurn (hsender (by simp [ht]) (by simp [ht])) h
  case addLiquidity => exact hs.applyAddLiquidity (hsender (by simp [ht]) (by simp [ht])) h
  case removeLiquidity => exact hs.applyRemoveLiquidity (hsender (by simp [ht]) (by simp [ht])) h
  case swap => exact hs.applySwap (hsender (by simp [ht]) (by simp [ht])) h

end Sound

end ChainState
