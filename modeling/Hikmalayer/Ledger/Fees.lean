/-
# Fees are exact

A fee-paying transaction takes one base fee from its sender on top of the HKM it moves, and
nothing else goes into the pot.  While the issued HKM fits in a word no addition to the pot and
no payout saturates, so the pot counts the fee-paying transactions of a block and its validator
is paid all of it.
-/
import Mathlib.Tactic
import Hikmalayer.Ledger.BaseFee
import Hikmalayer.Ledger.Liquidity

open Outcome Exec OrderedMap

namespace ChainState

variable {E : Node} {s s' : ChainState} {tx : Transaction} {height : UInt64}
  {a p sender : String} {n fee : ℕ}

/-! ## Moving HKM -/

/-- HKM that goes from one account to another. -/
structure Move where
  payer : String
  payee : String
  amount : ℕ

/-- Every balance after the move, and after `sender` paid a fee. -/
def Move.Settles (m : Move) (sender : String) (fee : ℕ) (b b' : BTreeMap UInt64) : Prop :=
  ∀ x, (valueAt b' x).toNat + (if x = m.payer then m.amount else 0) +
      (if x = sender then fee else 0) =
    (valueAt b x).toNat + (if x = m.payee then m.amount else 0)

theorem Move.Settles.congr {m m' : Move} {b b' : BTreeMap UInt64} (h : m.Settles sender fee b b')
    (hm : m = m') : m'.Settles sender fee b b' := hm ▸ h

/-- A balance that was written, one account at a time. -/
theorem valueAt_insert_toNat (b : BTreeMap UInt64) (k x : String) (v : UInt64) :
    (valueAt (b.insert k v) x).toNat = if x = k then v.toNat else (valueAt b x).toNat := by
  rw [valueAt_insert]
  by_cases h : k = x
  · rw [if_pos h, if_pos h.symm]
  · rw [if_neg h, if_neg (Ne.symm h)]

/-- An account pays the fee and moves nothing. -/
theorem settles_fee {b : BTreeMap UInt64} {rest : UInt64}
    (hrest : rest.toNat + fee = (valueAt b a).toNat) :
    (⟨a, a, 0⟩ : Move).Settles a fee b (b.insert a rest) := by
  intro x
  rw [valueAt_insert_toNat]
  by_cases hx : x = a
  · subst hx
    simp only [if_true]
    omega
  · simp only [if_neg hx]

/-- An account pays the fee and an amount that another one gets. -/
theorem settles_paid {b : BTreeMap UInt64} {rest got : UInt64}
    (hrest : rest.toNat + (n + fee) = (valueAt b a).toNat)
    (hgot : got.toNat = (valueAt (b.insert a rest) p).toNat + n) :
    (⟨a, p, n⟩ : Move).Settles a fee b ((b.insert a rest).insert p got) := by
  intro x
  rw [valueAt_insert_toNat] at hgot
  rw [valueAt_insert_toNat, valueAt_insert_toNat]
  by_cases hx : x = a
  · subst hx
    by_cases hp : x = p
    · subst hp
      simp only [if_true] at hgot ⊢
      omega
    · simp only [if_true, if_neg hp]
      omega
  · by_cases hp : x = p
    · subst hp
      simp only [if_true, if_neg hx] at hgot ⊢
      omega
    · simp only [if_neg hx, if_neg hp]

/-- An account pays the fee and gets an amount from another one. -/
theorem settles_received {b : BTreeMap UInt64} {rest left got : UInt64} (hne : p ≠ a)
    (hrest : rest.toNat + fee = (valueAt b a).toNat)
    (hleft : left.toNat + n = (valueAt (b.insert a rest) p).toNat)
    (hgot : got.toNat = (valueAt ((b.insert a rest).insert p left) a).toNat + n) :
    (⟨p, a, n⟩ : Move).Settles a fee b (((b.insert a rest).insert p left).insert a got) := by
  intro x
  rw [valueAt_insert_toNat, if_neg hne] at hleft
  rw [valueAt_insert_toNat, if_neg hne.symm, valueAt_insert_toNat, if_pos rfl] at hgot
  rw [valueAt_insert_toNat, valueAt_insert_toNat, valueAt_insert_toNat]
  by_cases hx : x = a
  · subst hx
    simp only [if_true, if_neg hne.symm]
    omega
  · by_cases hp : x = p
    · subst hp
      simp only [if_true, if_neg hx]
      omega
    · simp only [if_neg hx, if_neg hp]

/-! ## The HKM of each type -/

/-- The token whose pool a transaction addresses. -/
def ammTokenId (tx : Transaction) : String := (tx.amm.map AmmAction.tokenId).getD ""

/-- The HKM that a fee-paying transaction of `sender` moves.  What goes into a pool or out of
one is read off the reserve. -/
def hkmMoved (tx : Transaction) (sender : String) (s s' : ChainState) : Move :=
  let before := reserveHkmAt s.pools (ammTokenId tx)
  let after := reserveHkmAt s'.pools (ammTokenId tx)
  match tx.transactionType with
  | .transfer => ⟨sender, tx.recipient, tx.amount.toNat⟩
  | .stake => ⟨sender, stakingPoolAccount, tx.amount.toNat⟩
  | .vest => ⟨sender, vestingPoolAccount, tx.amount.toNat⟩
  | .addLiquidity => ⟨sender, ammPoolAccount, after - before⟩
  | .removeLiquidity => ⟨ammPoolAccount, sender, before - after⟩
  | .swap =>
    if (tx.amm.map AmmAction.hkmToToken).getD false then ⟨sender, ammPoolAccount, after - before⟩
    else ⟨ammPoolAccount, sender, before - after⟩
  | _ => ⟨sender, sender, 0⟩

/-- One transaction and the fee: its sender pays one base fee, which goes into the pot, on top
of the HKM it moves; the types without a fee leave the pot and their sender alone. -/
structure Paid (tx : Transaction) (s s' : ChainState) : Prop where
  baseFee : s'.baseFee = s.baseFee
  pays : tx.transactionType.paysFee = true →
    s'.feePot.toNat = s.feePot.toNat + s.baseFee.toNat ∧ ∃ sender, tx.sender = some sender ∧
      (hkmMoved tx sender s s').Settles sender s.baseFee.toNat s.balances s'.balances
  free : tx.transactionType.paysFee = false →
    s'.feePot = s.feePot ∧ ∀ sender, tx.sender = some sender → s'.balances = s.balances

/-- The pot takes the whole fee: what the sender had was not in the pot. -/
theorem Conserved.collected (hc : Conserved s) {pot : UInt64}
    (hadd : E.saturation.add s.feePot s.baseFee = some pot)
    (hle : s.baseFee.toNat ≤ (valueAt s.balances a).toNat) :
    pot.toNat = s.feePot.toNat + s.baseFee.toNat := by
  refine Word.Saturation.toNat_of_add hadd ?_
  have h₁ := valueAt_le_sumOf s.balances a
  have h₂ := hc.sumOf_lt
  omega

/-- What a reserve account pays fits on top of a balance from which only a fee was taken. -/
theorem Conserved.received (hc : Conserved s) (hne : a ≠ p) {rest left got amount : UInt64}
    (hrest : rest.toNat + fee = (valueAt s.balances a).toNat)
    (hleft : left.toNat + amount.toNat = (valueAt (s.balances.insert a rest) p).toNat)
    (hadd : E.saturation.add (valueAt ((s.balances.insert a rest).insert p left) a) amount =
      some got) :
    got.toNat = (valueAt ((s.balances.insert a rest).insert p left) a).toNat + amount.toNat := by
  refine Word.Saturation.toNat_of_add hadd ?_
  rw [valueAt_insert_of_ne left hne.symm, valueAt_insert_self]
  rw [valueAt_insert_of_ne rest hne] at hleft
  have hroom : _ + amount.toNat < _ := hc.room hne (by omega)
  omega

/-- A transaction whose sender pays the fee alone. -/
theorem Paid.of_fee (hc : Conserved s) (ht : tx.transactionType.paysFee = true)
    (hsender : tx.sender = some a) (hbase : s'.baseFee = s.baseFee) {rest : UInt64}
    (hrest : rest.toNat + s.baseFee.toNat = (valueAt s.balances a).toNat)
    (hpot : E.saturation.add s.feePot s.baseFee = some s'.feePot)
    (hb : s'.balances = s.balances.insert a rest) (hmoved : hkmMoved tx a s s' = ⟨a, a, 0⟩) :
    Paid tx s s' := by
  refine ⟨hbase, fun _ => ⟨hc.collected (a := a) hpot (by omega), a, hsender, ?_⟩,
    fun hfree => absurd (hfree.symm.trans ht) Bool.false_ne_true⟩
  rw [hmoved, hb]
  exact settles_fee hrest

/-- A transaction whose sender pays the fee and an amount to another account. -/
theorem Paid.of_payment (hc : Conserved s) (ht : tx.transactionType.paysFee = true)
    (hsender : tx.sender = some a) (hbase : s'.baseFee = s.baseFee) {rest got : UInt64}
    (hrest : rest.toNat + (n + s.baseFee.toNat) = (valueAt s.balances a).toNat)
    (hpot : E.saturation.add s.feePot s.baseFee = some s'.feePot)
    (hgot : got.toNat = (valueAt (s.balances.insert a rest) p).toNat + n)
    (hb : s'.balances = (s.balances.insert a rest).insert p got)
    (hmoved : hkmMoved tx a s s' = ⟨a, p, n⟩) : Paid tx s s' := by
  refine ⟨hbase, fun _ => ⟨hc.collected (a := a) hpot (by omega), a, hsender, ?_⟩,
    fun hfree => absurd (hfree.symm.trans ht) Bool.false_ne_true⟩
  rw [hmoved, hb]
  exact settles_paid hrest hgot

/-- A transaction whose sender pays the fee and gets an amount from a reserve. -/
theorem Paid.of_receipt (hc : Conserved s) (ht : tx.transactionType.paysFee = true)
    (hsender : tx.sender = some a) (hbase : s'.baseFee = s.baseFee) (hne : a ≠ p)
    {rest left got amount : UInt64}
    (hrest : rest.toNat + s.baseFee.toNat = (valueAt s.balances a).toNat)
    (hpot : E.saturation.add s.feePot s.baseFee = some s'.feePot)
    (hleft : left.toNat + amount.toNat = (valueAt (s.balances.insert a rest) p).toNat)
    (hgot : E.saturation.add (valueAt ((s.balances.insert a rest).insert p left) a) amount =
      some got)
    (hb : s'.balances = ((s.balances.insert a rest).insert p left).insert a got)
    (hmoved : hkmMoved tx a s s' = ⟨p, a, amount.toNat⟩) : Paid tx s s' := by
  refine ⟨hbase, fun _ => ⟨hc.collected (a := a) hpot (by omega), a, hsender, ?_⟩,
    fun hfree => absurd (hfree.symm.trans ht) Bool.false_ne_true⟩
  rw [hmoved, hb]
  exact settles_received hne.symm hrest hleft (hc.received hne hrest hleft hgot)

theorem Paid.of_free (ht : tx.transactionType.paysFee = false) (hbase : s'.baseFee = s.baseFee)
    (hpot : s'.feePot = s.feePot)
    (hsame : ∀ sender, tx.sender = some sender → s'.balances = s.balances) : Paid tx s s' :=
  ⟨hbase, fun hpays => absurd (ht.symm.trans hpays) Bool.false_ne_true,
    fun _ => ⟨hpot, hsame⟩⟩

theorem swapChecks_direction {r : SwapRequest} (h : swapChecks tx s = ok r) :
    (tx.amm.map AmmAction.hkmToToken).getD false = r.hkmToToken ∧ ammTokenId tx = r.tokenId := by
  simp only [swapChecks, Outcome.bind_eq_ok, okOr_eq_ok, ensure_eq_ok, pure_eq, ok.injEq] at h
  obtain ⟨_, -, action, ha, _, -, _, -, _, -, _, -, _, -, rfl⟩ := h
  rw [ammTokenId, ha]
  exact ⟨rfl, rfl⟩

/-- The reserve recorded for a token after its pool was written. -/
theorem reserveHkmAt_insert (m : BTreeMap Pool) (k : String) (pool : Pool) :
    reserveHkmAt (m.insert k pool) k = pool.reserveHkm.toNat :=
  reserveHkmAt_of_lookup (lookup_insert_self m k pool)

/-- The mutations of a signed transaction, with the fee. -/
theorem Mutation.paid (hc : Conserved s) {effects : StateAction} {t : ChainState}
    (hm : Mutation E tx height s a effects) (hne : tx.transactionType ≠ .withdraw →
      tx.transactionType ≠ .certificate → a ≠ ammPoolAccount)
    (he : effects (s.setNonce a tx.nonce) = ok ((), t)) : Paid tx s t := by
  have hsender := hm.sender
  cases hm with
  | transfer ht =>
    obtain ⟨rest, balance, pot, hrest, hgot, hpot, rfl⟩ := transferEffects_ok he
    exact .of_payment hc (by rw [ht]; rfl) hsender rfl hrest hpot hgot rfl (by rw [hkmMoved, ht])
  | stake ht =>
    obtain ⟨rest, balance, pot, stake, pq, hrest, hgot, hpot, -, -, rfl⟩ := stakeEffects_ok he
    exact .of_payment hc (by rw [ht]; rfl) hsender rfl hrest hpot hgot rfl (by rw [hkmMoved, ht])
  | withdraw ht =>
    obtain ⟨rest, pot, _, _, hrest, hpot, -, rfl⟩ := withdrawEffects_ok he
    exact .of_fee hc (by rw [ht]; rfl) hsender rfl hrest hpot rfl (by rw [hkmMoved, ht])
  | vest ht =>
    obtain ⟨rest, balance, pot, _, _, hrest, hgot, hpot, -, -, rfl⟩ := vestEffects_ok he
    exact .of_payment hc (by rw [ht]; rfl) hsender rfl hrest hpot hgot rfl (by rw [hkmMoved, ht])
  | tokenCreate ht =>
    obtain ⟨rest, pot, _, hrest, hpot, -, rfl⟩ := tokenCreateEffects_ok he
    exact .of_fee hc (by rw [ht]; rfl) hsender rfl hrest hpot rfl (by rw [hkmMoved, ht])
  | tokenTransfer ht =>
    obtain ⟨rest, pot, _, _, _, hrest, hpot, -, -, -, rfl⟩ := tokenTransferEffects_ok he
    exact .of_fee hc (by rw [ht]; rfl) hsender rfl hrest hpot rfl (by rw [hkmMoved, ht])
  | @tokenBurn r ht hcheck =>
    obtain ⟨-, -, -, hmem⟩ := tokenBurnChecks_ok hcheck
    obtain ⟨rest, pot, _, _, _, hrest, hpot, -, -, -, rfl⟩ :=
      tokenBurnEffects_ok (s := s.setNonce r.sender tx.nonce) hmem he
    exact .of_fee hc (by rw [ht]; rfl) hsender rfl hrest hpot rfl (by rw [hkmMoved, ht])
  | @addLiquidity r ht hcheck =>
    obtain ⟨action, -, hamm, htoken, -⟩ := addLiquidityChecks_ok hcheck
    obtain ⟨rest, pot, custody, _, _, reserve, _, _, _, _, hrest, hpot, hgot, -, -, -, hreserve, -,
      -, -, rfl⟩ := addLiquidityEffects_ok he
    refine .of_payment hc (by rw [ht]; rfl) hsender rfl hrest hpot hgot rfl ?_
    have hid : ammTokenId tx = r.tokenId := by rw [ammTokenId, hamm, htoken]; rfl
    have hold : (poolOrNew s r.tokenId).reserveHkm.toNat = reserveHkmAt s.pools r.tokenId :=
      (poolOrNew_reserves s r.tokenId).1
    change reserve.toNat = (poolOrNew s r.tokenId).reserveHkm.toNat + _ at hreserve
    have hgrown : reserve.toNat - reserveHkmAt s.pools r.tokenId = r.quote.useHkm.toNat := by
      rw [hreserve, hold, Nat.add_sub_cancel_left]
    simp only [hkmMoved, ht, hid, ← hgrown]
    exact congrArg (fun n => Move.mk r.sender ammPoolAccount (n - _)) (reserveHkmAt_insert _ _ _)
  | @removeLiquidity r ht hcheck =>
    have hamm := hne (by rw [ht]; decide) (by rw [ht]; decide)
    obtain ⟨action, pool, -, haction, htoken, -⟩ := removeLiquidityChecks_ok hcheck
    obtain ⟨rest, pot, _, custody, balance, _, _, reserve, _, _, _, pool', hrest, hpot, -, hleft,
      hgot, -, -, -, hpool, hreserve, -, -, rfl⟩ := removeLiquidityEffects_ok he
    refine .of_receipt hc (by rw [ht]; rfl) hsender rfl hamm hrest hpot hleft hgot rfl ?_
    have hid : ammTokenId tx = r.tokenId := by rw [ammTokenId, haction, htoken]; rfl
    have hold : reserveHkmAt s.pools r.tokenId = pool'.reserveHkm.toNat := reserveHkmAt_of_lookup hpool
    have hshrunk : reserveHkmAt s.pools r.tokenId - reserve.toNat = r.amountHkm.toNat := by
      rw [hold, ← hreserve, Nat.add_sub_cancel_left]
    simp only [hkmMoved, ht, hid, ← hshrunk]
    exact congrArg (fun n => Move.mk ammPoolAccount r.sender (_ - n)) (reserveHkmAt_insert _ _ _)
  | @swap r ht hcheck =>
    have hamm := hne (by rw [ht]; decide) (by rw [ht]; decide)
    obtain ⟨hdirection, hid⟩ := swapChecks_direction hcheck
    unfold swapEffects at he
    split at he
    · rename_i hd
      obtain ⟨rest, pot, custody, _, _, reserve, _, _, pool, hrest, hpot, hgot, -, -, -, hpool,
        hreserve, -, rfl⟩ := swapHkmToToken_ok he
      refine .of_payment hc (by rw [ht]; rfl) hsender rfl hrest hpot hgot rfl ?_
      have hold : reserveHkmAt s.pools r.tokenId = pool.reserveHkm.toNat := reserveHkmAt_of_lookup hpool
      have hgrown : reserve.toNat - reserveHkmAt s.pools r.tokenId = r.amountIn.toNat := by
        rw [hold, hreserve, Nat.add_sub_cancel_left]
      simp only [hkmMoved, ht, hid, hdirection, if_pos hd, ← hgrown]
      exact congrArg (fun n => Move.mk r.sender ammPoolAccount (n - _)) (reserveHkmAt_insert _ _ _)
    · rename_i hd
      obtain ⟨rest, pot, _, _, custody, balance, reserve, _, _, pool, hrest, hpot, -, -, -, hleft,
        hgot, hpool, -, hreserve, rfl⟩ := swapTokenToHkm_ok he
      refine .of_receipt hc (by rw [ht]; rfl) hsender rfl hamm hrest hpot hleft hgot rfl ?_
      have hold : reserveHkmAt s.pools r.tokenId = pool.reserveHkm.toNat := reserveHkmAt_of_lookup hpool
      have hshrunk : reserveHkmAt s.pools r.tokenId - reserve.toNat = r.amountOut.toNat := by
        rw [hold, ← hreserve, Nat.add_sub_cancel_left]
      simp only [hkmMoved, ht, hid, hdirection, if_neg hd, ← hshrunk]
      exact congrArg (fun n => Move.mk ammPoolAccount r.sender (_ - n)) (reserveHkmAt_insert _ _ _)
  | @certificate _ action ht =>
    have hmarket : Leaves market (certificateEffects tx action a) :=
      certificateEffects_leaves (fun _ _ _ => rfl) _ _
    have hbalances : Leaves balances (certificateEffects tx action a) :=
      certificateEffects_leaves (fun _ _ _ => rfl) _ _
    have hsame : t.market = s.market := (hmarket (s.setNonce a tx.nonce)).1 _ _ he
    exact .of_free (by rw [ht]; rfl) (congrArg Market.baseFee hsame)
      (congrArg Market.feePot hsame) fun _ _ => (hbalances (s.setNonce a tx.nonce)).1 _ _ he

/-- A verified transaction that applies is paid for as its type says. -/
theorem applyVerified_paid (hc : Conserved s) {validator : String}
    (hver : tx.verifyForBlock E validator = ok ())
    (h : applyVerified E tx height s = ok ((), s')) : Paid tx s s' := by
  have hmarket := (applyVerified_applied h).2.2.charged
  cases (applyVerified_applied h).2.2 with
  | @signed account _ hm _ he =>
    exact hm.paid hc (fun hw hcert =>
      ne_ammPool (Transaction.sender_valid hver hw hcert account hm.sender)) he
  | reward ht _ =>
    refine .of_free (by rw [ht]; rfl) hmarket.baseFee (hmarket.free (by rw [ht]; rfl)) ?_
    intro sender hsender
    simp only [Transaction.verifyForBlock, ht, Outcome.bind_eq_ok, ensure_eq_ok, hsender,
      reduceCtorEq, false_and, exists_false] at hver
  | slash ht _ =>
    refine .of_free (by rw [ht]; rfl) hmarket.baseFee (hmarket.free (by rw [ht]; rfl)) ?_
    intro sender hsender
    simp only [Transaction.verifyForBlock, ht, Outcome.bind_eq_ok, ensure_eq_ok, hsender,
      reduceCtorEq, false_and, exists_false] at hver
  | anchor ht _ he => exact he ▸ .of_free (by rw [ht]; rfl) rfl rfl fun _ _ => rfl

/-! ## Settling -/

/-- The releases of a block boundary leave the fee market alone. -/
theorem releaseDue_leaves : Leaves market (releaseDue E height) := by
  have hunbond : ∀ account, Leaves market (releaseUnbonding E height account) := fun _ =>
    releaseUnbonding_leaves (fun _ _ _ => rfl) (fun _ _ => rfl) (fun _ _ => rfl)
  have hvest : ∀ account, Leaves market (releaseVesting E height account) := fun _ =>
    releaseVesting_leaves (fun _ _ _ => rfl) (fun _ _ => rfl)
  exact (Leaves.read _ _).bind fun accounts => (Leaves.forEach hunbond accounts).bind fun _ =>
    (Leaves.read _ _).bind fun recipients => Leaves.forEach hvest recipients

/-- Settling pays the whole pot to the validator. -/
theorem settleFees_paid (hc : Conserved s) {validator : String}
    (h : settleFees E validator s = ok ((), s')) (x : String) : (s'.balanceOf x).toNat =
      (s.balanceOf x).toNat + if x = validator then s.feePot.toNat else 0 := by
  simp only [settleFees, Exec.bind_eq_ok, Exec.read_eq_ok, update_eq_ok, Outcome.bind_eq_ok,
    pure_eq, ok.injEq] at h
  obtain ⟨_, _, ⟨next, -, rfl⟩, _, _, ⟨rfl, rfl⟩, h⟩ := h
  rw [setBaseFee_feePot] at h
  split at h
  · simp only [Exec.bind_eq_ok, modify_apply, ok.injEq, Prod.mk.injEq, credit_eq_ok] at h
    obtain ⟨_, _, ⟨-, rfl⟩, balance, hadd, rfl⟩ := h
    have hfit : (valueAt s.balances validator).toNat + s.feePot.toNat < 2 ^ 64 := by
      have h₁ := valueAt_le_sumOf s.balances validator
      have h₂ := hc.sumOf_lt
      omega
    have hbalance : balance.toNat = (valueAt s.balances validator).toNat + s.feePot.toNat :=
      Word.Saturation.toNat_of_add hadd hfit
    change (valueAt (s.balances.insert validator balance) x).toNat = (valueAt s.balances x).toNat + _
    rw [valueAt_insert_toNat]
    split
    · rename_i hx
      rw [hbalance, hx]
    · rfl
  · rename_i hpot
    rw [Exec.pure_apply, ok.injEq, Prod.mk.injEq] at h
    obtain ⟨-, rfl⟩ := h
    rw [UInt64.lt_iff_toNat_lt, UInt64.toNat_zero] at hpot
    have hzero : s.feePot.toNat = 0 := by omega
    rw [hzero, ite_self, Nat.add_zero]
    rfl

/-! ## Blocks -/

/-- The transactions of a block on conserved HKM collect one fee each, if their type has one. -/
theorem executeTransactions_collected {validator : String} {index : UInt64} {txs : List String}
    {base : ℕ} (hv : isValidAddress validator = true)
    (hbase : base + (blockReward index).toNat < 2 ^ 64) :
    ∀ {s s' : ChainState} {n n' : ℕ}, Sound s → Issued (base + n * (blockReward index).toNat) s →
      executeTransactions E validator index s n txs = ok (s', n') → n' ≤ 1 →
      s'.baseFee = s.baseFee ∧
        s'.feePot.toNat = s.feePot.toNat + feePaying E txs * s.baseFee.toNat := by
  induction txs with
  | nil =>
    intro s s' n n' _ _ h _
    rw [executeTransactions, ok.injEq, Prod.mk.injEq] at h
    obtain ⟨rfl, -⟩ := h
    exact ⟨rfl, by rw [feePaying, List.filterMap_nil, List.countP_nil, Nat.zero_mul, Nat.add_zero]⟩
  | cons txStr rest ih =>
    intro s s' n n' hs hi h hn
    obtain ⟨mid, tx, h₁, h₂⟩ := executeTransactions_cons_eq_ok.mp h
    obtain ⟨hparse, hver, happly, -⟩ := executeTransaction_eq_ok.mp h₁
    have hone : executeTransactions E validator index s n [txStr] = ok (mid, n + rewardsOf tx) :=
      executeTransactions_cons_eq_ok.mpr ⟨mid, tx, h₁, rfl⟩
    have hmid := (executeTransactions_issued hv hbase hs hi hone
      ((executeTransactions_count h₂).trans hn)).1
    have hpaid := applyVerified_paid hi.conserved hver happly
    obtain ⟨hfee, hpot⟩ := ih (hs.applyVerified hv hver happly) hmid h₂ hn
    refine ⟨hfee.trans hpaid.baseFee, ?_⟩
    rw [hpot, hpaid.baseFee, feePaying_cons hparse]
    cases hp : tx.transactionType.paysFee with
    | true =>
      rw [(hpaid.pays hp).1, if_pos rfl, Nat.add_mul, Nat.one_mul]
      omega
    | false => rw [(hpaid.free hp).1, if_neg Bool.false_ne_true, Nat.add_zero]

/-- The fees of a block of `validator` that leads from `s` to `s'`.  The pot is empty before
and after it; each transaction is paid for as its type says; when the block closes, the pot
holds one fee for each fee-paying transaction, that number is what the fee market derives from
it, and the validator is paid all of it. -/
structure FeesExact (E : Node) (validator : String) (block : Block) (s s' : ChainState) : Prop where
  before : s.feePot = 0
  after : s'.feePot = 0
  each : ∀ pre txStr post, block.transactions = pre ++ txStr :: post → ∃ t count t' tx,
    executeTransactions E validator block.index s 0 pre = ok (t, count) ∧
      executeTransaction E validator block.index t txStr = ok (t', tx) ∧
        t.baseFee = s.baseFee ∧ Paid tx t t'
  settled : ∃ mid due,
    executeTransactions E validator block.index s 0 block.transactions = ok (mid, 1) ∧
      releaseDue E block.index mid = ok ((), due) ∧ settleFees E validator due = ok ((), s') ∧
      mid.feePot.toNat = feePaying E block.transactions * s.baseFee.toNat ∧
      due.feePot = mid.feePot ∧ (feePayingTxs due).toNat = feePaying E block.transactions ∧
      ∀ x, (s'.balanceOf x).toNat =
        (due.balanceOf x).toNat + if x = validator then mid.feePot.toNat else 0

/-- Fees are exact over every accepted block while the issued HKM fits in a word. -/
theorem fees_exact (hE : E.saturation = .clamp) {supply : UInt64} {blocks : List Block}
    (h : Accepted E supply s blocks) {block : Block} {place : Position}
    (hb : validateBlockAt E block place s = ok s')
    (hlt : supply.toNat + emission (blocks ++ [block]) < 2 ^ 64) :
    ∃ validator, block.validator = some validator ∧ FeesExact E validator block s s' := by
  have hs := (h.reachable hE).sound hE
  have hpot := h.feePot hE
  rw [emission_append, ← Nat.add_assoc] at hlt
  have hi := h.issued hE (by omega)
  obtain ⟨validator, hvalidator, hm, he⟩ := validateBlockAt_ok hb
  have hv := hs.addressed.staker validator hm
  obtain ⟨mid, htxs, hend, -⟩ := executeBlock_eq_ok.mp he
  have hi₀ : Issued (supply.toNat + emission blocks + 0 * (blockReward block.index).toNat) s := by
    rw [Nat.zero_mul, Nat.add_zero]
    exact hi
  obtain ⟨hfee, hcollected⟩ := executeTransactions_collected hv hlt hs hi₀ htxs le_rfl
  rw [hpot, UInt64.toNat_zero, Nat.zero_add] at hcollected
  have hsmid := ((h.reachable hE).executeTransactions hv htxs).sound hE
  have hcmid := (executeTransactions_issued hv hlt hs hi₀ htxs le_rfl).1.conserved
  have hafter := (hsmid.endBlock_ok (Or.inl hE) hv hend).2
  rw [endBlock_eq] at hend
  obtain ⟨_, due, hrelease, hsettle⟩ := Exec.bind_eq_ok.mp hend
  obtain ⟨due', hclose⟩ := hsmid.releaseDue (Or.inl hE) block.index
  have hret := hclose.returns
  rw [hrelease, ok.injEq, Prod.mk.injEq] at hret
  obtain ⟨-, rfl⟩ := hret
  have hmarket : due.market = mid.market := (releaseDue_leaves mid).1 _ _ hrelease
  have hbase : due.baseFee = s.baseFee := (congrArg Market.baseFee hmarket).trans hfee
  have hduepot : due.feePot = mid.feePot := congrArg Market.feePot hmarket
  refine ⟨validator, hvalidator, hpot, hafter, ?_, mid, due, htxs, hrelease, hsettle, hcollected,
    hduepot, ?_, ?_⟩
  · intro pre txStr post hsplit
    rw [hsplit] at htxs
    obtain ⟨t, count, h₁, h₂⟩ := (executeTransactions_append _ _).mp htxs
    obtain ⟨t', tx, h₃, -⟩ := executeTransactions_cons_eq_ok.mp h₂
    obtain ⟨-, hver, happly, -⟩ := executeTransaction_eq_ok.mp h₃
    have hcount := executeTransactions_count h₂
    have hprefix := (executeTransactions_issued hv hlt hs hi₀ h₁ hcount).1
    exact ⟨t, count, t', tx, h₁, h₃, (executeTransactions_collected hv hlt hs hi₀ h₁ hcount).1,
      applyVerified_paid hprefix.conserved hver happly⟩
  · have hlo : 1000 ≤ s.baseFee.toNat := hs.baseFee.1
    have hpos : 0 < due.baseFee := by
      rw [hbase, UInt64.lt_iff_toNat_lt, UInt64.toNat_zero]
      omega
    rw [feePayingTxs, if_pos hpos, UInt64.toNat_div, hduepot, hcollected, hbase,
      Nat.mul_div_cancel _ (by omega)]
  · intro x
    rw [← hduepot]
    exact settleFees_paid (hclose.conserved hcmid) hsettle x

end ChainState

/-! ## A treasury at the limit -/

namespace Sample

open ChainState

/-- Before the first halving every block pays the initial reward. -/
theorem blockReward_initial {height : UInt64} (hpos : 0 < height.toNat)
    (hlt : height.toNat ≤ 9500000) : blockReward height = blockRewardInitial := by
  have hne : height ≠ 0 := fun h => by
    rw [h, UInt64.toNat_zero] at hpos
    omega
  have hpred : (height - 1).toNat = height.toNat - 1 := UInt64.toNat_sub_of_le _ _ (by
    rw [UInt64.le_iff_toNat_le, UInt64.toNat_one]
    exact hpos)
  have hinterval : halvingInterval.toNat = 9500000 := rfl
  have hzero : (height - 1) / halvingInterval = 0 := Word.toNat_ext (by
    rw [UInt64.toNat_div, hpred, hinterval, UInt64.toNat_zero]
    omega)
  rw [blockReward, if_neg hne, hzero]
  decide

/-- A reward and a payment of the treasury to itself. -/
def limitPool : List Transaction := [reward, payout 1]

/-- Rewards on the genesis with the largest supply. -/
def limitState : ℕ → ChainState
  | 0 => genesis Word.max64
  | k + 1 => (limitState k).rewarded (address 7) reward.amount

/-- One position after another. -/
def limitPlace : ℕ → Position
  | 0 => firstPlace
  | k + 1 =>
    let parent := sealBlock limitPool 7 (limitPlace k) ["reward"]
      ((limitState (k + 1)).stateRoot (env limitPool))
    ⟨UInt64.ofNat (k + 2), parent.hash, Vrf.nextRandomness (env limitPool)
      (limitPlace k).randomness (parent.vrfOutput.getD ""), morning, 1⟩

theorem limitPlace_index (k : ℕ) : (limitPlace k).index = UInt64.ofNat (k + 1) := by
  cases k <;> rfl

theorem limitPlace_difficulty (k : ℕ) : (limitPlace k).difficulty = 1 := by
  cases k <;> rfl

theorem limitPlace_parentTimestamp (k : ℕ) : (limitPlace k).parentTimestamp = morning := by
  cases k <;> rfl

/-- Only the treasury's balance and the supply counter change. -/
theorem limitState_eq (k : ℕ) : ∃ balances totalSupply,
    limitState k = { genesis Word.max64 with balances, totalSupply } ∧
      (valueAt balances (address 7)).toNat =
        min (18446743073709551615 + k * 3700000000) 18446744073709551615 := by
  induction k with
  | zero =>
    have hseven : valueAt (genesis Word.max64).balances (address 7) = 18446743073709551615 := by
      decide +kernel
    refine ⟨(genesis Word.max64).balances, (genesis Word.max64).totalSupply, rfl, ?_⟩
    rw [hseven]
    rfl
  | succ k ih =>
    obtain ⟨balances, totalSupply, heq, hseven⟩ := ih
    refine ⟨_, _, by rw [limitState, heq]; rfl, ?_⟩
    change (valueAt (balances.insert (address 7) (Word.saturatingAdd (valueAt balances (address 7))
      reward.amount)) (address 7)).toNat = _
    have hamount : reward.amount.toNat = 3700000000 := by decide
    rw [valueAt_insert_self, Word.saturatingAdd_toNat, hseven, hamount]
    omega

theorem limitState_quiet (k : ℕ) : (limitState k).Quiet := by
  obtain ⟨balances, totalSupply, heq, -⟩ := limitState_eq k
  rw [heq]
  exact ⟨rfl, rfl, rfl, rfl⟩

/-- The treasury stays the only validator. -/
theorem limitState_stakers (k : ℕ) : (limitState k).stakers = (genesis Word.max64).stakers := by
  obtain ⟨balances, totalSupply, heq, -⟩ := limitState_eq k
  rw [heq]

/-- A block that the treasury seals at one of the positions is accepted when it executes. -/
theorem limitBlock_accepted {k : ℕ} {ids : List String} {root : String} {s' : ChainState}
    (hexec : executeBlock (node limitPool) (address 7)
      (sealBlock limitPool 7 (limitPlace k) ids root) (limitState k) = ok s') :
    validateBlockAt (node limitPool) (sealBlock limitPool 7 (limitPlace k) ids root) (limitPlace k)
      (limitState k) = ok s' := by
  have hset : (limitState k).validatorSet =
      [⟨address 7, genesisValidatorStake, some (publicKey 7)⟩] := by
    rw [validatorSet, limitState_stakers]
    exact genesis_validatorSet (by decide)
  refine validateBlockAt_sealBlock (.inl (limitPlace_difficulty k)) ?_ (by decide) hset ?_ hexec
  · rw [limitPlace_parentTimestamp]
    decide
  · rw [limitState_stakers, genesis_stakers (by decide), lookup_insert_self]

theorem limitState_accepted {k : ℕ} (hk : k < 9500000) :
    ∃ blocks, Accepted (node limitPool) Word.max64 (limitState k) blocks := by
  induction k with
  | zero =>
    have hgenesis : GenesisState (env limitPool) Word.max64 (genesis Word.max64) :=
      .built defaultChainId (address 7) _ _ [] address_valid
    exact ⟨[], .genesis hgenesis⟩
  | succ k ih =>
    obtain ⟨blocks, hblocks⟩ := ih (by omega)
    refine ⟨_, hblocks.block (@limitBlock_accepted k ["reward"]
      ((limitState (k + 1)).stateRoot (env limitPool)) _ ?_)⟩
    have hindex : (limitPlace k).index.toNat = k + 1 := by
      rw [limitPlace_index, Word.toNat_ofNat_of_lt (by omega)]
    have hreward : blockReward (limitPlace k).index = blockRewardInitial :=
      blockReward_initial (by omega) (by omega)
    exact executeBlock_reward rfl (limitState_quiet k) rfl rfl rfl rfl rfl hreward.symm rfl

end Sample

namespace ChainState

/-- Where nothing is unbonding or vesting, nothing is due. -/
theorem releaseDue_nothing {E : Node} {s : ChainState} {height : UInt64} (hu : s.unbonding = ∅)
    (hv : s.vesting = ∅) : releaseDue E height s = ok ((), s) := by
  have hunbonding : s.unbonding.keys = [] := by rw [hu]; rfl
  have hvesting : s.vesting.keys = [] := by rw [hv]; rfl
  simp only [releaseDue, Exec.bind_eq_ok, Exec.read_eq_ok, ok.injEq]
  exact ⟨_, s, ⟨rfl, rfl⟩, (), s, by rw [hunbonding]; rfl, _, s, ⟨rfl, rfl⟩,
    by rw [hvesting]; rfl⟩

/-- The fees of the crowded block. -/
theorem fees_exact_sample : ∃ s', Accepted (Sample.node Sample.crowd) 1000000000000000 s'
      [Sample.firstBlock Sample.crowd 7 (Sample.genesis 1000000000000000)
        (Sample.crowd.map Transaction.id)] ∧
      ∃ validator, FeesExact (Sample.node Sample.crowd) validator
        (Sample.firstBlock Sample.crowd 7 (Sample.genesis 1000000000000000)
          (Sample.crowd.map Transaction.id)) (Sample.genesis 1000000000000000) s' := by
  obtain ⟨s', hb⟩ := Sample.exists_crowded
  have hacc : Accepted (Sample.node Sample.crowd) 1000000000000000
      (Sample.genesis 1000000000000000) [] :=
    .genesis (.built defaultChainId (Sample.address 7) _ _ [] Sample.address_valid)
  have hlt : (1000000000000000 : UInt64).toNat + emission ([] ++ [Sample.firstBlock Sample.crowd 7
      (Sample.genesis 1000000000000000) (Sample.crowd.map Transaction.id)]) < 2 ^ 64 := by
    rw [emission_append]
    change 1000000000000000 + (0 + 3700000000) < 2 ^ 64
    decide
  obtain ⟨validator, -, hfees⟩ := fees_exact rfl hacc hb hlt
  exact ⟨s', hacc.block hb, validator, hfees⟩

end ChainState

namespace Sample

open ChainState

/-- The treasury can pay itself, after which its reward fills its balance again. -/
theorem limit_payment {index : UInt64} {s s₁ : ChainState} (hquiet : s.Quiet)
    (hbalance : (s.balanceOf (address 7)).toNat = 18446744073709551615)
    (h : applyVerified (node limitPool) (payout 1) index s = ok ((), s₁)) :
    s₁.unbonding = ∅ ∧ s₁.vesting = ∅ ∧ s₁.feePot.toNat = 1000 ∧
      ((s₁.rewarded (address 7) reward.amount).balanceOf (address 7)).toNat =
        18446744073709551615 := by
  simp only [applyVerified, Exec.bind_eq_ok, Exec.read_eq_ok] at h
  obtain ⟨_, _, ⟨-, rfl⟩, _, _, ⟨-, rfl⟩, h⟩ := h
  change guarded (transferChecks (payout 1)) id 1 (transferEffects (node limitPool) (payout 1)) _ =
    _ at h
  obtain ⟨sender, hc, -, he⟩ := guarded_eq_ok.mp h
  obtain ⟨hsender, -⟩ := transferChecks_eq_ok.mp hc
  obtain rfl : address 7 = sender := Option.some.inj hsender
  obtain ⟨rest, got, pot, hrest, hgot, hpot, rfl⟩ := transferEffects_ok he
  have hfee : s.baseFee.toNat = 1000 := congrArg UInt64.toNat hquiet.baseFee
  have hzero : s.feePot.toNat = 0 := congrArg UInt64.toNat hquiet.feePot
  change rest.toNat + (1 + s.baseFee.toNat) = (s.balanceOf (address 7)).toNat at hrest
  change got.toNat = (valueAt (s.balances.insert (address 7) rest) (address 7)).toNat + 1 at hgot
  rw [valueAt_insert_self] at hgot
  have hsum : pot.toNat = s.feePot.toNat + s.baseFee.toNat :=
    Word.Saturation.toNat_of_add hpot (by omega)
  refine ⟨hquiet.unbonding, hquiet.vesting, ?_, ?_⟩
  · change pot.toNat = 1000
    omega
  · have hamount : reward.amount.toNat = 3700000000 := by decide
    change (valueAt (((s.balances.insert (address 7) rest).insert (address 7) got).insert (address 7)
      (Word.saturatingAdd (valueAt ((s.balances.insert (address 7) rest).insert (address 7) got)
        (address 7)) reward.amount)) (address 7)).toNat = _
    rw [valueAt_insert_self, valueAt_insert_self, Word.saturatingAdd_toNat, hamount]
    omega

theorem limitPool_admitted : ∀ tx ∈ limitPool.reverse, Admitted limitPool (address 7) tx := by
  have hids : (limitPool.map Transaction.id).Nodup := by decide
  intro tx htx
  refine ⟨parseTx_of_mem hids (List.mem_reverse.mp htx), ?_⟩
  rcases List.mem_cons.mp htx with rfl | htx
  · exact payout_verified 1 _
  · rw [List.mem_singleton.mp htx]
    exact verifyForBlock_reward rfl rfl rfl

/-- A payment and a reward when the treasury's balance has reached the limit. -/
theorem limit_executed {k : ℕ} (hk : 271 ≤ k) (hlt : k < 9000000) : ∃ mid last,
    applyAll limitPool (limitPlace k).index (limitState k) 0 limitPool.reverse = some (mid, 1) ∧
      endBlock (node limitPool) (limitPlace k).index (address 7) mid = ok ((), last) ∧
      mid.unbonding = ∅ ∧ mid.vesting = ∅ ∧ mid.feePot.toNat = 1000 ∧
      (mid.balanceOf (address 7)).toNat = 18446744073709551615 := by
  obtain ⟨balances, totalSupply, heq, hseven⟩ := limitState_eq k
  have hbalance : ((limitState k).balanceOf (address 7)).toNat = 18446744073709551615 := by
    rw [heq]
    change (valueAt balances (address 7)).toNat = _
    omega
  have hpay : CanPay 0 1 (limitState k) := by
    refine ⟨by rw [heq]; rfl, by rw [heq]; rfl, by rw [heq]; rfl, (limitState_quiet k).baseFee, ?_⟩
    omega
  obtain ⟨s₁, hs₁, -⟩ := hpay.pay limitPool (limitPlace k).index (by decide)
  change applyVerified (node limitPool) (payout 1) _ _ = _ at hs₁
  obtain ⟨hunbonding, hvesting, hpot, hfull⟩ := limit_payment (limitState_quiet k) hbalance hs₁
  have hindex : (limitPlace k).index.toNat = k + 1 := by
    rw [limitPlace_index, Word.toNat_ofNat_of_lt (by omega)]
  have hamount : reward.amount = blockReward (limitPlace k).index :=
    (blockReward_initial (by omega) (by omega)).symm
  have happly : applyAll limitPool (limitPlace k).index (limitState k) 0 [payout 1, reward] =
      some (s₁.rewarded (address 7) reward.amount, 1) := by
    have hreward : applyVerified (node limitPool) reward (limitPlace k).index s₁ =
        ok ((), s₁.rewarded (address 7) reward.amount) := applyVerified_reward rfl rfl
    have hpayout : (payout 1).transactionType = .reward → (payout 1).amount =
        blockReward (limitPlace k).index := fun h => by cases h
    simp only [applyAll, hs₁, hreward, if_pos hpayout, if_pos fun _ => hamount]
    rfl
  obtain ⟨blocks, hblocks⟩ := limitState_accepted (k := k) (by omega)
  have hsound := ((hblocks.reachable rfl).executeTransactions address_valid
    (executeTransactions_of_applyAll limitPool_admitted happly)).sound rfl
  obtain ⟨last, hclose, -⟩ := hsound.endBlock (E := node limitPool) (Or.inl rfl) address_valid
    (limitPlace k).index
  exact ⟨_, last, happly, hclose.returns, hunbonding, hvesting, hpot, hfull⟩

end Sample

namespace ChainState

/-- With the largest supply the treasury's balance reaches the limit after 271 rewards; a block
with a payment and a reward then pays it no fee, as its balance cannot grow. -/
theorem fees_lost_at_limit : ∃ blocks block s',
    Accepted (Sample.node Sample.limitPool) Word.max64 (Sample.limitState 271) blocks ∧
      validateBlockAt (Sample.node Sample.limitPool) block (Sample.limitPlace 271)
        (Sample.limitState 271) = ok s' ∧
      ¬ ∃ validator, block.validator = some validator ∧
        FeesExact (Sample.node Sample.limitPool) validator block (Sample.limitState 271) s' := by
  generalize hk : 271 = k
  obtain ⟨blocks, hblocks⟩ := Sample.limitState_accepted (k := k) (by omega)
  obtain ⟨mid, last, happly, hend, hunbonding, hvesting, hpot, hfull⟩ :=
    Sample.limit_executed (k := k) (by omega) (by omega)
  have hexecuted : Sample.executed Sample.limitPool 7 (Sample.limitPlace k).index
      (Sample.limitState k) Sample.limitPool.reverse = some last := by
    simp only [Sample.executed, happly, hend]
  have hexec : executeBlock (Sample.node Sample.limitPool) (Sample.address 7)
      (Sample.sealBlock Sample.limitPool 7 (Sample.limitPlace k)
        (Sample.limitPool.reverse.map Transaction.id) (Sample.rootAfter Sample.limitPool 7
          (Sample.limitPlace k).index (Sample.limitState k)
          (Sample.limitPool.reverse.map Transaction.id))) (Sample.limitState k) = ok last := by
    refine Sample.executeBlock_of_executed Sample.limitPool_admitted ?_ ?_ ?_ hexecuted
    · rfl
    · rfl
    · simp only [Sample.sealBlock]
  have hb := Sample.limitBlock_accepted hexec
  refine ⟨blocks, _, last, hblocks, hb, ?_⟩
  rintro ⟨validator, hvalidator, hfees⟩
  obtain rfl : Sample.address 7 = validator := Option.some.inj hvalidator
  obtain ⟨mid', due, htxs, hrelease, -, -, -, -, hpaid⟩ := hfees.settled
  have hsame := (Sample.executeTransactions_of_applyAll Sample.limitPool_admitted happly).symm.trans
    htxs
  rw [ok.injEq, Prod.mk.injEq] at hsame
  obtain ⟨rfl, -⟩ := hsame
  rw [releaseDue_nothing hunbonding hvesting, ok.injEq, Prod.mk.injEq] at hrelease
  obtain ⟨-, rfl⟩ := hrelease
  have hcredited := hpaid (Sample.address 7)
  rw [if_pos rfl, hpot, hfull] at hcredited
  have hword := Word.toNat_lt (last.balanceOf (Sample.address 7))
  omega

end ChainState
