/-
# When a failing transaction leaves the state alone

Every branch checks before it writes, except that the balances and the ceilings are only
tested while the mutations run, after the nonce.  A transaction whose checks pass, whose
nonce is next and one of whose mutations is then refused leaves the nonce consumed; any
other failing transaction leaves nothing.  The refusals are spelled out for each branch.
-/
import Mathlib.Tactic
import Hikmalayer.Ledger.Frames
import Hikmalayer.Ledger.Pools
import Hikmalayer.Ledger.Runs
import Hikmalayer.Model.Sample

open Outcome Exec OrderedMap

namespace ChainState

variable {E : Node} {s s' : ChainState} {tx : Transaction} {height : UInt64}
  {account tokenId : String} {amount fee : UInt64}

/-! ## Refusals of the primitives -/

/-- The sum does not fit in a word. -/
def Overflows (a b : UInt64) : Prop := 2 ^ 64 ≤ a.toNat + b.toNat

/-- The state after a debit. -/
def debited (s : ChainState) (account : String) (amount : UInt64) : ChainState :=
  s.setBalance account (s.balanceOf account - amount)

/-- The state after a token debit. -/
def tokenDebited (s : ChainState) (tokenId account : String) (amount : UInt64) : ChainState :=
  s.setHolders tokenId (writeOrRemove (mapAt s.tokenBalances tokenId) account
    (s.tokenBalanceOf tokenId account - amount))

/-- A token debit is refused. -/
def TokensShort (s : ChainState) (tokenId account : String) (amount : UInt64) : Prop :=
  s.tokenBalanceOf tokenId account < amount ∨ ¬ tokenId ∈ s.tokenBalances

section

variable {k : Unit → StateAction}

/-- A checked sum is refused exactly when it overflows. -/
theorem checkedAdd_refused {a b : UInt64} {text : String} :
    (∃ e, okOr (Word.checkedAdd a b) text = err e) ↔ Overflows a b := by
  simp only [okOr_eq_err, Word.checkedAdd_eq_none, exists_and_left, exists_eq', and_true]
  rfl

theorem checkedAdd_of_not_overflows {a b : UInt64} (h : ¬ Overflows a b) :
    Word.checkedAdd a b = some (a + b) := by
  rw [Overflows, not_le] at h
  exact Word.checkedAdd_eq_some.mpr (Word.toNat_add_of_lt h)

/-- Reading a checked sum. -/
theorem readSum_bind_fails {f g : ChainState → UInt64} {text : String}
    {k : UInt64 → StateAction} :
    ((Exec.read fun s => okOr (Word.checkedAdd (f s) (g s)) text) >>= k).Fails s ↔
      Overflows (f s) (g s) ∨ (k (f s + g s)).Fails s := by
  refine bind_fails_iff (read_fails.trans checkedAdd_refused) fun h => ?_
  rw [read_eq_ok, checkedAdd_of_not_overflows h]
  exact ⟨rfl, rfl⟩

theorem totalDebit_bind_fails {k : UInt64 → StateAction} :
    (Exec.read (fun _ => totalDebit amount fee) >>= k).Fails s ↔
      Overflows amount fee ∨ (k (amount + fee)).Fails s :=
  readSum_bind_fails

theorem debit_fails : (debit account amount).Fails s ↔ s.balanceOf account < amount := by
  constructor
  · rintro ⟨⟨e, s'⟩, h⟩
    exact UInt64.lt_iff_toNat_lt.mpr (debit_err h).1
  · intro h
    refine fails_of_not (fun u s' hok => ?_) debit_ne_panicked
    obtain ⟨rest, hr, -⟩ := debit_eq_ok.mp hok
    rw [UInt64.lt_iff_toNat_lt, balanceOf] at h
    omega

theorem debit_bind_fails :
    (debit account amount >>= k).Fails s ↔
      s.balanceOf account < amount ∨ (k ()).Fails (s.debited account amount) := by
  refine bind_fails_iff debit_fails fun h => ?_
  exact debit_of_le (UInt64.le_iff_toNat_le.mp (UInt64.not_lt.mp h))

theorem tryCredit_fails :
    (tryCredit account amount).Fails s ↔ Overflows (s.balanceOf account) amount := by
  constructor
  · rintro ⟨⟨e, s'⟩, h⟩
    exact (tryCredit_err h).1
  · intro h
    refine fails_of_not (fun u s' hok => ?_) tryCredit_ne_panicked
    obtain ⟨balance, hb, -⟩ := tryCredit_eq_ok.mp hok
    have hlt := Word.toNat_lt balance
    rw [Overflows, balanceOf] at h
    omega

theorem tryCredit_bind_fails :
    (tryCredit account amount >>= k).Fails s ↔ Overflows (s.balanceOf account) amount ∨
      (k ()).Fails (s.setBalance account (s.balanceOf account + amount)) := by
  refine bind_fails_iff tryCredit_fails fun h => ?_
  rw [Overflows, not_le] at h
  exact tryCredit_eq_ok.mpr ⟨_, Word.toNat_add_of_lt h, rfl⟩

theorem collectFee_bind_fails (hE : E.saturation = .clamp) :
    (collectFee E fee >>= k).Fails s ↔
      (k ()).Fails (s.setFeePot (Word.saturatingAdd s.feePot fee)) :=
  bind_fails_of_ok (collectFee_eq_ok.mpr ⟨_, by rw [hE, Word.Saturation.add_clamp], rfl⟩)

theorem collectFee_fails : ¬ (collectFee E fee).Fails s := by
  rintro ⟨r, h⟩
  exact collectFee_ne_err h

theorem credit_bind_fails (hE : E.saturation = .clamp) :
    (credit E account amount >>= k).Fails s ↔
      (k ()).Fails
        (s.setBalance account (Word.saturatingAdd (s.balanceOf account) amount)) :=
  bind_fails_of_ok (credit_eq_ok.mpr ⟨_, by rw [hE]; rfl, rfl⟩)

theorem tryCreditToken_fails :
    (tryCreditToken tokenId account amount).Fails s ↔
      Overflows (s.tokenBalanceOf tokenId account) amount := by
  constructor
  · rintro ⟨⟨e, s'⟩, h⟩
    exact (tryCreditToken_err h).1
  · intro h
    refine fails_of_not (fun u s' hok => ?_) tryCreditToken_ne_panicked
    obtain ⟨balance, hb, -⟩ := tryCreditToken_eq_ok.mp hok
    have hlt := Word.toNat_lt balance
    rw [Overflows, tokenBalanceOf] at h
    omega

theorem tryCreditToken_bind_fails :
    (tryCreditToken tokenId account amount >>= k).Fails s ↔
      Overflows (s.tokenBalanceOf tokenId account) amount ∨
      (k ()).Fails (s.setHolders tokenId ((mapAt s.tokenBalances tokenId).insert account
        (s.tokenBalanceOf tokenId account + amount))) := by
  refine bind_fails_iff tryCreditToken_fails fun h => ?_
  rw [Overflows, not_le] at h
  exact tryCreditToken_eq_ok.mpr ⟨_, Word.toNat_add_of_lt h, rfl⟩

theorem creditToken_bind_fails (hE : E.saturation = .clamp) :
    (creditToken E tokenId account amount >>= k).Fails s ↔
      (k ()).Fails (s.setHolders tokenId ((mapAt s.tokenBalances tokenId).insert account
        (Word.saturatingAdd (s.tokenBalanceOf tokenId account) amount))) :=
  bind_fails_of_ok (creditToken_eq_ok.mpr ⟨_, by rw [hE]; rfl, rfl⟩)

theorem debitToken_fails :
    (debitToken tokenId account amount).Fails s ↔ s.TokensShort tokenId account amount := by
  constructor
  · rintro ⟨⟨e, s'⟩, h⟩
    exact (debitToken_err h).1.imp UInt64.lt_iff_toNat_lt.mpr id
  · intro h
    refine fails_of_not (fun u s' hok => ?_) fun hpanic => ?_
    · obtain ⟨hmem, -, rest, hr, -⟩ := debitToken_eq_ok.mp hok
      rcases h with h | h
      · rw [UInt64.lt_iff_toNat_lt, tokenBalanceOf] at h
        omega
      · exact h hmem
    · obtain ⟨hmem, -, rfl⟩ := debitToken_panicked hpanic
      rcases h with h | h
      · exact absurd (UInt64.lt_iff_toNat_lt.mp h) (Nat.not_lt_zero _)
      · exact h hmem

/-- A positive token debit never aborts. -/
theorem debitToken_bind_fails (h0 : amount ≠ 0) :
    (debitToken tokenId account amount >>= k).Fails s ↔ s.TokensShort tokenId account amount ∨
      (k ()).Fails (s.tokenDebited tokenId account amount) := by
  refine bind_fails_iff debitToken_fails fun h => ?_
  rw [TokensShort, not_or, not_not, UInt64.not_lt, UInt64.le_iff_toNat_le] at h
  have hpos : 0 < amount.toNat := Nat.pos_of_ne_zero fun h => h0 (Word.toNat_ext h)
  refine debitToken_eq_ok.mpr ⟨h.2, ?_, _, Word.checkedSub_eq_some.mp (Word.checkedSub_of_le h.1),
    rfl⟩
  by_contra hm
  have hzero : s.tokenBalanceOf tokenId account = 0 := by
    rw [Std.ExtTreeMap.mem_iff_isSome_getElem?] at hm
    rw [tokenBalanceOf, valueAt, Option.not_isSome_iff_eq_none.mp hm, Option.getD_none]
  rw [hzero, UInt64.toNat_zero] at h
  omega

end

/-! ## Refused mutations -/

/-- The sender cannot pay the amount and the fee, or the account cannot hold the amount. -/
def PaymentRefused (s : ChainState) (sender account : String) (amount : UInt64) : Prop :=
  Overflows amount s.baseFee ∨ s.balanceOf sender < amount + s.baseFee ∨
    Overflows ((s.debited sender (amount + s.baseFee)).balanceOf account) amount

/-- The sender is short of tokens, or the account cannot hold them. -/
def TokenMoveRefused (s : ChainState) (tokenId sender account : String) (amount : UInt64) : Prop :=
  s.TokensShort tokenId sender amount ∨
    Overflows ((s.tokenDebited tokenId sender amount).tokenBalanceOf tokenId account) amount

theorem transferEffects_fails (sender : String) :
    (transferEffects E tx sender).Fails s ↔ s.PaymentRefused sender tx.recipient tx.amount := by
  unfold transferEffects PaymentRefused
  rw [read_ok_bind_fails, totalDebit_bind_fails, debit_bind_fails,
    bind_infallible_fails fun _ _ => collectFee_fails, tryCredit_fails]

/-- The stake cannot be paid, would overflow, or lacks the post-quantum key of a hybrid
validator. -/
def StakeRefused (s : ChainState) (tx : Transaction) (sender : String) : Prop :=
  s.PaymentRefused sender stakingPoolAccount tx.amount ∨
    Overflows (s.stakers[sender]?.getD .empty).stake tx.amount ∨
    (Hybrid.schemeOf sender = some .hybrid ∧ tx.pqPublicKey = none)

theorem updateStaker_infallible (f : StakeInfo → StakeInfo) : Infallible (updateStaker account f) :=
  Infallible.modify _

theorem stakeEffects_fails (hE : E.saturation = .clamp) (r : StakeRequest) :
    (stakeEffects E tx r).Fails s ↔ s.StakeRefused tx r.sender := by
  unfold stakeEffects StakeRefused PaymentRefused
  rw [read_ok_bind_fails, totalDebit_bind_fails, debit_bind_fails, tryCredit_bind_fails,
    collectFee_bind_fails hE, updateStaker, modify_bind_fails, readSum_bind_fails,
    updateStaker, modify_bind_fails, bind_infallible_fails fun _ => updateStaker_infallible _,
    read_fails]
  -- The record the sum is read from is the one just written back.
  simp only [setStaker_stakers, lookup_insert_self, Option.getD_some, id, or_assoc]
  refine or_congr Iff.rfl (or_congr Iff.rfl (or_congr Iff.rfl (or_congr Iff.rfl ?_)))
  cases Hybrid.schemeOf r.sender with
  | none => simp
  | some scheme => cases scheme <;> simp

theorem setStake_infallible (stake : UInt64) : Infallible (setStake account stake) := by
  rintro s ⟨e, h⟩
  exact setStake_ne_err h

theorem withdrawEffects_fails (r : WithdrawRequest) :
    (withdrawEffects E tx height r).Fails s ↔ s.balanceOf r.sender < s.baseFee := by
  unfold withdrawEffects
  rw [read_ok_bind_fails, bind_infallible_fails, debit_fails]
  intro _
  refine Infallible.bind (fun _ => collectFee_fails) fun _ => ?_
  refine (setStake_infallible _).bind fun _ => ?_
  exact (Infallible.read fun _ _ => plain_ne_err).bind fun _ => Infallible.modify _

theorem vestEffects_fails (r : VestRequest) :
    (vestEffects E tx height r).Fails s ↔
      s.PaymentRefused r.sender vestingPoolAccount tx.amount := by
  unfold vestEffects PaymentRefused
  rw [read_ok_bind_fails, totalDebit_bind_fails, debit_bind_fails, bind_infallible_fails,
    tryCredit_fails]
  intro _
  refine Infallible.bind (fun _ => collectFee_fails) fun _ => ?_
  refine (Infallible.read fun _ _ => plain_ne_err).bind fun _ => ?_
  exact (Infallible.read fun _ _ => plain_ne_err).bind fun _ => Infallible.modify _

/-! ## Refused token movements -/

theorem tokenCreateEffects_fails (hE : E.saturation = .clamp) (r : TokenRequest) :
    (tokenCreateEffects E tx height r).Fails s ↔ s.balanceOf r.sender < s.baseFee ∨
      Overflows (s.tokenBalanceOf r.tokenId r.sender) tx.amount := by
  unfold tokenCreateEffects
  rw [read_ok_bind_fails, debit_bind_fails, collectFee_bind_fails hE, modify_bind_fails,
    tryCreditToken_fails]
  rfl

/-- A positive amount of tokens moves to another account. -/
theorem tokenMove_bind_fails {recipient : String} {k : Unit → StateAction} (h0 : amount ≠ 0) :
    (debitToken tokenId account amount >>= fun _ =>
        tryCreditToken tokenId recipient amount >>= k).Fails s ↔
      s.TokenMoveRefused tokenId account recipient amount ∨
        (k ()).Fails ((s.tokenDebited tokenId account amount).setHolders tokenId
          ((mapAt (s.tokenDebited tokenId account amount).tokenBalances tokenId).insert recipient
            ((s.tokenDebited tokenId account amount).tokenBalanceOf tokenId recipient +
              amount))) := by
  rw [debitToken_bind_fails h0, tryCreditToken_bind_fails, TokenMoveRefused, or_assoc]

theorem not_overflows_zero (a : UInt64) : ¬ Overflows a 0 := by
  have h := Word.toNat_lt a
  rw [Overflows, UInt64.toNat_zero]
  omega

theorem tokenTransferEffects_fails (hE : E.saturation = .clamp) (r : TokenRequest) :
    (tokenTransferEffects E tx r).Fails s ↔ s.balanceOf r.sender < s.baseFee ∨
      s.TokenMoveRefused r.tokenId r.sender tx.recipient tx.amount := by
  unfold tokenTransferEffects TokenMoveRefused
  rw [read_ok_bind_fails, debit_bind_fails, collectFee_bind_fails hE]
  refine or_congr Iff.rfl ?_
  by_cases h0 : tx.amount = 0
  · -- Nothing cannot be too much to hold, so only the debit can be refused.
    rw [h0, bind_fails, debitToken_fails]
    refine or_congr Iff.rfl (iff_of_false ?_ (not_overflows_zero _))
    rintro ⟨_, t, -, h⟩
    exact not_overflows_zero _ (tryCreditToken_fails.mp h)
  · rw [debitToken_bind_fails h0, tryCreditToken_fails]
    rfl

theorem tokenBurnEffects_fails (hE : E.saturation = .clamp) (r : TokenRequest) :
    (tokenBurnEffects E tx r).Fails s ↔ s.balanceOf r.sender < s.baseFee ∨
      s.TokensShort r.tokenId r.sender tx.amount := by
  unfold tokenBurnEffects
  rw [read_ok_bind_fails, debit_bind_fails, collectFee_bind_fails hE, bind_infallible_fails,
    debitToken_fails]
  · rfl
  · refine fun _ => Infallible.update fun s e h => ?_
    split at h
    · simp only [Outcome.bind_eq_err, plain_ne_err, pure_eq, reduceCtorEq, and_false,
        exists_false, or_self] at h
    · cases h

/-! ## Refused trades -/

/-- The shares an addition adds to the pool, as a word. -/
def addedShares (quote : AddQuote) : UInt64 :=
  if quote.first then quote.minted + minimumLiquidity else quote.minted

/-- A counter of the pool, or the provider's position, cannot take the addition. -/
def PoolFull (s : ChainState) (r : AddRequest) : Prop :=
  (r.quote.first = true ∧ Overflows r.quote.minted minimumLiquidity) ∨
    Overflows (s.poolOrNew r.tokenId).reserveHkm r.quote.useHkm ∨
    Overflows (s.poolOrNew r.tokenId).reserveToken r.quote.useToken ∨
    Overflows (s.poolOrNew r.tokenId).totalShares (addedShares r.quote) ∨
    Overflows (s.lpSharesOf r.tokenId r.sender) r.quote.minted

/-- An addition the checks let through uses some of the token. -/
theorem addLiquidityChecks_useToken {r : AddRequest} (h : addLiquidityChecks tx s = ok r) :
    r.quote.useToken ≠ 0 := by
  obtain ⟨action, -, -, -, -, hm, hq⟩ := addLiquidityChecks_ok h
  unfold addQuote at hq
  split at hq
  · obtain ⟨root, -, -, -, hroot, hsq⟩ := firstQuote_root hq
    intro h0
    rw [h0, UInt64.toNat_zero, Nat.mul_zero] at hsq
    have hpos : 0 < root ^ 2 := Nat.pow_pos (by omega)
    omega
  · simp only [laterQuote, Outcome.bind_eq_ok, ensure_eq_ok, pure_eq, ok.injEq,
      Prod.exists] at hq
    obtain ⟨useHkm, useToken, -, _, hne, _, -, _, -, hr⟩ := hq
    rw [← hr]
    exact fun h0 => hne (Or.inr h0)

/-- A refused sum ends a computation; an accepted one continues it. -/
theorem checkedAdd_bind_refused {α : Type} {a b : UInt64} {text : String}
    {k : UInt64 → Outcome String α} :
    (∃ e, (okOr (Word.checkedAdd a b) text >>= k) = err e) ↔
      Overflows a b ∨ ∃ e, k (a + b) = err e := by
  by_cases h : Overflows a b
  · have hrefused : ∃ e, okOr (Word.checkedAdd a b) text = err e := checkedAdd_refused.mpr h
    obtain ⟨e, he⟩ := hrefused
    rw [he, err_bind]
    exact ⟨fun _ => Or.inl h, fun _ => ⟨e, rfl⟩⟩
  · rw [checkedAdd_of_not_overflows h, okOr_some, ok_bind, or_iff_right h]

theorem mintedTotal_bind_refused {α : Type} {quote : AddQuote} {k : UInt64 → Outcome String α} :
    (∃ e, (mintedTotal quote >>= k) = err e) ↔
      (quote.first = true ∧ Overflows quote.minted minimumLiquidity) ∨
        ∃ e, k (addedShares quote) = err e := by
  unfold mintedTotal addedShares
  cases quote.first
  · simp only [Bool.false_eq_true, if_false, ok_bind, false_and, false_or]
  · simp only [if_true, checkedAdd_bind_refused, true_and]

theorem mintedTotal_ne_panicked {quote : AddQuote} : mintedTotal quote ≠ panicked := by
  unfold mintedTotal
  split
  · exact okOr_ne_panicked
  · intro h
    cases h

theorem addLiquidityEffects_fails (hE : E.saturation = .clamp) {r : AddRequest}
    (h0 : r.quote.useToken ≠ 0) :
    (addLiquidityEffects E r).Fails s ↔
      s.PaymentRefused r.sender ammPoolAccount r.quote.useHkm ∨
      s.TokenMoveRefused r.tokenId r.sender ammPoolAccount r.quote.useToken ∨ s.PoolFull r := by
  unfold addLiquidityEffects PaymentRefused
  rw [read_ok_bind_fails, totalDebit_bind_fails, debit_bind_fails, collectFee_bind_fails hE,
    tryCredit_bind_fails, tokenMove_bind_fails h0, modify_bind_fails]
  rw [bind_fails_of_returns (c := Overflows (s.lpSharesOf r.tokenId r.sender) r.quote.minted),
    update_fails, mintedTotal_bind_refused, checkedAdd_bind_refused, checkedAdd_bind_refused,
    checkedAdd_bind_refused]
  · simp only [poolOrNew, setPool_pools, lookup_insert_self, Option.getD_some, pure_eq,
      reduceCtorEq, exists_false, or_false, or_assoc]
    rfl
  · rw [Ne, update_eq_panicked]
    simp only [Outcome.bind_eq_panicked, mintedTotal_ne_panicked, okOr_ne_panicked, pure_eq,
      reduceCtorEq, and_false, exists_false, or_self, not_false_eq_true]
  · intro u t h
    simp only [update_eq_ok, Outcome.bind_eq_ok, pure_eq, ok.injEq] at h
    obtain ⟨_, -, _, -, _, -, _, -, rfl⟩ := h
    rw [update_fails, checkedAdd_bind_refused, or_iff_left]
    · rfl
    · rintro ⟨e, he⟩
      cases he

theorem creditToken_infallible : Infallible (creditToken E tokenId account amount) := by
  rintro s ⟨r, h⟩
  exact creditToken_ne_err h

/-- A removal the checks let through burns shares the sender holds. -/
theorem removeLiquidityChecks_held {r : RemoveRequest} (h : removeLiquidityChecks tx s = ok r) :
    r.shares ≤ s.lpSharesOf r.tokenId r.sender ∧ r.shares ≠ 0 := by
  obtain ⟨_, pool, -, -, -, -, -, hle, -, hhkm, -, hpos, -⟩ := removeLiquidityChecks_ok h
  refine ⟨UInt64.le_iff_toNat_le.mpr hle, fun h0 => ?_⟩
  rw [hhkm, h0, UInt64.toNat_zero, Nat.zero_mul, Nat.zero_div] at hpos
  exact absurd hpos (Nat.lt_irrefl 0)

/-- Shares that are held are burnt. -/
theorem burnShares_of_held {shares : UInt64} (hle : shares ≤ s.lpSharesOf tokenId account)
    (h0 : shares ≠ 0) : burnShares tokenId account shares s = ok ((), s.setProviders tokenId
      (writeOrRemove (mapAt s.lpShares tokenId) account
        (s.lpSharesOf tokenId account - shares))) := by
  have hpos : 0 < (s.lpSharesOf tokenId account).toNat :=
    (Nat.pos_of_ne_zero fun h => h0 (Word.toNat_ext h)).trans_le (UInt64.le_iff_toNat_le.mp hle)
  -- A positive holding has an entry in both maps.
  have hpool : tokenId ∈ s.lpShares :=
    Std.ExtTreeMap.mem_iff_isSome_getElem?.mpr (by rw [lookup_of_mapAt_pos hpos]; rfl)
  have hholder : account ∈ mapAt s.lpShares tokenId :=
    Std.ExtTreeMap.mem_iff_isSome_getElem?.mpr (by rw [lookup_of_valueAt_pos hpos]; rfl)
  refine burnShares_eq_ok.mpr ⟨hpool, hholder, _, ?_, rfl⟩
  exact Word.checkedSub_eq_some.mp (Word.checkedSub_of_le (UInt64.le_iff_toNat_le.mp hle))

theorem burnShares_bind_fails {shares : UInt64} {k : Unit → StateAction}
    (hle : shares ≤ s.lpSharesOf tokenId account) (h0 : shares ≠ 0) :
    (burnShares tokenId account shares >>= k).Fails s ↔
      (k ()).Fails (s.setProviders tokenId (writeOrRemove (mapAt s.lpShares tokenId) account
        (s.lpSharesOf tokenId account - shares))) :=
  bind_fails_of_ok (burnShares_of_held hle h0)

/-- The pool cannot pay a removal. -/
def RemovalRefused (s : ChainState) (r : RemoveRequest) : Prop :=
  s.balanceOf r.sender < s.baseFee ∨
    (s.debited r.sender s.baseFee).balanceOf ammPoolAccount < r.amountHkm ∨
    s.TokensShort r.tokenId ammPoolAccount r.amountToken

theorem removeLiquidityEffects_fails (hE : E.saturation = .clamp) {r : RemoveRequest}
    (hle : r.shares ≤ s.lpSharesOf r.tokenId r.sender) (h0 : r.shares ≠ 0) :
    (removeLiquidityEffects E r).Fails s ↔ s.RemovalRefused r := by
  unfold removeLiquidityEffects RemovalRefused
  rw [read_ok_bind_fails, debit_bind_fails, collectFee_bind_fails hE,
    burnShares_bind_fails (by exact hle) h0, debit_bind_fails, credit_bind_fails hE,
    bind_infallible_fails, debitToken_fails]
  · rfl
  · intro _
    refine creditToken_infallible.bind fun _ => Infallible.update fun t e h => ?_
    simp only [Outcome.bind_eq_err, plain_ne_err, pure_eq, reduceCtorEq, and_false,
      exists_false, or_self] at h

/-- Nothing in, nothing out. -/
theorem swapOutput_zero {reserveIn reserveOut out : UInt64}
    (h : swapOutput reserveIn reserveOut 0 = ok out) : out = 0 := by
  simp only [swapOutput, Outcome.bind_eq_ok, plain_eq_ok, okOr_eq_ok, Word.wideMul_eq_some,
    Word.wideDiv_eq_some, UInt64.toNat_zero, Nat.zero_mul, pure_eq, ok.injEq] at h
  obtain ⟨_, -, _, ⟨rfl, -⟩, _, ⟨rfl, -⟩, _, -, _, -, _, ⟨rfl, -⟩, rfl⟩ := h
  rw [Nat.zero_mul, Nat.zero_div]
  rfl

/-- A swap the checks let through moves something on both sides of an existing pool. -/
theorem swapChecks_moves {r : SwapRequest} (h : swapChecks tx s = ok r) :
    r.amountIn ≠ 0 ∧ r.amountOut ≠ 0 ∧ ∃ pool, s.pools[r.tokenId]? = some pool := by
  simp only [swapChecks, Outcome.bind_eq_ok, okOr_eq_ok, ensure_eq_ok, pure_eq, ok.injEq,
    not_or] at h
  obtain ⟨_, -, action, -, pool, hp, _, -, amountOut, hout, _, ⟨h0, -⟩, _, -, rfl⟩ := h
  refine ⟨fun hin => h0 ?_, h0, pool, hp⟩
  change action.amountIn = 0 at hin
  rw [hin] at hout
  exact swapOutput_zero hout

/-- The trader cannot pay the swap, or the pool cannot take or pay its side. -/
def SwapRefused (s : ChainState) (r : SwapRequest) : Prop :=
  if r.hkmToToken then
    s.PaymentRefused r.sender ammPoolAccount r.amountIn ∨
      s.TokensShort r.tokenId ammPoolAccount r.amountOut ∨
      Overflows (s.poolOrNew r.tokenId).reserveHkm r.amountIn
  else
    s.balanceOf r.sender < s.baseFee ∨
      s.TokenMoveRefused r.tokenId r.sender ammPoolAccount r.amountIn ∨
      (s.debited r.sender s.baseFee).balanceOf ammPoolAccount < r.amountOut ∨
      Overflows (s.poolOrNew r.tokenId).reserveToken r.amountIn

theorem swapEffects_fails (hE : E.saturation = .clamp) {r : SwapRequest} (hin : r.amountIn ≠ 0)
    (hout : r.amountOut ≠ 0) {pool : Pool} (hp : s.pools[r.tokenId]? = some pool) :
    (swapEffects E r).Fails s ↔ s.SwapRefused r := by
  have hpool : s.poolOrNew r.tokenId = pool := by
    rw [poolOrNew, hp, Option.getD_some]
  unfold swapEffects SwapRefused PaymentRefused
  rw [hpool]
  split
  · unfold swapHkmToToken
    rw [read_ok_bind_fails, totalDebit_bind_fails, debit_bind_fails, collectFee_bind_fails hE,
      tryCredit_bind_fails, debitToken_bind_fails hout, creditToken_bind_fails hE, update_fails]
    simp only [setHolders_pools, setBalance_pools, setFeePot_pools, tokenDebited, debited, hp,
      plain_some, ok_bind, checkedAdd_refused, Outcome.bind_eq_err, plain_ne_err, pure_eq,
      reduceCtorEq, and_false, exists_false, or_false, or_assoc]
    rfl
  · unfold swapTokenToHkm
    rw [read_ok_bind_fails, debit_bind_fails, collectFee_bind_fails hE, tokenMove_bind_fails hin,
      debit_bind_fails, credit_bind_fails hE, update_fails]
    simp only [setHolders_pools, setBalance_pools, setFeePot_pools, tokenDebited, debited, hp,
      plain_some, ok_bind, checkedAdd_refused, Outcome.bind_eq_err, plain_ne_err, pure_eq,
      reduceCtorEq, and_false, exists_false, or_false]
    rfl

/-! ## Refused credentials -/

/-- A revocation of a credential that is not the issuer's, or an issue under a taken id. -/
def CredentialRefused (s : ChainState) (action : CredentialAction) (issuer : String) : Prop :=
  if action.revoke then
    ∀ record, s.credentials[action.id]? = some record → record.issuer ≠ issuer
  else action.id ∈ s.credentials

theorem certificateEffects_fails {action : CredentialAction} {issuer : String} :
    (certificateEffects tx action issuer).Fails s ↔ s.CredentialRefused action issuer := by
  unfold certificateEffects CredentialRefused
  rw [update_fails]
  split
  · simp only [Outcome.bind_eq_err, okOr_eq_err, okOr_eq_ok, ensure_eq_err, pure_eq, reduceCtorEq,
      and_false, exists_false, or_false]
    cases h : s.credentials[action.id]? with
    | none => simp
    | some record => simp
  · simp only [Outcome.bind_eq_err, ensure_eq_err, pure_eq, reduceCtorEq, and_false,
      exists_false, or_false, exists_and_left, exists_eq', and_true, not_not]

/-! ## Atomicity -/

/-- A test that passes decides nothing; one that fails leaves nothing. -/
theorem test_bind_atomic_iff {f : ChainState → Outcome String Unit} {k : Unit → StateAction} :
    AtomicAt (Exec.read f >>= k) s ↔ (f s = ok () → AtomicAt (k ()) s) :=
  read_bind_atomic_iff.trans ⟨fun h => h (), fun h _ => h⟩

/-- The read-only checks pass, the nonce is next, and a mutation is refused. -/
def Late {α : Type} (checks : ChainState → Outcome String α) (sender : α → String)
    (nonce : UInt64) (refused : ChainState → α → Prop) (s : ChainState) : Prop :=
  ∃ a, checks s = ok a ∧ s.NextNonce (sender a) nonce ∧ refused s a

/-- A branch that leaves the nonces alone after taking its own is atomic unless it is refused
late: the nonce is then gone. -/
theorem guarded_atomic_iff {α : Type} {checks : ChainState → Outcome String α}
    {sender : α → String} {nonce : UInt64} {effects : α → StateAction}
    {refused : ChainState → α → Prop} (hl : ∀ a, Leaves nonces (effects a))
    (hr : ∀ a, checks s = ok a →
      ((effects a).Fails (s.setNonce (sender a) nonce) ↔ refused s a)) :
    AtomicAt (guarded checks sender nonce effects) s ↔ ¬ Late checks sender nonce refused s := by
  unfold guarded Late
  rw [read_bind_atomic_iff]
  constructor
  · rintro h ⟨a, ha, hn, href⟩
    obtain ⟨⟨e, t⟩, ht⟩ := (hr a ha).mpr href
    have hrun : (consumeNonce (sender a) nonce >>= fun _ => effects a) s = err (e, t) := by
      rw [bind_of_ok (consumeNonce_of_next hn), ht]
    have hback : t = s := h a ha e t hrun
    have hkept : t.nonces = (s.setNonce (sender a) nonce).nonces := (hl a _).2 e t ht
    have hnew : s.nonceOf (sender a) = nonce := by
      rw [nonceOf, ← hback, hkept, setNonce_nonces, valueAt_insert, if_pos rfl]
    rw [NextNonce, hnew] at hn
    omega
  · intro h a ha e t ht
    rcases bind_eq_err.mp ht with ht | ⟨_, t', hn, ht⟩
    · exact (consumeNonce_err ht).2
    · obtain ⟨hnext, rfl⟩ := consumeNonce_eq_ok.mp hn
      exact absurd ⟨a, ha, hnext, (hr a ha).mp ⟨_, ht⟩⟩ h

/-- A transaction that passes the checks of its branch and carries the next nonce, but one of
whose mutations is refused. -/
def LateRefusal (E : Node) (tx : Transaction) (s : ChainState) : Prop :=
  match tx.transactionType with
  | .transfer => Late (transferChecks tx) id tx.nonce
      (fun s sender => s.PaymentRefused sender tx.recipient tx.amount) s
  | .stake => Late (stakeChecks E tx) StakeRequest.sender tx.nonce
      (fun s r => s.StakeRefused tx r.sender) s
  | .withdraw => Late (withdrawChecks E tx) WithdrawRequest.sender tx.nonce
      (fun s r => s.balanceOf r.sender < s.baseFee) s
  | .vest => Late (vestChecks tx) VestRequest.sender tx.nonce
      (fun s r => s.PaymentRefused r.sender vestingPoolAccount tx.amount) s
  | .tokenCreate => Late (tokenCreateChecks E tx) TokenRequest.sender tx.nonce
      (fun s r => s.balanceOf r.sender < s.baseFee ∨
        Overflows (s.tokenBalanceOf r.tokenId r.sender) tx.amount) s
  | .tokenTransfer => Late (tokenTransferChecks tx) TokenRequest.sender tx.nonce
      (fun s r => s.balanceOf r.sender < s.baseFee ∨
        s.TokenMoveRefused r.tokenId r.sender tx.recipient tx.amount) s
  | .tokenBurn => Late (tokenBurnChecks tx) TokenRequest.sender tx.nonce
      (fun s r => s.balanceOf r.sender < s.baseFee ∨
        s.TokensShort r.tokenId r.sender tx.amount) s
  | .addLiquidity => Late (addLiquidityChecks tx) AddRequest.sender tx.nonce
      (fun s r => s.PaymentRefused r.sender ammPoolAccount r.quote.useHkm ∨
        s.TokenMoveRefused r.tokenId r.sender ammPoolAccount r.quote.useToken ∨ s.PoolFull r) s
  | .removeLiquidity => Late (removeLiquidityChecks tx) RemoveRequest.sender tx.nonce
      RemovalRefused s
  | .swap => Late (swapChecks tx) SwapRequest.sender tx.nonce SwapRefused s
  | .certificate => ∃ action, tx.credential = some action ∧
      Late (certificateChecks tx) id tx.nonce (fun s issuer => s.CredentialRefused action issuer) s
  | .reward | .slash => False

theorem takeFromEntries_ne_err {entries : List UnbondingEntry} {e : String} :
    ∀ {remaining : UInt64}, takeFromEntries remaining entries ≠ err e := by
  induction entries with
  | nil =>
    intro remaining h
    cases h
  | cons entry rest ih =>
    intro remaining h
    simp only [takeFromEntries, Outcome.bind_eq_err, plain_ne_err, false_or] at h
    obtain ⟨_, -, left, -, h⟩ := h
    split at h
    · cases h
    · simp only [Outcome.bind_eq_err, ih, pure_eq, reduceCtorEq, and_false, exists_false,
        or_self] at h

theorem slashUnbonding_infallible {validator : String} {remaining : UInt64} :
    Infallible (slashUnbonding validator remaining) := by
  refine Infallible.update fun t e h => ?_
  split at h
  · cases h
  · split at h
    · cases h
    · simp only [Outcome.bind_eq_err, takeFromEntries_ne_err, pure_eq, reduceCtorEq, and_false,
        exists_false, or_self] at h

/-- A slash fails before it writes anything. -/
theorem slash_atomic : AtomicAt (applySlash E tx height) s := by
  refine read_bind_atomic_iff.mpr fun r _ => ?_
  refine AtomicAt.bind_infallible (fun e t h => (debit_err h).2) fun _ => ?_
  refine (Infallible.update fun t e h => ?_).bind fun _ =>
    (Infallible.read fun _ _ => plain_ne_err).bind fun _ => (setStake_infallible _).bind fun _ =>
      (Infallible.read fun _ _ => plain_ne_err).bind fun _ =>
        slashUnbonding_infallible.bind fun _ => Infallible.modify _
  simp only [Outcome.bind_eq_err, plain_ne_err, pure_eq, reduceCtorEq, and_false,
    exists_false, or_self] at h

/-- A reward never fails. -/
theorem reward_atomic : AtomicAt (applyReward E tx) s := by
  refine AtomicAt.of_not_fails (Infallible.bind (fun t => ?_) (fun _ => ?_) s)
  · rintro ⟨r, h⟩
    exact credit_ne_err h
  · refine Infallible.update fun t e h => ?_
    simp only [Outcome.bind_eq_err, plain_ne_err, pure_eq, reduceCtorEq, and_false,
      exists_false, or_self] at h

theorem certificate_atomic_iff :
    AtomicAt (applyCertificate tx) s ↔ ¬ ∃ action, tx.credential = some action ∧
      Late (certificateChecks tx) id tx.nonce
        (fun s issuer => s.CredentialRefused action issuer) s := by
  unfold applyCertificate
  cases tx.credential with
  | none =>
    refine iff_of_true (AtomicAt.of_not_fails (pure_fails _ _)) ?_
    rintro ⟨action, h, -⟩
    cases h
  | some action =>
    have hguarded : AtomicAt (guarded (certificateChecks tx) id tx.nonce
        (certificateEffects tx action)) s ↔ ¬ Late (certificateChecks tx) id tx.nonce
          (fun s issuer => s.CredentialRefused action issuer) s :=
      guarded_atomic_iff (certificateEffects_nonces action) fun issuer _ => certificateEffects_fails
    refine hguarded.trans (not_congr ⟨fun h => ⟨action, rfl, h⟩, ?_⟩)
    rintro ⟨_, h, hlate⟩
    cases h
    exact hlate

/-- A branch leaves nothing behind unless one of its mutations is refused. -/
theorem applyBranch_atomic_iff (hE : E.saturation = .clamp) :
    AtomicAt (applyBranch E tx height) s ↔ ¬ s.LateRefusal E tx := by
  unfold applyBranch LateRefusal
  cases tx.transactionType with
  | transfer =>
    exact guarded_atomic_iff transferEffects_nonces fun sender _ => transferEffects_fails sender
  | stake =>
    exact guarded_atomic_iff stakeEffects_nonces fun r _ => stakeEffects_fails hE r
  | withdraw =>
    exact guarded_atomic_iff withdrawEffects_nonces fun r _ => withdrawEffects_fails r
  | vest =>
    exact guarded_atomic_iff vestEffects_nonces fun r _ => vestEffects_fails r
  | reward => exact iff_of_true reward_atomic not_false
  | certificate => exact certificate_atomic_iff
  | slash => exact iff_of_true slash_atomic not_false
  | tokenCreate =>
    exact guarded_atomic_iff tokenCreateEffects_nonces fun r _ => tokenCreateEffects_fails hE r
  | tokenTransfer =>
    exact guarded_atomic_iff tokenTransferEffects_nonces
      fun r _ => tokenTransferEffects_fails hE r
  | tokenBurn =>
    exact guarded_atomic_iff tokenBurnEffects_nonces fun r _ => tokenBurnEffects_fails hE r
  | addLiquidity =>
    exact guarded_atomic_iff addLiquidityEffects_nonces
      fun r hr => addLiquidityEffects_fails hE (addLiquidityChecks_useToken hr)
  | removeLiquidity =>
    refine guarded_atomic_iff removeLiquidityEffects_nonces fun r hr => ?_
    obtain ⟨hle, h0⟩ := removeLiquidityChecks_held hr
    exact removeLiquidityEffects_fails hE hle h0
  | swap =>
    refine guarded_atomic_iff swapEffects_nonces fun r hr => ?_
    obtain ⟨hin, hout, pool, hp⟩ := swapChecks_moves hr
    exact swapEffects_fails hE hin hout hp

/-- A transaction of the chain's network and signature policy is atomic unless it is refused
late; verifying its authorization first changes nothing about that. -/
theorem apply_atomic_iff (hE : E.saturation = .clamp) (s : ChainState) (tx : Transaction)
    (height : UInt64) :
    (AtomicAt (applyVerified E tx height) s ↔
      ¬ (s.verifyChainScope tx = ok () ∧ s.verifySignaturePolicy tx = ok () ∧
        s.LateRefusal E tx)) ∧
    (AtomicAt (applyTransaction E tx height) s ↔
      ¬ (tx.verifyAuthorization E = ok () ∧ s.verifyChainScope tx = ok () ∧
        s.verifySignaturePolicy tx = ok () ∧ s.LateRefusal E tx)) := by
  have hverified : AtomicAt (applyVerified E tx height) s ↔
      ¬ (s.verifyChainScope tx = ok () ∧ s.verifySignaturePolicy tx = ok () ∧
        s.LateRefusal E tx) := by
    unfold applyVerified
    rw [test_bind_atomic_iff, test_bind_atomic_iff, applyBranch_atomic_iff hE, not_and, not_and]
  refine ⟨hverified, ?_⟩
  unfold applyTransaction
  rw [test_bind_atomic_iff, hverified]
  exact not_and.symm

/-- At the first state of the toy network. -/
theorem apply_atomic_sample :
    (AtomicAt (applyVerified (Sample.node []) Sample.tokenCreation 1)
        (Sample.genesis 1000000000000000) ↔
      ¬ ((Sample.genesis 1000000000000000).verifyChainScope Sample.tokenCreation = ok () ∧
        (Sample.genesis 1000000000000000).verifySignaturePolicy Sample.tokenCreation = ok () ∧
        (Sample.genesis 1000000000000000).LateRefusal (Sample.node []) Sample.tokenCreation)) ∧
    (AtomicAt (applyTransaction (Sample.node []) Sample.tokenCreation 1)
        (Sample.genesis 1000000000000000) ↔
      ¬ (Sample.tokenCreation.verifyAuthorization (Sample.node []) = ok () ∧
        (Sample.genesis 1000000000000000).verifyChainScope Sample.tokenCreation = ok () ∧
        (Sample.genesis 1000000000000000).verifySignaturePolicy Sample.tokenCreation = ok () ∧
        (Sample.genesis 1000000000000000).LateRefusal (Sample.node []) Sample.tokenCreation)) :=
  apply_atomic_iff rfl (Sample.genesis 1000000000000000) Sample.tokenCreation 1

/-- Holder 7 sends more than the whole supply to itself. -/
def Sample.overdraft : Transaction :=
  Sample.order 7 .transfer (Sample.address 7) 2000000000000000 1 none none
    (Transaction.transferSigningMessage (Sample.address 7) (Sample.address 7) 2000000000000000 1)

/-- A refused transfer keeps the nonce of its sender. -/
theorem overdraft_takes_nonce :
    Reachable (Sample.node []) (Sample.genesis 1000000000000000) ∧
    ¬ AtomicAt (applyVerified (Sample.node []) Sample.overdraft 1)
      (Sample.genesis 1000000000000000) ∧
    ¬ AtomicAt (applyTransaction (Sample.node []) Sample.overdraft 1)
      (Sample.genesis 1000000000000000) := by
  have hnew : ¬ (Sample.genesis 1000000000000000).nonceOf (Sample.address 7) = 1 := by
    decide +kernel
  refine ⟨Reachable.genesis (.built defaultChainId (Sample.address 7) _ _ [] Sample.address_valid),
    fun h => ?_, fun h => ?_⟩
  · obtain ⟨⟨e, t⟩, ht, hn⟩ := exists_of_refuses (p := fun r => r.2.nonceOf (Sample.address 7) = 1)
      (x := applyVerified (Sample.node []) Sample.overdraft 1 (Sample.genesis 1000000000000000))
      (by decide +kernel)
    rw [h e t ht] at hn
    exact hnew (of_decide_eq_true hn)
  · obtain ⟨⟨e, t⟩, ht, hn⟩ := exists_of_refuses (p := fun r => r.2.nonceOf (Sample.address 7) = 1)
      (x := applyTransaction (Sample.node []) Sample.overdraft 1 (Sample.genesis 1000000000000000))
      (by decide +kernel)
    rw [h e t ht] at hn
    exact hnew (of_decide_eq_true hn)

end ChainState
