/-
# The swap quote and the swap

The quote of the node follows the rule of the swap where its bare product fits 128 bits; past that
it aborts, while the swap reports an error.  Whatever the quote promises is paid, or the swap is
refused because there is nothing to pay or because the account of the reserves is full.
-/
import Mathlib.Tactic
import Hikmalayer.Ledger.Atomicity
import Hikmalayer.Ledger.Fees
import Hikmalayer.Ledger.Proportion
import Hikmalayer.Model.Quotes

open Outcome Exec OrderedMap

namespace ChainState

variable {E : Node} {s s' : ChainState} {tx : Transaction} {height : UInt64} {pool : Pool}
  {a t direction : String} {buy : Bool} {amountIn out minOut : UInt64} {u : Unit}

/-! ## The output -/

/-- The quote and the swap compute the same outputs. -/
theorem quoteOutput_eq_ok {reserveIn reserveOut : UInt64} :
    quoteOutput reserveIn reserveOut amountIn = ok out ↔
      swapOutput reserveIn reserveOut amountIn = ok out := by
  simp only [quoteOutput, swapOutput, Outcome.bind_eq_ok, plain_eq_ok, okOr_eq_ok]

/-- The output of a quote between two positive sides, where the product fits. -/
theorem quoteOutput_eq {reserveIn reserveOut : UInt64} (hin : 0 < reserveIn.toNat) :
    quoteOutput reserveIn reserveOut amountIn =
      if amountIn.toNat * 9970 * reserveOut.toNat < 2 ^ 128 then
        ok (UInt64.ofNat (ConstantProduct.output 9970 10000 reserveIn.toNat reserveOut.toNat
          amountIn.toNat))
      else panicked := by
  have hnum : Word.checkedSub ammFeeDenom swapFeeBps = some 9970 := rfl
  have h9970 : (9970 : UInt64).toNat = 9970 := rfl
  have hden : ammFeeDenom.toNat = 10000 := rfl
  have hscaled : reserveIn.toNat * 10000 + amountIn.toNat * 9970 < 2 ^ 128 := by
    have := Word.toNat_lt reserveIn
    have := Word.toNat_lt amountIn
    omega
  have hpos : reserveIn.toNat * 10000 + amountIn.toNat * 9970 ≠ 0 := by omega
  unfold quoteOutput
  rw [hnum, plain_some, ok_bind, h9970, hden,
    Word.wideMul_of_lt (lt_of_le_of_lt (Nat.le_add_left _ _) hscaled), plain_some, ok_bind]
  split
  · rename_i hlt
    rw [Word.wideMul_of_lt hlt, plain_some, ok_bind,
      Word.wideMul_of_lt (lt_of_le_of_lt (Nat.le_add_right _ _) hscaled), plain_some, ok_bind,
      Word.wideAdd_of_lt hscaled, plain_some, ok_bind, Word.wideDiv, if_neg hpos, plain_some,
      ok_bind]
    rfl
  · rename_i hge
    rw [Word.wideMul, if_neg hge]
    rfl

/-! ## The two sides -/

/-- The side of the pool a swap adds to. -/
def reserveIn (pool : Pool) (hkmToToken : Bool) : UInt64 :=
  if hkmToToken then pool.reserveHkm else pool.reserveToken

/-- The directions that the quote reads as buying tokens. -/
def buys (direction : String) : Bool := decide (direction = "hkm_to_token" ∨ direction = "buy")

/-- The product that the quote forms for a swap fits 128 bits. -/
def QuoteFits (pool : Pool) (buy : Bool) (amountIn : UInt64) : Prop :=
  amountIn.toNat * 9970 * (reserveOut pool buy).toNat < 2 ^ 128

theorem swapQuote_eq (hp : s.pools[t]? = some pool) (hx : 0 < pool.reserveHkm.toNat)
    (hy : 0 < pool.reserveToken.toNat) (ha : amountIn ≠ 0) :
    s.swapQuote t direction amountIn =
      (quoteOutput (reserveIn pool (buys direction)) (reserveOut pool (buys direction)) amountIn >>=
        fun amountOut => ok (some ⟨t, buys direction, amountIn, amountOut, pool.reserveHkm,
          pool.reserveToken⟩)) := by
  have hne : ¬ (pool.reserveHkm = 0 ∨ pool.reserveToken = 0 ∨ amountIn = 0) := by
    rintro (h | h | h)
    · rw [h] at hx
      exact absurd hx (by decide)
    · rw [h] at hy
      exact absurd hy (by decide)
    · exact ha h
  unfold swapQuote
  rw [hp]
  dsimp only
  rw [if_neg hne]
  rfl

/-! ## Swaps -/

/-- The transaction is a swap of an account. -/
structure SwapBy (tx : Transaction) (a t : String) (buy : Bool) (amountIn minOut : UInt64) :
    Prop where
  kind : tx.transactionType = .swap
  sender : tx.sender = some a
  action : ∃ action, tx.amm = some action ∧ action.tokenId = t ∧ action.hkmToToken = buy ∧
    action.amountIn = amountIn ∧ action.minOut = minOut

/-- The checks of a swap on a live pool, for what the quote says. -/
theorem swapChecks_eq (hswap : SwapBy tx a t buy amountIn minOut) (hp : s.pools[t]? = some pool)
    (hx : 0 < pool.reserveHkm.toNat) (hy : 0 < pool.reserveToken.toNat)
    (hout : swapOutput (reserveIn pool buy) (reserveOut pool buy) amountIn = ok out)
    (hmin : minOut ≤ out) :
    swapChecks tx s = if out = 0 ∨ reserveOut pool buy ≤ out then
      err "Swap produces no output or drains the pool"
      else ok ⟨a, t, buy, amountIn, out⟩ := by
  obtain ⟨action, hamm, rfl, rfl, rfl, rfl⟩ := hswap.action
  have hne : ¬ (pool.reserveHkm = 0 ∨ pool.reserveToken = 0) := by
    rintro (h | h)
    · rw [h] at hx
      exact absurd hx (by decide)
    · rw [h] at hy
      exact absurd hy (by decide)
  have hslip : ¬ out < action.minOut := UInt64.not_lt.mpr hmin
  unfold swapChecks
  unfold reserveIn reserveOut at hout
  rw [hswap.sender, hamm]
  simp only [okOr_some, ok_bind, hp, ensure_pos hne, hout]
  change (ensure (¬ (out = 0 ∨ reserveOut pool action.hkmToToken ≤ out)) _ >>= _) = _
  split
  · rename_i hnone
    rw [ensure_neg (not_not.mpr hnone)]
    rfl
  · rename_i hsome
    rw [ensure_pos hsome, ok_bind, ensure_pos hslip]
    rfl

/-- What a swap of an account pays: the reserves move by just the two amounts, the account gives
the one with the fee and gets the other, clamped at the largest word where the HKM in existence
does not fit one. -/
structure Swapped (s s' : ChainState) (a t : String) (buy : Bool) (amountIn out : UInt64) :
    Prop where
  pool : ∃ old new : Pool, s.pools[t]? = some old ∧ s'.pools[t]? = some new ∧
    (reserveIn new buy).toNat = (reserveIn old buy).toNat + amountIn.toNat ∧
    (reserveOut new buy).toNat + out.toNat = (reserveOut old buy).toNat
  bought : buy = true →
    (s'.balanceOf a).toNat + amountIn.toNat + s.baseFee.toNat = (s.balanceOf a).toNat ∧
    (s'.tokenBalanceOf t a).toNat = (s.tokenBalanceOf t a).toNat + out.toNat
  sold : buy = false →
    (s'.tokenBalanceOf t a).toNat + amountIn.toNat = (s.tokenBalanceOf t a).toNat ∧
    s.baseFee.toNat ≤ (s.balanceOf a).toNat ∧
    (s'.balanceOf a).toNat =
      min ((s.balanceOf a).toNat - s.baseFee.toNat + out.toNat) (2 ^ 64 - 1) ∧
    (Conserved s →
      (s'.balanceOf a).toNat + s.baseFee.toNat = (s.balanceOf a).toNat + out.toNat)

/-- The mutations of a swap pay it. -/
theorem Sound.swapped (hs : Sound s) (hE : E.saturation = .clamp) {r : SwapRequest}
    (ha : isValidAddress r.sender = true) {n : UInt64}
    (h : swapEffects E r (s.setNonce r.sender n) = ok (u, s')) :
    Swapped s s' r.sender r.tokenId r.hkmToToken r.amountIn r.amountOut := by
  have hne : ammPoolAccount ≠ r.sender := (ne_ammPool ha).symm
  unfold swapEffects at h
  split at h
  · rename_i hbuy
    obtain ⟨rest, pot, custody, inPool, held, reserveHkm, reserveToken, holders, pool, hrest, -, -,
      hin, rfl, hheld, hp, hx, hy, rfl⟩ := swapHkmToToken_ok h
    have hgot := hs.release_units hin ha hheld
    rw [hbuy]
    refine ⟨⟨pool, _, hp, lookup_insert_self _ _ _, hx, hy⟩, fun _ => ⟨?_, ?_⟩, fun hsold => ?_⟩
    · show (valueAt ((s.balances.insert r.sender rest).insert ammPoolAccount custody)
        r.sender).toNat + _ + _ = _
      rw [valueAt_insert_of_ne _ hne, valueAt_insert_self, Nat.add_assoc]
      exact hrest
    · show (valueAt (mapAt (s.tokenBalances.insert r.tokenId _) r.tokenId) r.sender).toNat = _
      rw [mapAt_insert, if_pos rfl, valueAt_insert_self, hgot, valueAt_writeOrRemove, if_neg hne]
      rfl
    · cases hsold
  · rename_i hsell
    obtain ⟨rest, pot, left, inPool, custody, balance, reserveHkm, reserveToken, holders, pool,
      hrest, -, hleft, rfl, -, hcustody, hbalance, hp, hx, hy, rfl⟩ := swapTokenToHkm_ok h
    rw [Bool.not_eq_true] at hsell
    rw [hE, Word.Saturation.add_clamp, Option.some.injEq, valueAt_insert_of_ne _ hne,
      valueAt_insert_self] at hbalance
    rw [valueAt_insert_of_ne _ hne.symm] at hcustody
    have hgot : (valueAt ((((s.setNonce r.sender n).balances.insert r.sender rest).insert
        ammPoolAccount custody).insert r.sender balance) r.sender).toNat =
          min (rest.toNat + r.amountOut.toNat) (2 ^ 64 - 1) := by
      rw [valueAt_insert_self, ← hbalance, Word.saturatingAdd_toNat]
    rw [hsell]
    refine ⟨⟨pool, _, hp, lookup_insert_self _ _ _, hx, hy⟩, fun hbought => ?_,
      fun _ => ⟨?_, ?_, ?_, fun hc => ?_⟩⟩
    · cases hbought
    · show (valueAt (mapAt (s.tokenBalances.insert r.tokenId _) r.tokenId) r.sender).toNat + _ = _
      rw [mapAt_insert, if_pos rfl, valueAt_insert_of_ne _ hne, valueAt_writeOrRemove, if_pos rfl]
      exact hleft
    · exact (Nat.le_add_left _ _).trans hrest.le
    · have hleft : rest.toNat = (s.balanceOf r.sender).toNat - s.baseFee.toNat :=
        Nat.eq_sub_of_add_eq hrest
      rw [← hleft]
      exact hgot
    · -- what the pool pays was in existence beside what the account holds
      have hroom := valueAt_add_le_sumOf s.balances (ne_ammPool ha)
      have hlt := hc.sumOf_lt
      change _ = (valueAt s.balances ammPoolAccount).toNat at hcustody
      change _ = (valueAt s.balances r.sender).toNat at hrest
      rw [min_eq_left (by omega)] at hgot
      change (valueAt _ r.sender).toNat + s.baseFee.toNat = (valueAt s.balances r.sender).toNat + _
      refine (congrArg (· + s.baseFee.toNat) hgot).trans ?_
      have hfee : (s.setNonce r.sender n).baseFee = s.baseFee := rfl
      rw [hfee] at hrest
      omega

/-! ## What can be refused -/

/-- The account can pay a swap and its fee. -/
def Funds (s : ChainState) (a t : String) (buy : Bool) (amountIn : UInt64) : Prop :=
  if buy then amountIn.toNat + s.baseFee.toNat ≤ (s.balanceOf a).toNat
  else s.baseFee.toNat ≤ (s.balanceOf a).toNat ∧ amountIn.toNat ≤ (s.tokenBalanceOf t a).toNat

/-- The HKM reserves of the pools, with what the swap adds, do not fit their account. -/
def ReservesFull (s : ChainState) (amountIn : UInt64) : Prop :=
  Overflows (s.balanceOf ammPoolAccount) amountIn

/-- Where the HKM in existence fits a word, whoever can pay a swap leaves room for it. -/
theorem Conserved.not_reservesFull (hc : Conserved s) (ha : isValidAddress a = true)
    (hfunds : s.Funds a t true amountIn) : ¬ s.ReservesFull amountIn := by
  have hroom := valueAt_add_le_sumOf s.balances (ne_ammPool ha)
  have hlt := hc.sumOf_lt
  have hpaid : amountIn.toNat + s.baseFee.toNat ≤ (valueAt s.balances a).toNat := hfunds
  unfold ReservesFull Overflows balanceOf
  omega

/-- The AMM account holds the tokens of a pool. -/
theorem Sound.amm_tokens (hs : Sound s) (hp : s.pools[t]? = some pool) :
    (s.tokenBalanceOf t ammPoolAccount).toNat = pool.reserveToken.toNat := by
  rw [← reserveTokenAt_of_lookup hp]
  exact hs.ammTokens t

/-- The AMM account holds the HKM of a pool, among those of the others. -/
theorem Sound.amm_hkm (hs : Sound s) (hp : s.pools[t]? = some pool) :
    pool.reserveHkm.toNat ≤ (s.balanceOf ammPoolAccount).toNat := by
  have hshare : reserveHkmAt s.pools t = pool.reserveHkm.toNat := share_of_lookup hp
  rw [← hshare]
  exact (share_le_total _ s.pools t).trans hs.amm.ge

/-- A sum that fits is a word. -/
theorem exists_word {n : ℕ} (h : n < 2 ^ 64) : ∃ c : UInt64, c.toNat = n :=
  ⟨UInt64.ofNat n, Word.toNat_ofNat_of_lt h⟩

/-- What is left of a word is a word. -/
theorem exists_rest {b c : UInt64} (h : b.toNat ≤ c.toNat) :
    ∃ rest : UInt64, rest.toNat + b.toNat = c.toNat :=
  ⟨_, Word.checkedSub_eq_some.mp (Word.checkedSub_of_le h)⟩

/-- A token debit goes through for an account that holds what is taken. -/
theorem exists_debitToken {tokenId account : String} {amount : UInt64} (h0 : amount ≠ 0)
    (h : amount.toNat ≤ (s.tokenBalanceOf tokenId account).toNat) :
    ∃ rest : UInt64, rest.toNat + amount.toNat = (s.tokenBalanceOf tokenId account).toNat ∧
      debitToken tokenId account amount s = ok ((), s.setHolders tokenId
        (writeOrRemove (mapAt s.tokenBalances tokenId) account rest)) := by
  have hpos : 0 < amount.toNat := Nat.pos_of_ne_zero fun hz => h0 (UInt64.toNat_inj.mp hz)
  have hheld : 0 < (valueAt (mapAt s.tokenBalances tokenId) account).toNat := hpos.trans_le h
  obtain ⟨rest, hrest⟩ := exists_rest h
  exact ⟨rest, hrest, debitToken_eq_ok.mpr ⟨mem_of_lookup (lookup_of_mapAt_pos hheld),
    mem_of_lookup (lookup_of_valueAt_pos hheld), _, hrest, rfl⟩⟩

/-- A purchase that its account can pay runs, while the account of the reserves has room. -/
theorem purchase_runs (hs : Sound s) (hE : E.saturation = .clamp) {r : SwapRequest}
    (hp : s.pools[r.tokenId]? = some pool) (ha : isValidAddress r.sender = true) (n : UInt64)
    (hout : r.amountOut.toNat < pool.reserveToken.toNat) (h0 : r.amountOut ≠ 0)
    (hfunds : s.Funds r.sender r.tokenId true r.amountIn) (hroom : ¬ s.ReservesFull r.amountIn) :
    ∃ s', swapHkmToToken E r (s.setNonce r.sender n) = ok ((), s') := by
  have hadd : ∀ x y : UInt64, E.saturation.add x y = some (Word.saturatingAdd x y) := by
    rw [hE]
    exact Word.Saturation.add_clamp
  have hfunds : r.amountIn.toNat + s.baseFee.toNat ≤ (valueAt s.balances r.sender).toNat := hfunds
  have hroom : (valueAt s.balances ammPoolAccount).toNat + r.amountIn.toNat < 2 ^ 64 :=
    not_le.mp hroom
  have hheld := hs.amm_hkm hp
  obtain ⟨total, ht⟩ := exists_word (hfunds.trans_lt (Word.toNat_lt _))
  obtain ⟨rest, hrest⟩ := exists_rest (ht.trans_le hfunds)
  obtain ⟨custody, hcustody⟩ := exists_word hroom
  obtain ⟨reserveHkm, hx⟩ := exists_word ((Nat.add_le_add_right hheld _).trans_lt hroom)
  obtain ⟨reserveToken, hy⟩ := exists_rest hout.le
  simp only [swapHkmToToken, Exec.bind_eq_ok, read_eq_ok, ok.injEq, totalDebit_eq_ok,
    debit_eq_ok, tryCredit_eq_ok, collectFee_eq_ok, creditToken_eq_ok, update_eq_ok,
    Outcome.bind_eq_ok, plain_eq_ok, okOr_eq_ok, Word.checkedAdd_eq_some,
    Word.checkedSub_eq_some, pure_eq]
  obtain ⟨inPool, -, hdebit⟩ := exists_debitToken (s := (((s.setNonce r.sender n).setBalance
    r.sender rest).setFeePot (Word.saturatingAdd s.feePot s.baseFee)).setBalance ammPoolAccount
      custody) h0 (hout.le.trans (hs.amm_tokens hp).ge)
  refine ⟨_, _, _, ⟨rfl, rfl⟩, total, _, ⟨ht, rfl⟩, (), _, ⟨rest, hrest, rfl⟩, (), _,
    ⟨_, hadd _ _, rfl⟩, (), _, ⟨custody, ?_, rfl⟩, (), _, hdebit, (), _, ⟨_, hadd _ _, rfl⟩,
    pool, hp, reserveHkm, hx, reserveToken, hy, rfl⟩
  rw [setFeePot_balances, setBalance_balances, valueAt_insert_of_ne _ (ne_ammPool ha)]
  exact hcustody

/-- A sale that its account can pay runs. -/
theorem sale_runs (hs : Sound s) (hE : E.saturation = .clamp) {r : SwapRequest}
    (hp : s.pools[r.tokenId]? = some pool) (ha : isValidAddress r.sender = true) (n : UInt64)
    (hout : r.amountOut.toNat < pool.reserveHkm.toNat) (hin : r.amountIn ≠ 0)
    (hfunds : s.Funds r.sender r.tokenId false r.amountIn) :
    ∃ s', swapTokenToHkm E r (s.setNonce r.sender n) = ok ((), s') := by
  have hadd : ∀ x y : UInt64, E.saturation.add x y = some (Word.saturatingAdd x y) := by
    rw [hE]
    exact Word.Saturation.add_clamp
  have hne := ne_ammPool ha
  have hfunds : s.baseFee.toNat ≤ (valueAt s.balances r.sender).toNat ∧
    r.amountIn.toNat ≤ (s.tokenBalanceOf r.tokenId r.sender).toNat := hfunds
  -- what the account holds and what the pool holds of the token are in existence together
  have hsum := valueAt_add_le_sumOf (mapAt s.tokenBalances r.tokenId) hne
  have hlt := hs.holders_lt r.tokenId
  have hroom : (s.tokenBalanceOf r.tokenId ammPoolAccount).toNat + r.amountIn.toNat < 2 ^ 64 :=
    (Nat.add_le_add_left hfunds.2 _).trans_lt (by unfold tokenBalanceOf; omega)
  obtain ⟨rest, hrest⟩ := exists_rest hfunds.1
  obtain ⟨inPool, hinPool⟩ := exists_word hroom
  obtain ⟨custody, hcustody⟩ := exists_rest (hout.le.trans (hs.amm_hkm hp))
  obtain ⟨reserveToken, hy⟩ := exists_word (hs.amm_tokens hp ▸ hroom)
  obtain ⟨reserveHkm, hx⟩ := exists_rest hout.le
  simp only [swapTokenToHkm, Exec.bind_eq_ok, read_eq_ok, ok.injEq, debit_eq_ok, credit_eq_ok,
    collectFee_eq_ok, tryCreditToken_eq_ok, update_eq_ok, Outcome.bind_eq_ok, plain_eq_ok,
    okOr_eq_ok, Word.checkedAdd_eq_some, Word.checkedSub_eq_some, pure_eq]
  obtain ⟨left, -, hdebit⟩ := exists_debitToken (s := ((s.setNonce r.sender n).setBalance
    r.sender rest).setFeePot (Word.saturatingAdd s.feePot s.baseFee)) hin hfunds.2
  refine ⟨_, _, _, ⟨rfl, rfl⟩, (), _, ⟨rest, hrest, rfl⟩, (), _, ⟨_, hadd _ _, rfl⟩, (), _,
    hdebit, (), _, ⟨inPool, ?_, rfl⟩, (), _, ⟨custody, ?_, rfl⟩, (), _, ⟨_, hadd _ _, rfl⟩,
    pool, hp, reserveToken, hy, reserveHkm, hx, rfl⟩
  · rw [setHolders_tokenBalances, mapAt_insert, if_pos rfl, valueAt_writeOrRemove, if_neg hne]
    exact hinPool
  · show _ = (valueAt (s.balances.insert r.sender rest) ammPoolAccount).toNat
    rw [valueAt_insert_of_ne _ hne]
    exact hcustody

/-! ## The quote and the swap -/

/-- A transaction of an account that is in order as far as everything but its branch goes. -/
structure Presented (E : Node) (s : ChainState) (tx : Transaction) (a : String) : Prop where
  verified : ∃ v, tx.verifyForBlock E v = ok ()
  scope : s.verifyChainScope tx = ok ()
  policy : s.verifySignaturePolicy tx = ok ()
  nonce : s.NextNonce a tx.nonce

/-- A swap of what was quoted is refused because there is nothing to pay, or because the account of
the reserves is full, which takes more HKM than a word counts. -/
def Excused (E : Node) (s : ChainState) (tx : Transaction) (height : UInt64) (buy : Bool)
    (amountIn : UInt64) : Prop :=
  (∃ s', applyVerified E tx height s =
    err ("Swap produces no output or drains the pool", s')) ∨
  (∃ r, applyVerified E tx height s = err r) ∧ buy = true ∧ s.ReservesFull amountIn ∧ ¬ Conserved s

/-- The quote completes, what it promises is paid unless the swap is excused, and what is paid was
promised. -/
structure QuoteAgrees (E : Node) (s : ChainState) (t direction : String) (amountIn : UInt64) :
    Prop where
  completes : s.swapQuote t direction amountIn ≠ panicked
  promised : ∀ (q : SwapQuoteResponse) (tx : Transaction) (a : String) (height : UInt64),
    s.swapQuote t direction amountIn = ok (some q) →
    SwapBy tx a t (buys direction) amountIn q.amountOut → Presented E s tx a →
    s.Funds a t (buys direction) amountIn →
    (∃ s', applyVerified E tx height s = ok ((), s') ∧
      Swapped s s' a t (buys direction) amountIn q.amountOut) ∨
    Excused E s tx height (buys direction) amountIn
  paid : ∀ (tx : Transaction) (a v : String) (minOut height : UInt64) (s' : ChainState),
    SwapBy tx a t (buys direction) amountIn minOut → tx.verifyForBlock E v = ok () →
    applyVerified E tx height s = ok ((), s') →
    ∃ q, s.swapQuote t direction amountIn = ok (some q) ∧
      Swapped s s' a t (buys direction) amountIn q.amountOut

theorem SwapBy.address {v : String} (h : SwapBy tx a t buy amountIn minOut)
    (hver : tx.verifyForBlock E v = ok ()) : isValidAddress a = true :=
  Transaction.sender_valid hver (by simp [h.kind]) (by simp [h.kind]) a h.sender

theorem applyVerified_swap (ht : tx.transactionType = .swap)
    (hscope : s.verifyChainScope tx = ok ()) (hpolicy : s.verifySignaturePolicy tx = ok ()) :
    applyVerified E tx height s = applySwap E tx s := by
  have hfirst : Exec.read (fun s : ChainState => s.verifyChainScope tx) s = ok ((), s) :=
    read_eq_ok.mpr ⟨hscope, rfl⟩
  have hsecond : Exec.read (fun s : ChainState => s.verifySignaturePolicy tx) s = ok ((), s) :=
    read_eq_ok.mpr ⟨hpolicy, rfl⟩
  have hbranch : applyBranch E tx height = applySwap E tx := by rw [applyBranch, ht]
  exact (Exec.bind_of_ok hfirst).trans ((Exec.bind_of_ok hsecond).trans (congrFun hbranch s))

/-- An applied swap pays the output that its checks have computed. -/
theorem swap_paid (hs : Sound s) (hE : E.saturation = .clamp) {v : String}
    (hswap : SwapBy tx a t buy amountIn minOut) (hver : tx.verifyForBlock E v = ok ())
    (h : applyVerified E tx height s = ok ((), s')) :
    ∃ out, swapChecks tx s = ok ⟨a, t, buy, amountIn, out⟩ ∧ Swapped s s' a t buy amountIn out := by
  obtain ⟨hscope, hpolicy, -⟩ := applyVerified_applied h
  rw [applyVerified_swap hswap.kind hscope hpolicy] at h
  obtain ⟨r, hc, -, he⟩ := guarded_eq_ok.mp h
  obtain ⟨action, -, hsender, hamm, htoken, hin, -⟩ := swapChecks_ok hc
  obtain ⟨hdirection, -⟩ := swapChecks_direction hc
  obtain ⟨action', hamm', rfl, rfl, rfl, rfl⟩ := hswap.action
  rw [hamm, Option.some.injEq] at hamm'
  subst hamm'
  rw [hswap.sender, Option.some.injEq] at hsender
  rw [hamm, Option.map_some, Option.getD_some] at hdirection
  rw [hsender, ← htoken, hdirection, ← hin]
  exact ⟨r.amountOut, hc, hs.swapped hE (hsender ▸ hswap.address hver) he⟩

/-- A swap of what was quoted is paid or excused. -/
theorem quoted_swap (hs : Sound s) (hE : E.saturation = .clamp)
    (hinv : PoolInvariant s t pool) (hp : s.pools[t]? = some pool) (h0 : amountIn ≠ 0)
    (hswap : SwapBy tx a t buy amountIn out) (hpresented : Presented E s tx a)
    (hfunds : s.Funds a t buy amountIn)
    (hout : swapOutput (reserveIn pool buy) (reserveOut pool buy) amountIn = ok out) :
    (∃ s', applyVerified E tx height s = ok ((), s') ∧
      Swapped s s' a t buy amountIn out) ∨ Excused E s tx height buy amountIn := by
  obtain ⟨v, hver⟩ := hpresented.verified
  have ha := hswap.address hver
  have happly : applyVerified E tx height s = applySwap E tx s :=
    applyVerified_swap hswap.kind hpresented.scope hpresented.policy
  have hchecks := swapChecks_eq hswap hp hinv.reserveHkm hinv.reserveToken hout
    (UInt64.le_iff_toNat_le.mpr le_rfl)
  split at hchecks
  · exact .inr (.inl ⟨s, happly.trans (Exec.bind_of_err (read_eq_err.mpr ⟨hchecks, rfl⟩))⟩)
  · rename_i hpays
    rw [not_or, UInt64.le_iff_toNat_le, not_le] at hpays
    have hrun : applySwap E tx s =
        swapEffects E ⟨a, t, buy, amountIn, out⟩ (s.setNonce a tx.nonce) :=
      (Exec.bind_of_ok (read_eq_ok.mpr ⟨hchecks, rfl⟩)).trans
        (Exec.bind_of_ok (consumeNonce_of_next hpresented.nonce))
    by_cases hfull : buy = true ∧ s.ReservesFull amountIn
    · obtain ⟨rfl, hfull⟩ := hfull
      have hrefused : (s.setNonce a tx.nonce).SwapRefused ⟨a, t, true, amountIn, out⟩ := by
        refine Or.inl (Or.inr (Or.inr ?_))
        unfold ReservesFull balanceOf at hfull
        rw [balanceOf, debited, setBalance_balances, setNonce_balances,
          valueAt_insert_of_ne _ (ne_ammPool ha)]
        exact hfull
      obtain ⟨e, he⟩ := (swapEffects_fails hE h0 hpays.1 hp).mpr hrefused
      exact .inr (.inr ⟨⟨e, happly.trans (hrun.trans he)⟩, rfl, hfull,
        fun hc => hc.not_reservesFull ha hfunds hfull⟩)
    · have hgoes : ∃ s', swapEffects E ⟨a, t, buy, amountIn, out⟩ (s.setNonce a tx.nonce) =
          ok ((), s') := by
        cases buy with
        | true =>
          exact purchase_runs (r := ⟨a, t, true, amountIn, out⟩) hs hE hp ha tx.nonce hpays.2
            hpays.1 hfunds fun h => hfull ⟨rfl, h⟩
        | false =>
          exact sale_runs (r := ⟨a, t, false, amountIn, out⟩) hs hE hp ha tx.nonce hpays.2 h0
            hfunds
      obtain ⟨s', hs'⟩ := hgoes
      exact .inl ⟨s', happly.trans (hrun.trans hs'),
        hs.swapped (r := ⟨a, t, buy, amountIn, out⟩) hE ha hs'⟩

/-- The quote of a reachable pool agrees with the swap exactly when its product fits 128 bits. -/
theorem swap_quote_agrees_iff (hE : E.saturation = .clamp) (hr : Reachable E s)
    (hp : s.pools[t]? = some pool) :
    QuoteAgrees E s t direction amountIn ↔ QuoteFits pool (buys direction) amountIn := by
  have hs := hr.sound hE
  have hinv := hr.poolInvariant hE hp
  have hin : 0 < (reserveIn pool (buys direction)).toNat := by
    unfold reserveIn
    split
    · exact hinv.reserveHkm
    · exact hinv.reserveToken
  by_cases h0 : amountIn = 0
  · -- nothing is quoted for nothing, and nothing is paid
    have hnone : s.swapQuote t direction amountIn = ok none := by
      unfold swapQuote
      rw [hp]
      exact if_pos (.inr (.inr h0))
    refine iff_of_true ⟨?_, ?_, ?_⟩ ?_
    · rw [hnone]
      exact fun h => nomatch h
    · intro q tx a height hq
      rw [hnone] at hq
      cases hq
    · intro tx a v minOut height s' hswap hver h
      obtain ⟨out, hc, -⟩ := swap_paid hs hE hswap hver h
      exact absurd h0 (swapChecks_moves hc).1
    · unfold QuoteFits
      rw [h0]
      norm_num
  have hquote : s.swapQuote t direction amountIn = _ :=
    swapQuote_eq hp hinv.reserveHkm hinv.reserveToken h0
  constructor
  · intro h
    by_contra hwide
    have hwide : ¬ amountIn.toNat * 9970 * (reserveOut pool (buys direction)).toNat < 2 ^ 128 := hwide
    refine h.completes ?_
    rw [hquote, quoteOutput_eq hin, if_neg hwide]
    rfl
  · intro hfits
    have hcomputed : quoteOutput (reserveIn pool (buys direction)) (reserveOut pool (buys direction))
        amountIn = _ := (quoteOutput_eq hin).trans (if_pos hfits)
    constructor
    case completes =>
      rw [hquote, hcomputed]
      exact fun h => nomatch h
    case promised =>
      intro q tx a height hq hswap hpresented hfunds
      rw [hquote, Outcome.bind_eq_ok] at hq
      obtain ⟨out, hout, hq⟩ := hq
      rw [ok.injEq, Option.some.injEq] at hq
      subst hq
      exact quoted_swap hs hE hinv hp h0 hswap hpresented hfunds (quoteOutput_eq_ok.mp hout)
    case paid =>
      intro tx a v minOut height s' hswap hver h
      obtain ⟨out, hc, hpaid⟩ := swap_paid hs hE hswap hver h
      obtain ⟨pool', hp', -, -, hout⟩ := swapChecks_output hc
      have hsame : pool' = pool := Option.some.inj (hp'.symm.trans hp)
      subst hsame
      have hside : swapOutput (reserveIn pool' (buys direction)) (reserveOut pool' (buys direction))
          amountIn = ok out := by
        unfold reserveIn reserveOut
        split at hout
        · rename_i hbuy
          rwa [if_pos hbuy, if_pos hbuy]
        · rename_i hbuy
          rwa [if_neg hbuy, if_neg hbuy]
      refine ⟨⟨t, buys direction, amountIn, out, pool'.reserveHkm, pool'.reserveToken⟩, ?_, hpaid⟩
      rw [hquote, quoteOutput_eq_ok.mpr hside]
      rfl

/-- The quote for one unit of HKM at the lopsided pool. -/
theorem swap_quote_agrees_sample : ∃ s, Reachable (Sample.node []) s ∧
    QuoteAgrees (Sample.node []) s Sample.tokenId "buy" 1 := by
  obtain ⟨s, pool, hr, hp, -, hy, -, -⟩ := Sample.exists_lopsided
  refine ⟨s, hr, (swap_quote_agrees_iff rfl hr hp).mpr ?_⟩
  show 1 * 9970 * (reserveOut pool (buys "buy")).toNat < 2 ^ 128
  have hbuy : buys "buy" = true := by decide
  rw [hbuy, reserveOut, if_pos rfl, hy]
  decide

/-- The quote for the largest amount at the lopsided pool aborts. -/
theorem swap_quote_aborts : ∃ s, Reachable (Sample.node []) s ∧
    s.swapQuote Sample.tokenId "buy" 18446744073709551615 = panicked ∧
    ¬ QuoteAgrees (Sample.node []) s Sample.tokenId "buy" 18446744073709551615 := by
  obtain ⟨s, pool, hr, hp, hx, hy, -, -⟩ := Sample.exists_lopsided
  have hbuy : buys "buy" = true := by decide
  have hpanic : s.swapQuote Sample.tokenId "buy" 18446744073709551615 = panicked := by
    rw [swapQuote_eq hp (by rw [hx]; decide) (by rw [hy]; decide) (by decide), hbuy, reserveIn,
      reserveOut, if_pos rfl, if_pos rfl, hx, hy]
    rw [quoteOutput_eq (by decide), if_neg (by decide)]
    rfl
  exact ⟨s, hr, hpanic, fun h => h.completes hpanic⟩

end ChainState
