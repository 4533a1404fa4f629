/-
# HKM in flight

Inside a branch of the state machine, HKM that was debited and not credited yet is on no
account.  `InFlight` counts it, so that each primitive has one rule, and a branch conserves
HKM because its rules compose to nothing in flight.

The same count says that no saturating operation saturates: with `n` units in flight, up to
`n` units can be credited exactly.  `E.reading m` is the node with saturating arithmetic
read as `m`; an operation that is exact returns the same in every reading.
-/
import Mathlib.Tactic
import Hikmalayer.Ledger.Runs

open Outcome Exec OrderedMap

/-- The node with saturating arithmetic read as `m`. -/
def Node.reading (E : Node) (m : Word.Saturation) : Node := { E with saturation := m }

namespace ChainState

variable {E : Node} {s s' : ChainState} {tx : Transaction} {height amount fee : UInt64}
  {account tokenId : String} {u : Unit} {supply burned : UInt64} {n : ℕ}

/-- `n` units are on no account, under the given supply counters. -/
structure InFlight (supply burned : UInt64) (n : ℕ) (s : ChainState) : Prop where
  sum : sumOf s.balances + s.feePot.toNat + n = supply.toNat
  supply : s.totalSupply = supply
  burned : s.burned = burned

theorem Conserved.inFlight (h : Conserved s) : InFlight s.totalSupply s.burned 0 s :=
  ⟨h, rfl, rfl⟩

theorem InFlight.conserved (h : InFlight supply burned n s) (hn : n = 0) : Conserved s := by
  have hsum := h.sum
  rw [hn, Nat.add_zero] at hsum
  rw [Conserved, hsum, h.supply]

/-- The count of units in flight, rewritten. -/
theorem InFlight.cast {n' : ℕ} (h : InFlight supply burned n s) (hn : n = n') :
    InFlight supply burned n' s := hn ▸ h

/-- Writes that touch neither balances, pot nor supply counters. -/
theorem InFlight.congr (h : InFlight supply burned n s) (hb : s'.balances = s.balances)
    (hp : s'.feePot = s.feePot) (ht : s'.totalSupply = s.totalSupply)
    (hu : s'.burned = s.burned) : InFlight supply burned n s' :=
  ⟨by rw [hb, hp]; exact h.sum, ht.trans h.supply, hu.trans h.burned⟩

theorem InFlight.setToken (h : InFlight supply burned n s) (t : String) (info : TokenInfo) :
    InFlight supply burned n (s.setToken t info) :=
  h.congr rfl rfl rfl rfl

theorem InFlight.setProviders (h : InFlight supply burned n s) (t : String)
    (providers : BTreeMap UInt64) : InFlight supply burned n (s.setProviders t providers) :=
  h.congr rfl rfl rfl rfl

/-! ## Rules of the primitives -/

theorem InFlight.debit (h : InFlight supply burned n s)
    (hd : debit account amount s = ok (u, s')) : InFlight supply burned (n + amount.toNat) s' := by
  obtain ⟨rest, hr, rfl⟩ := debit_eq_ok.mp hd
  refine ⟨?_, h.supply, h.burned⟩
  have h₁ := sumOf_insert s.balances account rest
  have h₂ := h.sum
  rw [setBalance_balances, setBalance_feePot]
  omega

theorem InFlight.tryCredit (h : InFlight supply burned n s) (hn : amount.toNat ≤ n)
    (hd : tryCredit account amount s = ok (u, s')) :
    InFlight supply burned (n - amount.toNat) s' := by
  obtain ⟨balance, hb, rfl⟩ := tryCredit_eq_ok.mp hd
  refine ⟨?_, h.supply, h.burned⟩
  have h₁ := sumOf_insert s.balances account balance
  have h₂ := h.sum
  rw [setBalance_balances, setBalance_feePot]
  omega

/-- A credit of units in flight is exact. -/
theorem InFlight.credit (h : InFlight supply burned n s) (hn : amount.toNat ≤ n)
    (hd : credit E account amount s = ok (u, s')) :
    InFlight supply burned (n - amount.toNat) s' ∧
      ∀ m, ChainState.credit (E.reading m) account amount s = ok (u, s') := by
  obtain ⟨balance, hb, rfl⟩ := credit_eq_ok.mp hd
  have hle := valueAt_le_sumOf s.balances account
  have hlt := Word.toNat_lt supply
  have h₂ := h.sum
  have hfit : (valueAt s.balances account).toNat + amount.toNat < 2 ^ 64 := by omega
  refine ⟨⟨?_, h.supply, h.burned⟩, fun m => credit_eq_ok.mpr ⟨balance, ?_, rfl⟩⟩
  · have h₁ := sumOf_insert s.balances account balance
    have hex := Word.Saturation.toNat_of_add hb hfit
    rw [setBalance_balances, setBalance_feePot]
    omega
  · rw [Word.Saturation.add_of_lt _ hfit] at hb ⊢
    exact hb

/-- Collecting a fee in flight is exact. -/
theorem InFlight.collectFee (h : InFlight supply burned n s) (hn : fee.toNat ≤ n)
    (hd : collectFee E fee s = ok (u, s')) :
    InFlight supply burned (n - fee.toNat) s' ∧
      ∀ m, ChainState.collectFee (E.reading m) fee s = ok (u, s') := by
  obtain ⟨pot, hp, rfl⟩ := collectFee_eq_ok.mp hd
  have hlt := Word.toNat_lt supply
  have h₂ := h.sum
  have hfit : s.feePot.toNat + fee.toNat < 2 ^ 64 := by omega
  refine ⟨⟨?_, h.supply, h.burned⟩, fun m => collectFee_eq_ok.mpr ⟨pot, ?_, rfl⟩⟩
  · have hex := Word.Saturation.toNat_of_add hp hfit
    rw [setFeePot_balances, setFeePot_feePot]
    omega
  · rw [Word.Saturation.add_of_lt _ hfit] at hp ⊢
    exact hp

theorem InFlight.debitToken (h : InFlight supply burned n s)
    (hd : debitToken tokenId account amount s = ok (u, s')) : InFlight supply burned n s' := by
  obtain ⟨-, -, rest, -, rfl⟩ := debitToken_eq_ok.mp hd
  exact h.congr rfl rfl rfl rfl

theorem InFlight.tryCreditToken (h : InFlight supply burned n s)
    (hd : tryCreditToken tokenId account amount s = ok (u, s')) : InFlight supply burned n s' := by
  obtain ⟨balance, -, rfl⟩ := tryCreditToken_eq_ok.mp hd
  exact h.congr rfl rfl rfl rfl

/-- A token credit that fits is exact. -/
theorem InFlight.creditToken (h : InFlight supply burned n s)
    (hfit : sumOf (mapAt s.tokenBalances tokenId) + amount.toNat < 2 ^ 64)
    (hd : creditToken E tokenId account amount s = ok (u, s')) :
    InFlight supply burned n s' ∧
      ∀ m, ChainState.creditToken (E.reading m) tokenId account amount s = ok (u, s') := by
  obtain ⟨balance, hb, rfl⟩ := creditToken_eq_ok.mp hd
  have hle := valueAt_le_sumOf (mapAt s.tokenBalances tokenId) account
  refine ⟨h.congr rfl rfl rfl rfl, fun m => creditToken_eq_ok.mpr ⟨balance, ?_, rfl⟩⟩
  rw [Word.Saturation.add_of_lt _ (by omega)] at hb ⊢
  exact hb

theorem InFlight.setStake {stake : UInt64} (h : InFlight supply burned n s)
    (hd : setStake account stake s = ok (u, s')) : InFlight supply burned n s' := by
  obtain ⟨info, -, rfl⟩ := setStake_eq_ok.mp hd
  exact h.congr rfl rfl rfl rfl

/-- After a token debit the other holders leave room for the amount. -/
theorem holders_room (hlt : sumOf (mapAt s.tokenBalances tokenId) < 2 ^ 64)
    (hd : debitToken tokenId account amount s = ok (u, s')) :
    sumOf (mapAt s'.tokenBalances tokenId) + amount.toNat < 2 ^ 64 := by
  obtain ⟨-, -, rest, hr, rfl⟩ := debitToken_eq_ok.mp hd
  have h := sumOf_writeOrRemove (mapAt s.tokenBalances tokenId) account rest
  rw [setHolders_tokenBalances, mapAt_insert, if_pos rfl]
  omega

/-! ## Branches that move HKM between accounts -/

/-- A computation that conserves HKM and returns the same in every reading. -/
structure Exact (x : Node → StateAction) (E : Node) (s s' : ChainState) : Prop where
  conserved : Conserved s'
  supply : s'.totalSupply = s.totalSupply
  burned : s'.burned = s.burned
  returns : ∀ m, x (E.reading m) s = ok ((), s')

theorem InFlight.exact {x : Node → StateAction} (h : InFlight s.totalSupply s.burned n s')
    (hn : n = 0) (hx : ∀ m, x (E.reading m) s = ok ((), s')) : Exact x E s s' :=
  ⟨h.conserved hn, h.supply, h.burned, hx⟩

theorem transferEffects_exact {sender : String} (hc : Conserved s)
    (h : transferEffects E tx sender s = ok (u, s')) :
    Exact (fun E => transferEffects E tx sender) E s s' := by
  simp only [transferEffects, Exec.bind_eq_ok, read_eq_ok, ok.injEq] at h
  obtain ⟨fee, _, ⟨rfl, rfl⟩, total, _, ⟨ht, rfl⟩, _, s₁, h₁, _, s₂, h₂, h₃⟩ := h
  have hsum := totalDebit_eq_ok.mp ht
  have f₁ := hc.inFlight.debit h₁
  have f₂ := f₁.tryCredit (by omega) h₂
  obtain ⟨f₃, e₃⟩ := f₂.collectFee (by omega) h₃
  refine f₃.exact (by omega) fun m => ?_
  simp only [transferEffects, Exec.bind_eq_ok, read_eq_ok, ok.injEq]
  exact ⟨_, _, ⟨rfl, rfl⟩, total, _, ⟨ht, rfl⟩, _, s₁, h₁, _, s₂, h₂, e₃ m⟩

theorem stakeEffects_exact {r : StakeRequest} (hc : Conserved s)
    (h : stakeEffects E tx r s = ok (u, s')) :
    Exact (fun E => stakeEffects E tx r) E s s' := by
  unfold stakeEffects at h
  obtain ⟨fee, _, hfee, h⟩ := Exec.bind_eq_ok.mp h
  obtain ⟨total, _, htotal, h⟩ := Exec.bind_eq_ok.mp h
  obtain ⟨_, s₁, h₁, h⟩ := Exec.bind_eq_ok.mp h
  obtain ⟨_, s₂, h₂, h⟩ := Exec.bind_eq_ok.mp h
  obtain ⟨_, s₃, h₃, htail⟩ := Exec.bind_eq_ok.mp h
  obtain ⟨hb, rfl⟩ := read_eq_ok.mp hfee
  obtain ⟨ht, rfl⟩ := read_eq_ok.mp htotal
  have hsum := totalDebit_eq_ok.mp ht
  have f₁ := hc.inFlight.debit h₁
  have f₂ := f₁.tryCredit (by omega) h₂
  obtain ⟨f₃, e₃⟩ := f₂.collectFee (by omega) h₃
  have f₄ : InFlight s.totalSupply s.burned (0 + total.toNat - tx.amount.toNat - fee.toNat) s' := by
    simp only [Exec.bind_eq_ok, read_eq_ok, updateStaker_eq_ok] at htail
    obtain ⟨_, _, rfl, _, _, ⟨-, rfl⟩, _, _, rfl, _, _, ⟨-, rfl⟩, rfl⟩ := htail
    exact f₃.congr rfl rfl rfl rfl
  refine f₄.exact (by omega) fun m => ?_
  -- what follows the fee does not depend on the reading
  unfold stakeEffects
  rw [Exec.bind_of_ok hfee, Exec.bind_of_ok htotal, Exec.bind_of_ok h₁, Exec.bind_of_ok h₂,
    Exec.bind_of_ok (e₃ m)]
  exact htail

theorem withdrawEffects_exact {r : WithdrawRequest} (hc : Conserved s)
    (h : withdrawEffects E tx height r s = ok (u, s')) :
    Exact (fun E => withdrawEffects E tx height r) E s s' := by
  simp only [withdrawEffects, Exec.bind_eq_ok, read_eq_ok, ok.injEq, modify_apply,
    Prod.mk.injEq] at h
  obtain ⟨fee, _, ⟨rfl, rfl⟩, _, s₁, h₁, _, s₂, h₂, _, s₃, h₃, release, _, ⟨hr, rfl⟩, -, rfl⟩ := h
  have f₁ := hc.inFlight.debit h₁
  obtain ⟨f₂, e₂⟩ := f₁.collectFee (by omega) h₂
  have f₃ := f₂.setStake h₃
  refine InFlight.exact (f₃.congr rfl rfl rfl rfl) (by omega) fun m => ?_
  simp only [withdrawEffects, Exec.bind_eq_ok, read_eq_ok, ok.injEq, modify_apply,
    Prod.mk.injEq]
  exact ⟨_, _, ⟨rfl, rfl⟩, _, s₁, h₁, _, s₂, e₂ m, _, s₃, h₃, release, _, ⟨hr, rfl⟩, trivial, rfl⟩

theorem vestEffects_exact {r : VestRequest} (hc : Conserved s)
    (h : vestEffects E tx height r s = ok (u, s')) :
    Exact (fun E => vestEffects E tx height r) E s s' := by
  simp only [vestEffects, Exec.bind_eq_ok, read_eq_ok, ok.injEq, modify_apply,
    Prod.mk.injEq] at h
  obtain ⟨fee, _, ⟨rfl, rfl⟩, total, _, ⟨ht, rfl⟩, _, s₁, h₁, _, s₂, h₂, _, s₃, h₃, cliff, _,
    ⟨hcl, rfl⟩, finish, _, ⟨hf, rfl⟩, -, rfl⟩ := h
  have hsum := totalDebit_eq_ok.mp ht
  have f₁ := hc.inFlight.debit h₁
  have f₂ := f₁.tryCredit (by omega) h₂
  obtain ⟨f₃, e₃⟩ := f₂.collectFee (by omega) h₃
  refine InFlight.exact (f₃.congr rfl rfl rfl rfl) (by omega) fun m => ?_
  simp only [vestEffects, Exec.bind_eq_ok, read_eq_ok, ok.injEq, modify_apply, Prod.mk.injEq]
  exact ⟨_, _, ⟨rfl, rfl⟩, total, _, ⟨ht, rfl⟩, _, s₁, h₁, _, s₂, h₂, _, s₃, e₃ m, cliff, _,
    ⟨hcl, rfl⟩, finish, _, ⟨hf, rfl⟩, trivial, rfl⟩

/-! ## Native tokens and liquidity -/

theorem tokenCreateEffects_exact {r : TokenRequest} (hc : Conserved s)
    (h : tokenCreateEffects E tx height r s = ok (u, s')) :
    Exact (fun E => tokenCreateEffects E tx height r) E s s' := by
  simp only [tokenCreateEffects, Exec.bind_eq_ok, read_eq_ok, ok.injEq, modify_apply,
    Prod.mk.injEq] at h
  obtain ⟨fee, _, ⟨rfl, rfl⟩, _, s₁, h₁, _, s₂, h₂, _, _, ⟨-, rfl⟩, h₃⟩ := h
  have f₁ := hc.inFlight.debit h₁
  obtain ⟨f₂, e₂⟩ := f₁.collectFee (by omega) h₂
  have f₃ := (f₂.setToken _ _).tryCreditToken h₃
  refine f₃.exact (by omega) fun m => ?_
  simp only [tokenCreateEffects, Exec.bind_eq_ok, read_eq_ok, ok.injEq, modify_apply,
    Prod.mk.injEq]
  exact ⟨_, _, ⟨rfl, rfl⟩, _, s₁, h₁, _, s₂, e₂ m, (), _, ⟨trivial, rfl⟩, h₃⟩

theorem tokenTransferEffects_exact {r : TokenRequest} (hc : Conserved s)
    (h : tokenTransferEffects E tx r s = ok (u, s')) :
    Exact (fun E => tokenTransferEffects E tx r) E s s' := by
  simp only [tokenTransferEffects, Exec.bind_eq_ok, read_eq_ok, ok.injEq] at h
  obtain ⟨fee, _, ⟨rfl, rfl⟩, _, s₁, h₁, _, s₂, h₂, _, s₃, h₃, h₄⟩ := h
  have f₁ := hc.inFlight.debit h₁
  obtain ⟨f₂, e₂⟩ := f₁.collectFee (by omega) h₂
  have f₄ := (f₂.debitToken h₃).tryCreditToken h₄
  refine f₄.exact (by omega) fun m => ?_
  simp only [tokenTransferEffects, Exec.bind_eq_ok, read_eq_ok, ok.injEq]
  exact ⟨_, _, ⟨rfl, rfl⟩, _, s₁, h₁, _, s₂, e₂ m, _, s₃, h₃, h₄⟩

/-- Steps on HKM keep the token balances. -/
theorem debit_tokenBalances (h : debit account amount s = ok (u, s')) :
    s'.tokenBalances = s.tokenBalances ∧ s'.tokens = s.tokens := by
  obtain ⟨_, -, rfl⟩ := debit_eq_ok.mp h
  exact ⟨rfl, rfl⟩

theorem tryCredit_tokenBalances (h : tryCredit account amount s = ok (u, s')) :
    s'.tokenBalances = s.tokenBalances := by
  obtain ⟨_, -, rfl⟩ := tryCredit_eq_ok.mp h
  rfl

theorem credit_tokenBalances (h : credit E account amount s = ok (u, s')) :
    s'.tokenBalances = s.tokenBalances := by
  obtain ⟨_, -, rfl⟩ := credit_eq_ok.mp h
  rfl

theorem collectFee_tokenBalances (h : collectFee E fee s = ok (u, s')) :
    s'.tokenBalances = s.tokenBalances ∧ s'.tokens = s.tokens := by
  obtain ⟨_, -, rfl⟩ := collectFee_eq_ok.mp h
  exact ⟨rfl, rfl⟩

theorem burnShares_frame {shares : UInt64}
    (h : burnShares tokenId account shares s = ok (u, s')) :
    ∃ providers, s' = s.setProviders tokenId providers := by
  obtain ⟨-, -, _, -, rfl⟩ := burnShares_eq_ok.mp h
  exact ⟨_, rfl⟩

/-- A burn takes at most the recorded supply, so its subtraction is exact. -/
theorem tokenBurnEffects_exact {r : TokenRequest} (hc : Conserved s)
    (hsup : sumOf (mapAt s.tokenBalances r.tokenId) = tokenSupplyAt s.tokens r.tokenId)
    (h : tokenBurnEffects E tx r s = ok (u, s')) :
    Exact (fun E => tokenBurnEffects E tx r) E s s' := by
  unfold tokenBurnEffects at h
  obtain ⟨fee, _, hfee, h⟩ := Exec.bind_eq_ok.mp h
  obtain ⟨_, s₁, h₁, h⟩ := Exec.bind_eq_ok.mp h
  obtain ⟨_, s₂, h₂, h⟩ := Exec.bind_eq_ok.mp h
  obtain ⟨_, s₃, h₃, hlast⟩ := Exec.bind_eq_ok.mp h
  obtain ⟨hb, rfl⟩ := read_eq_ok.mp hfee
  have f₁ := hc.inFlight.debit h₁
  obtain ⟨f₂, e₂⟩ := f₁.collectFee (by omega) h₂
  have f₃ := f₂.debitToken h₃
  have htok : s₂.tokenBalances = s.tokenBalances ∧ s₂.tokens = s.tokens :=
    ⟨(collectFee_tokenBalances h₂).1.trans (debit_tokenBalances h₁).1,
      (collectFee_tokenBalances h₂).2.trans (debit_tokenBalances h₁).2⟩
  obtain ⟨-, -, rest, hr, rfl⟩ := debitToken_eq_ok.mp h₃
  have hle := valueAt_le_sumOf (mapAt s₂.tokenBalances r.tokenId) r.sender
  rw [htok.1] at hr hle
  have hlast' := update_eq_ok.mp hlast
  simp only [setHolders_tokens, htok.2] at hlast'
  cases hi : s.tokens[r.tokenId]? with
  | none =>
    simp only [hi, pure_eq, ok.injEq] at hlast'
    subst hlast'
    refine f₃.exact (by omega) fun m => ?_
    unfold tokenBurnEffects
    rw [Exec.bind_of_ok hfee, Exec.bind_of_ok h₁, Exec.bind_of_ok (e₂ m), Exec.bind_of_ok h₃]
    refine update_eq_ok.mpr ?_
    simp only [setHolders_tokens, htok.2, hi, pure_eq]
  | some info =>
    simp only [hi, Outcome.bind_eq_ok, plain_eq_ok, pure_eq, ok.injEq] at hlast'
    obtain ⟨totalSupply, hs, rfl⟩ := hlast'
    rw [tokenSupplyAt_of_lookup hi] at hsup
    have hfit : tx.amount.toNat ≤ info.totalSupply.toNat := by omega
    refine InFlight.exact (f₃.congr rfl rfl rfl rfl) (by omega) fun m => ?_
    unfold tokenBurnEffects
    rw [Exec.bind_of_ok hfee, Exec.bind_of_ok h₁, Exec.bind_of_ok (e₂ m), Exec.bind_of_ok h₃]
    refine update_eq_ok.mpr ?_
    simp only [setHolders_tokens, htok.2, hi, Outcome.bind_eq_ok, plain_eq_ok, pure_eq,
      ok.injEq]
    refine ⟨totalSupply, ?_, rfl⟩
    rw [Word.Saturation.sub_of_le _ hfit] at hs ⊢
    exact hs

theorem addLiquidityEffects_exact {r : AddRequest} (hc : Conserved s)
    (h : addLiquidityEffects E r s = ok (u, s')) :
    Exact (fun E => addLiquidityEffects E r) E s s' := by
  unfold addLiquidityEffects at h
  obtain ⟨fee, _, hfee, h⟩ := Exec.bind_eq_ok.mp h
  obtain ⟨total, _, htotal, h⟩ := Exec.bind_eq_ok.mp h
  obtain ⟨_, s₁, h₁, h⟩ := Exec.bind_eq_ok.mp h
  obtain ⟨_, s₂, h₂, htail⟩ := Exec.bind_eq_ok.mp h
  obtain ⟨hb, rfl⟩ := read_eq_ok.mp hfee
  obtain ⟨ht, rfl⟩ := read_eq_ok.mp htotal
  have hsum := totalDebit_eq_ok.mp ht
  have f₁ := hc.inFlight.debit h₁
  obtain ⟨f₂, e₂⟩ := f₁.collectFee (by omega) h₂
  have f₃ : InFlight s.totalSupply s.burned (0 + total.toNat - fee.toNat - r.quote.useHkm.toNat)
      s' := by
    obtain ⟨_, s₃, h₃, h⟩ := Exec.bind_eq_ok.mp htail
    obtain ⟨_, s₄, h₄, h⟩ := Exec.bind_eq_ok.mp h
    obtain ⟨_, s₅, h₅, h⟩ := Exec.bind_eq_ok.mp h
    have f₅ := ((f₂.tryCredit (by omega) h₃).debitToken h₄).tryCreditToken h₅
    simp only [Exec.bind_eq_ok, modify_apply, update_eq_ok, Outcome.bind_eq_ok, okOr_eq_ok,
      pure_eq, ok.injEq, Prod.mk.injEq] at h
    obtain ⟨_, _, ⟨-, rfl⟩, _, _, ⟨_, -, _, -, _, -, _, -, rfl⟩, _, -, rfl⟩ := h
    exact f₅.congr rfl rfl rfl rfl
  refine f₃.exact (by omega) fun m => ?_
  unfold addLiquidityEffects
  rw [Exec.bind_of_ok hfee, Exec.bind_of_ok htotal, Exec.bind_of_ok h₁, Exec.bind_of_ok (e₂ m)]
  exact htail

theorem removeLiquidityEffects_exact {r : RemoveRequest} (hc : Conserved s)
    (hlt : sumOf (mapAt s.tokenBalances r.tokenId) < 2 ^ 64)
    (h : removeLiquidityEffects E r s = ok (u, s')) :
    Exact (fun E => removeLiquidityEffects E r) E s s' := by
  unfold removeLiquidityEffects at h
  obtain ⟨fee, _, hfee, h⟩ := Exec.bind_eq_ok.mp h
  obtain ⟨_, s₁, h₁, h⟩ := Exec.bind_eq_ok.mp h
  obtain ⟨_, s₂, h₂, h⟩ := Exec.bind_eq_ok.mp h
  obtain ⟨_, s₃, h₃, h⟩ := Exec.bind_eq_ok.mp h
  obtain ⟨_, s₄, h₄, h⟩ := Exec.bind_eq_ok.mp h
  obtain ⟨_, s₅, h₅, h⟩ := Exec.bind_eq_ok.mp h
  obtain ⟨_, s₆, h₆, h⟩ := Exec.bind_eq_ok.mp h
  obtain ⟨_, s₇, h₇, hlast⟩ := Exec.bind_eq_ok.mp h
  obtain ⟨hb, rfl⟩ := read_eq_ok.mp hfee
  have f₁ := hc.inFlight.debit h₁
  obtain ⟨f₂, e₂⟩ := f₁.collectFee (by omega) h₂
  obtain ⟨providers, rfl⟩ := burnShares_frame h₃
  obtain ⟨f₅, e₅⟩ := ((f₂.setProviders _ _).debit h₄).credit (by omega) h₅
  have htok : s₅.tokenBalances = s.tokenBalances := by
    rw [credit_tokenBalances h₅, (debit_tokenBalances h₄).1, setProviders_tokenBalances,
      (collectFee_tokenBalances h₂).1, (debit_tokenBalances h₁).1]
  have hroom := holders_room (by rw [htok]; exact hlt) h₆
  obtain ⟨f₇, e₇⟩ := (f₅.debitToken h₆).creditToken hroom h₇
  have f₈ : InFlight s.totalSupply s.burned
      (0 + fee.toNat - fee.toNat + r.amountHkm.toNat - r.amountHkm.toNat) s' := by
    simp only [update_eq_ok, Outcome.bind_eq_ok, plain_eq_ok, pure_eq, ok.injEq] at hlast
    obtain ⟨_, -, _, -, _, -, _, -, rfl⟩ := hlast
    exact f₇.congr rfl rfl rfl rfl
  refine f₈.exact (by omega) fun m => ?_
  unfold removeLiquidityEffects
  rw [Exec.bind_of_ok hfee, Exec.bind_of_ok h₁, Exec.bind_of_ok (e₂ m), Exec.bind_of_ok h₃,
    Exec.bind_of_ok h₄, Exec.bind_of_ok (e₅ m), Exec.bind_of_ok h₆, Exec.bind_of_ok (e₇ m)]
  exact hlast

theorem swapHkmToToken_exact {r : SwapRequest} (hc : Conserved s)
    (hlt : sumOf (mapAt s.tokenBalances r.tokenId) < 2 ^ 64)
    (h : swapHkmToToken E r s = ok (u, s')) :
    Exact (fun E => swapHkmToToken E r) E s s' := by
  unfold swapHkmToToken at h
  obtain ⟨fee, _, hfee, h⟩ := Exec.bind_eq_ok.mp h
  obtain ⟨total, _, htotal, h⟩ := Exec.bind_eq_ok.mp h
  obtain ⟨_, s₁, h₁, h⟩ := Exec.bind_eq_ok.mp h
  obtain ⟨_, s₂, h₂, h⟩ := Exec.bind_eq_ok.mp h
  obtain ⟨_, s₃, h₃, h⟩ := Exec.bind_eq_ok.mp h
  obtain ⟨_, s₄, h₄, h⟩ := Exec.bind_eq_ok.mp h
  obtain ⟨_, s₅, h₅, hlast⟩ := Exec.bind_eq_ok.mp h
  obtain ⟨hb, rfl⟩ := read_eq_ok.mp hfee
  obtain ⟨ht, rfl⟩ := read_eq_ok.mp htotal
  have hsum := totalDebit_eq_ok.mp ht
  have f₁ := hc.inFlight.debit h₁
  obtain ⟨f₂, e₂⟩ := f₁.collectFee (by omega) h₂
  have f₃ := f₂.tryCredit (by omega) h₃
  have htok : s₃.tokenBalances = s.tokenBalances := by
    rw [tryCredit_tokenBalances h₃, (collectFee_tokenBalances h₂).1, (debit_tokenBalances h₁).1]
  have hroom := holders_room (by rw [htok]; exact hlt) h₄
  obtain ⟨f₅, e₅⟩ := (f₃.debitToken h₄).creditToken hroom h₅
  have f₆ : InFlight s.totalSupply s.burned (0 + total.toNat - fee.toNat - r.amountIn.toNat)
      s' := by
    simp only [update_eq_ok, Outcome.bind_eq_ok, plain_eq_ok, okOr_eq_ok, pure_eq,
      ok.injEq] at hlast
    obtain ⟨_, -, _, -, _, -, rfl⟩ := hlast
    exact f₅.congr rfl rfl rfl rfl
  refine f₆.exact (by omega) fun m => ?_
  unfold swapHkmToToken
  rw [Exec.bind_of_ok hfee, Exec.bind_of_ok htotal, Exec.bind_of_ok h₁, Exec.bind_of_ok (e₂ m),
    Exec.bind_of_ok h₃, Exec.bind_of_ok h₄, Exec.bind_of_ok (e₅ m)]
  exact hlast

theorem swapTokenToHkm_exact {r : SwapRequest} (hc : Conserved s)
    (h : swapTokenToHkm E r s = ok (u, s')) :
    Exact (fun E => swapTokenToHkm E r) E s s' := by
  unfold swapTokenToHkm at h
  obtain ⟨fee, _, hfee, h⟩ := Exec.bind_eq_ok.mp h
  obtain ⟨_, s₁, h₁, h⟩ := Exec.bind_eq_ok.mp h
  obtain ⟨_, s₂, h₂, h⟩ := Exec.bind_eq_ok.mp h
  obtain ⟨_, s₃, h₃, h⟩ := Exec.bind_eq_ok.mp h
  obtain ⟨_, s₄, h₄, h⟩ := Exec.bind_eq_ok.mp h
  obtain ⟨_, s₅, h₅, h⟩ := Exec.bind_eq_ok.mp h
  obtain ⟨_, s₆, h₆, hlast⟩ := Exec.bind_eq_ok.mp h
  obtain ⟨hb, rfl⟩ := read_eq_ok.mp hfee
  have f₁ := hc.inFlight.debit h₁
  obtain ⟨f₂, e₂⟩ := f₁.collectFee (by omega) h₂
  have f₅ := ((f₂.debitToken h₃).tryCreditToken h₄).debit h₅
  obtain ⟨f₆, e₆⟩ := f₅.credit (by omega) h₆
  have f₇ : InFlight s.totalSupply s.burned
      (0 + fee.toNat - fee.toNat + r.amountOut.toNat - r.amountOut.toNat) s' := by
    simp only [update_eq_ok, Outcome.bind_eq_ok, plain_eq_ok, okOr_eq_ok, pure_eq,
      ok.injEq] at hlast
    obtain ⟨_, -, _, -, _, -, rfl⟩ := hlast
    exact f₆.congr rfl rfl rfl rfl
  refine f₇.exact (by omega) fun m => ?_
  unfold swapTokenToHkm
  rw [Exec.bind_of_ok hfee, Exec.bind_of_ok h₁, Exec.bind_of_ok (e₂ m), Exec.bind_of_ok h₃,
    Exec.bind_of_ok h₄, Exec.bind_of_ok h₅, Exec.bind_of_ok (e₆ m)]
  exact hlast

theorem swapEffects_exact {r : SwapRequest} (hc : Conserved s)
    (hlt : sumOf (mapAt s.tokenBalances r.tokenId) < 2 ^ 64)
    (h : swapEffects E r s = ok (u, s')) : Exact (fun E => swapEffects E r) E s s' := by
  unfold swapEffects at h ⊢
  split at h
  · rename_i hd
    simp only [hd, if_true]
    exact swapHkmToToken_exact hc hlt h
  · rename_i hd
    simp only [hd]
    exact swapTokenToHkm_exact hc h

end ChainState
