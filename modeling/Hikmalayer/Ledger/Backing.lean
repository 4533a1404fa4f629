/-
# The reserve accounts back what they owe

In every reachable state the staking, vesting and AMM accounts hold exactly the stake, the
unvested amounts and the pool reserves recorded elsewhere.  `end_block` throws away the
result of the debits it makes from the first two; the backing is why this is harmless.
`endBlockStrict` is the housekeeping that stops at a failing debit: it never stops.
-/
import Mathlib.Tactic
import Hikmalayer.Ledger.Runs
import Hikmalayer.Model.Sample

open Outcome Exec OrderedMap

namespace ChainState

variable {E : Node} {s s' : ChainState} {account reserve : String} {amount height : UInt64}

/-- Every reserve account holds exactly what it owes. -/
structure Backed (s : ChainState) : Prop where
  staking : (s.balanceOf stakingPoolAccount).toNat =
    bondedTotal s.stakers + unbondingSum s.unbonding
  vesting : (s.balanceOf vestingPoolAccount).toNat = lockedTotal s.vesting
  released : ∀ (a : String) (l : List VestingEntry), s.vesting[a]? = some l →
    ∀ e ∈ l, e.released.toNat ≤ e.total.toNat
  amm : (s.balanceOf ammPoolAccount).toNat = poolHkmTotal s.pools
  ammTokens : ∀ t, (s.tokenBalanceOf t ammPoolAccount).toNat = reserveTokenAt s.pools t

/-- The invariant contains the backing. -/
theorem Sound.backed (hs : Sound s) : Backed s where
  staking := hs.staking
  vesting := hs.vesting
  released a l hl e he := (hs.schedules a l hl e he).1
  amm := hs.amm
  ammTokens := hs.ammTokens

/-! ## Housekeeping that stops at a failing debit -/

/-- `payOut` without the discarded result. -/
def payOutStrict (E : Node) (reserve account : String) (amount : UInt64) : StateAction :=
  if 0 < amount then do
    debit reserve amount
    credit E account amount
  else pure ()

def releaseUnbondingStrict (E : Node) (height : UInt64) (account : String) : StateAction := do
  let released ← Exec.readWrite (takeMatured height account)
  payOutStrict E stakingPoolAccount account released
  modify (dropExited account)

def releaseVestingStrict (E : Node) (height : UInt64) (recipient : String) : StateAction := do
  let released ← Exec.readWrite (takeVested height recipient)
  payOutStrict E vestingPoolAccount recipient released

/-- `end_block` with every debit of a reserve taken seriously. -/
def endBlockStrict (E : Node) (height : UInt64) (validator : String) : StateAction := do
  let accounts ← Exec.read fun s => ok s.unbonding.keys
  forEach (releaseUnbondingStrict E height) accounts
  let recipients ← Exec.read fun s => ok s.vesting.keys
  forEach (releaseVestingStrict E height) recipients
  settleFees E validator

/-- A payout that the reserve covers is debited. -/
theorem payOut_eq_strict (hle : amount.toNat ≤ (valueAt s.balances reserve).toNat) :
    payOut E reserve account amount s = payOutStrict E reserve account amount s := by
  unfold payOut payOutStrict
  split
  · have hd := debit_of_le hle
    rw [Exec.bind_of_ok (attempt_of_ok hd), Exec.bind_of_ok hd]
  · rfl

theorem releaseUnbonding_eq_strict (hs : Sound s) (height : UInt64) (account : String) :
    releaseUnbonding E height account s = releaseUnbondingStrict E height account s := by
  obtain ⟨released, m, htake, hsum, -⟩ := takeMatured_total hs height account
  have hpool := hs.staking
  unfold StakingBacked at hpool
  have hle : released.toNat ≤ (valueAt (s.setUnbonding m).balances stakingPoolAccount).toNat := by
    rw [setUnbonding_balances]
    omega
  unfold releaseUnbonding releaseUnbondingStrict
  rw [Exec.bind_of_ok (readWrite_eq_ok.mpr htake), Exec.bind_of_ok (readWrite_eq_ok.mpr htake),
    Exec.bind_apply, Exec.bind_apply, payOut_eq_strict hle]
  rfl

theorem releaseVesting_eq_strict (hs : Sound s) (height : UInt64) (recipient : String) :
    releaseVesting E height recipient s = releaseVestingStrict E height recipient s := by
  obtain ⟨released, m, htake, hsum, -⟩ := takeVested_total hs height recipient
  have hpool := hs.vesting
  unfold VestingBacked at hpool
  have hle : released.toNat ≤ (valueAt (s.setVesting m).balances vestingPoolAccount).toNat := by
    rw [setVesting_balances]
    omega
  unfold releaseVesting releaseVestingStrict
  rw [Exec.bind_of_ok (readWrite_eq_ok.mpr htake), Exec.bind_of_ok (readWrite_eq_ok.mpr htake),
    payOut_eq_strict hle]

/-- A loop that closes on sound states keeps the invariant when it returns. -/
theorem preserves_of_closes {x : Node → StateAction} (hE : E.saturation = .clamp)
    (hx : ∀ s, Sound s → Fits E s → ∃ s', Closes E x s s') : Exec.Preserves Sound (x E) := by
  intro s u s' hs h
  obtain ⟨t, ht⟩ := hx s hs (Or.inl hE)
  have hret := ht.returns
  rw [h, ok.injEq, Prod.mk.injEq] at hret
  exact hret.2 ▸ ht.sound

/-- On a sound ledger no debit of the housekeeping fails. -/
theorem endBlock_eq_strict (hE : E.saturation = .clamp) (hs : Sound s) (height : UInt64)
    (validator : String) : endBlock E height validator s = endBlockStrict E height validator s := by
  have hu : ∀ a ∈ s.unbonding.keys, ∀ t, Sound t → Fits E t →
      ∃ t', Closes E (fun E => releaseUnbonding E height a) t t' := fun a ha t ht hfit =>
    Closes.releaseUnbonding ht hfit (hs.addressed.unbonding a (Std.ExtTreeMap.mem_keys.mp ha))
      height
  obtain ⟨s₁, h₁⟩ := Closes.forEach hu s hs (Or.inl hE)
  have hv : ∀ a ∈ s₁.vesting.keys, ∀ t, Sound t → Fits E t →
      ∃ t', Closes E (fun E => releaseVesting E height a) t t' := fun a ha t ht hfit =>
    Closes.releaseVesting ht hfit
      (h₁.sound.addressed.vesting a (Std.ExtTreeMap.mem_keys.mp ha)) height
  have hloop₁ := Exec.forEach_congr (fun a ha => preserves_of_closes hE (hu a ha))
    (fun a _ t ht => releaseUnbonding_eq_strict ht height a) s hs
  have hloop₂ := Exec.forEach_congr (fun a ha => preserves_of_closes hE (hv a ha))
    (fun a _ t ht => releaseVesting_eq_strict ht height a) s₁ h₁.sound
  have hret : Exec.forEach (releaseUnbondingStrict E height) s.unbonding.keys s = ok ((), s₁) :=
    hloop₁.symm.trans h₁.returns
  unfold endBlock endBlockStrict
  rw [Exec.read_ok_bind, Exec.read_ok_bind, Exec.bind_of_ok h₁.returns, Exec.bind_of_ok hret,
    Exec.read_ok_bind, Exec.read_ok_bind, Exec.bind_apply, Exec.bind_apply, hloop₂]

/-! ## The main result -/

/-- In every reachable state the reserves are backed, and the housekeeping of a block debits
every release it credits: stopping at a failing debit makes no difference, and for a
well-formed validator the housekeeping returns. -/
theorem reserves_backed (hE : E.saturation = .clamp) (h : Reachable E s) :
    Backed s ∧ ∀ (height : UInt64) (validator : String),
      endBlock E height validator s = endBlockStrict E height validator s ∧
      (isValidAddress validator = true →
        ∃ s', endBlockStrict E height validator s = ok ((), s')) := by
  have hs := h.sound hE
  refine ⟨hs.backed, fun height validator => ⟨endBlock_eq_strict hE hs height validator, ?_⟩⟩
  intro hv
  obtain ⟨s', hclose, -⟩ := hs.endBlock (Or.inl hE) hv height
  exact ⟨s', (endBlock_eq_strict hE hs height validator).symm.trans hclose.returns⟩

/-- A genesis with its bonded validator. -/
theorem reserves_backed_genesis : Backed (Sample.genesis 1000000000000000) :=
  (reserves_backed (E := Sample.node []) rfl
    (.genesis (.built defaultChainId (Sample.address 7) _ _ [] Sample.address_valid))).1

end ChainState
