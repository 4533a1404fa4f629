/-
# Closing a block

`end_block` on a sound ledger: every release is debited from its reserve before it is
credited, so the housekeeping returns, keeps the invariant, and keeps the HKM in
existence equal to the recorded supply.
-/
import Mathlib.Tactic
import Hikmalayer.Ledger.Steps

open Outcome Exec OrderedMap

namespace ChainState

variable {E : Node} {s s' : ChainState} {account reserve : String} {amount height : UInt64}
  {u : Unit}

/-! ## HKM in existence -/

/-- Every unit of the supply is on an account or in the fee pot. -/
def Conserved (s : ChainState) : Prop :=
  sumOf s.balances + s.feePot.toNat = s.totalSupply.toNat

/-- The node clamps, or nothing can reach the boundary because HKM is conserved. -/
def Fits (E : Node) (s : ChainState) : Prop := E.saturation = .clamp ∨ Conserved s

theorem Conserved.sumOf_lt (h : Conserved s) : sumOf s.balances + s.feePot.toNat < 2 ^ 64 := by
  have := Word.toNat_lt s.totalSupply
  unfold Conserved at h
  omega

/-- In a sum that fits or under clamping, a saturating addition has a value. -/
theorem add_total {a b : UInt64} (h : E.saturation = .clamp ∨ a.toNat + b.toNat < 2 ^ 64) :
    ∃ c, E.saturation.add a b = some c := by
  rcases h with h | h
  · rw [h]
    exact ⟨_, rfl⟩
  · exact ⟨_, Word.Saturation.add_of_lt _ h⟩

/-- Housekeeping touches neither the supply counters nor the nonces. -/
structure Kept (s s' : ChainState) : Prop where
  totalSupply : s'.totalSupply = s.totalSupply
  burned : s'.burned = s.burned
  nonces : s'.nonces = s.nonces

theorem Kept.refl (s : ChainState) : Kept s s := ⟨rfl, rfl, rfl⟩

theorem Kept.trans {s₁ s₂ s₃ : ChainState} (h : Kept s₁ s₂) (h' : Kept s₂ s₃) : Kept s₁ s₃ :=
  ⟨h'.totalSupply.trans h.totalSupply, h'.burned.trans h.burned, h'.nonces.trans h.nonces⟩

/-- A housekeeping step from `s` to `s'`: it returns, keeps what has to be kept, and on
conserved HKM it does the same in every reading of saturation. -/
structure Closes (E : Node) (x : Node → StateAction) (s s' : ChainState) : Prop where
  returns : x E s = ok ((), s')
  sound : Sound s'
  kept : Kept s s'
  conserved : Conserved s → Conserved s'
  exact : Conserved s → ∀ E', x E' s = ok ((), s')

theorem Closes.fits {x : Node → StateAction} (h : Closes E x s s') (hf : Fits E s) : Fits E s' :=
  hf.imp id h.conserved

theorem Closes.pure (hs : Sound s) : Closes E (fun _ => Pure.pure ()) s s :=
  ⟨rfl, hs, Kept.refl s, id, fun _ _ => rfl⟩

theorem Closes.bind {x y : Node → StateAction} {s₁ s₂ s₃ : ChainState} (h : Closes E x s₁ s₂)
    (h' : Closes E y s₂ s₃) : Closes E (fun E => x E >>= fun _ => y E) s₁ s₃ where
  returns := by rw [Exec.bind_of_ok h.returns, h'.returns]
  sound := h'.sound
  kept := h.kept.trans h'.kept
  conserved hc := h'.conserved (h.conserved hc)
  exact hc E' := by rw [Exec.bind_of_ok (h.exact hc E'), h'.exact (h.conserved hc) E']

/-- A loop closes when its body does on every sound state. -/
theorem Closes.forEach {f : Node → String → StateAction} {l : List String}
    (hf : ∀ b ∈ l, ∀ s, Sound s → Fits E s → ∃ s', Closes E (fun E => f E b) s s') :
    ∀ s, Sound s → Fits E s → ∃ s', Closes E (fun E => Exec.forEach (f E) l) s s' := by
  induction l with
  | nil => exact fun s hs _ => ⟨s, Closes.pure hs⟩
  | cons b rest ih =>
    intro s hs hfit
    obtain ⟨s₁, h₁⟩ := hf b List.mem_cons_self s hs hfit
    obtain ⟨s₂, h₂⟩ := ih (fun b' hb' => hf b' (List.mem_cons_of_mem b hb')) s₁ h₁.sound
      (h₁.fits hfit)
    exact ⟨s₂, h₁.bind h₂⟩

/-! ## Paying out of a reserve -/

/-- What a payout does to the balances when the reserve covers it. -/
structure PaidOut (m m' : BTreeMap UInt64) (reserve account : String) (amount : ℕ) : Prop where
  taken : (valueAt m' reserve).toNat + amount = (valueAt m reserve).toNat
  others : ∀ r, r ≠ reserve → r ≠ account → valueAt m' r = valueAt m r
  sum : (valueAt m account).toNat + amount < 2 ^ 64 → sumOf m' = sumOf m

theorem PaidOut.zero (m : BTreeMap UInt64) (reserve account : String) :
    PaidOut m m reserve account 0 :=
  ⟨rfl, fun _ _ _ => rfl, fun _ => rfl⟩

/-- A payout that the reserve covers returns, in the same way whenever the sum fits. -/
theorem payOut_total (hne : account ≠ reserve)
    (hle : amount.toNat ≤ (valueAt s.balances reserve).toNat)
    (hfit : E.saturation = .clamp ∨
      (valueAt s.balances account).toNat + amount.toNat < 2 ^ 64) :
    ∃ m, payOut E reserve account amount s = ok ((), s.setBalances m) ∧
      PaidOut s.balances m reserve account amount.toNat ∧
      ((valueAt s.balances account).toNat + amount.toNat < 2 ^ 64 →
        ∀ E', payOut E' reserve account amount s = ok ((), s.setBalances m)) := by
  unfold payOut
  split
  · have hd := debit_of_le hle
    set rest := valueAt s.balances reserve - amount
    have hr : rest.toNat + amount.toNat = (valueAt s.balances reserve).toNat :=
      Word.checkedSub_eq_some.mp (Word.checkedSub_of_le hle)
    have hread : valueAt (s.setBalance reserve rest).balances account =
        valueAt s.balances account :=
      valueAt_insert_of_ne rest hne.symm
    rw [← hread] at hfit
    obtain ⟨balance, hb⟩ := add_total hfit
    refine ⟨(s.balances.insert reserve rest).insert account balance, ?_, ⟨?_, ?_, ?_⟩, ?_⟩
    · rw [Exec.bind_of_ok (attempt_of_ok hd)]
      exact credit_eq_ok.mpr ⟨balance, hb, rfl⟩
    · rw [valueAt_insert_of_ne balance hne, valueAt_insert_self]
      exact hr
    · intro r hr₁ hr₂
      rw [valueAt_insert_of_ne balance hr₂.symm, valueAt_insert_of_ne rest hr₁.symm]
    · intro hlt
      have hex := Word.Saturation.toNat_of_add hb (by rw [hread]; exact hlt)
      have h₁ := sumOf_insert s.balances reserve rest
      have h₂ := sumOf_insert (s.balances.insert reserve rest) account balance
      rw [setBalance_balances] at hex
      omega
    · intro hlt E'
      rw [← hread] at hlt
      rw [Word.Saturation.add_of_lt _ hlt] at hb
      rw [Exec.bind_of_ok (attempt_of_ok hd)]
      exact credit_eq_ok.mpr ⟨balance, by rw [Word.Saturation.add_of_lt _ hlt, hb], rfl⟩
  · rename_i h0
    have hz : amount = 0 := by
      rw [UInt64.lt_iff_toNat_lt, UInt64.toNat_zero] at h0
      exact Word.toNat_ext (by rw [UInt64.toNat_zero]; omega)
    rw [hz]
    exact ⟨s.balances, rfl, PaidOut.zero _ _ _, fun _ _ => rfl⟩

/-- On conserved HKM an account and a reserve leave room for each other. -/
theorem Conserved.room (h : Conserved s) (hne : account ≠ reserve)
    (hle : amount.toNat ≤ (valueAt s.balances reserve).toNat) :
    (valueAt s.balances account).toNat + amount.toNat < 2 ^ 64 := by
  have h₁ := valueAt_add_le_sumOf s.balances hne
  have h₂ := h.sumOf_lt
  omega

/-! ## Unbonding stake -/

/-- The entries that have matured at a height, and the others. -/
def matured (height : UInt64) (entries : List UnbondingEntry) : List UnbondingEntry :=
  entries.filter fun e => e.releaseHeight ≤ height

def unmatured (height : UInt64) (entries : List UnbondingEntry) : List UnbondingEntry :=
  entries.filter fun e => ¬ e.releaseHeight ≤ height

theorem entriesSum_partition (height : UInt64) (entries : List UnbondingEntry) :
    entriesSum (matured height entries) + entriesSum (unmatured height entries) =
      entriesSum entries := by
  induction entries with
  | nil => rfl
  | cons e rest ih =>
    simp only [matured, unmatured, entriesSum, List.filter_cons] at ih ⊢
    by_cases h : e.releaseHeight ≤ height
    · simp only [h, decide_true, if_true, not_true, decide_false, Bool.false_eq_true, if_false,
        List.map_cons, List.sum_cons]
      omega
    · simp only [h, decide_false, Bool.false_eq_true, if_false, not_false_iff, decide_true,
        if_true, List.map_cons, List.sum_cons]
      omega

/-- On a sound ledger the matured entries add up, and the pool covers them. -/
theorem takeMatured_total (hs : Sound s) (height : UInt64) (account : String) :
    ∃ released m, takeMatured height account s = ok (released, s.setUnbonding m) ∧
      unbondingSum m + released.toNat = unbondingSum s.unbonding ∧
      (∀ k, k ∈ m → k ∈ s.unbonding) := by
  unfold takeMatured
  cases hl : s.unbonding[account]? with
  | none => exact ⟨0, s.unbonding, rfl, rfl, fun _ hk => hk⟩
  | some entries =>
    have hpart := entriesSum_partition height entries
    have hle := entriesSum_le_unbondingSum s.unbonding account
    rw [hl, Option.getD_some] at hle
    have hpool := hs.staking
    unfold StakingBacked at hpool
    have hlt := Word.toNat_lt (valueAt s.balances stakingPoolAccount)
    have hw := unbondingSum_writeEntries s.unbonding account (unmatured height entries)
    rw [hl, Option.getD_some] at hw
    have hsum : Word.checkedSum ((matured height entries).map (·.amount)) =
        some (UInt64.ofNat (entriesSum (matured height entries))) := by
      have hmap : ((matured height entries).map (·.amount)).map UInt64.toNat =
          (matured height entries).map fun e => e.amount.toNat := List.map_map
      rw [entriesSum, ← hmap]
      refine Word.checkedSum_of_lt ?_
      rw [hmap]
      change entriesSum (matured height entries) < _
      omega
    refine ⟨UInt64.ofNat (entriesSum (matured height entries)),
      writeEntries s.unbonding account (unmatured height entries), ?_, ?_, ?_⟩
    · change (plain (Word.checkedSum ((matured height entries).map (·.amount))) >>= _) = _
      rw [hsum, plain_some, ok_bind]
      rfl
    · rw [Word.toNat_ofNat_of_lt (by omega)]
      omega
    · intro k hk
      rw [Std.ExtTreeMap.mem_iff_isSome_getElem?, lookup_writeEntries] at hk
      split at hk
      · rename_i ha
        exact ha ▸ mem_of_lookup hl
      · exact Std.ExtTreeMap.mem_iff_isSome_getElem?.mpr hk

/-- Removing a staker without stake keeps the invariant. -/
theorem Sound.eraseStaker (hs : Sound s) {info : StakeInfo} (hi : s.stakers[account]? = some info)
    (h0 : info.stake = 0) : Sound (s.eraseStaker account) := by
  refine hs.withStake ⟨fun k hk => ?_, hs.addressed.unbonding, hs.addressed.vesting⟩ ?_ rfl rfl
  · exact hs.addressed.staker k (Std.ExtTreeMap.mem_of_mem_erase hk)
  · have h₁ := bondedTotal_erase s.stakers account
    have h₂ := hs.staking
    rw [stakeAt_of_lookup hi, h0, UInt64.toNat_zero] at h₁
    unfold StakingBacked at h₂ ⊢
    omega

/-- A fully exited validator leaves. -/
def dropExited (account : String) (s : ChainState) : ChainState :=
  if (s.stakers[account]?.any fun i => i.stake = 0) ∧ ¬ account ∈ s.unbonding then
    s.eraseStaker account
  else s

theorem Closes.dropExited (hs : Sound s) (account : String) :
    Closes E (fun _ => modify (dropExited account)) s (dropExited account s) := by
  have h : Sound (ChainState.dropExited account s) ∧ Kept s (ChainState.dropExited account s) ∧
      (Conserved s → Conserved (ChainState.dropExited account s)) := by
    unfold ChainState.dropExited
    split
    · rename_i hexit
      obtain ⟨info, hi, h0⟩ := (Option.any_eq_true _ _).mp hexit.1
      exact ⟨hs.eraseStaker hi (of_decide_eq_true h0), ⟨rfl, rfl, rfl⟩, id⟩
    · exact ⟨hs, Kept.refl s, id⟩
  exact ⟨rfl, h.1, h.2.1, h.2.2, fun _ _ => rfl⟩

theorem releaseUnbonding_eq (E : Node) (height : UInt64) (account : String) :
    releaseUnbonding E height account =
      (Exec.readWrite (takeMatured height account) >>= fun released =>
        payOut E stakingPoolAccount account released) >>= fun _ => modify (dropExited account) := by
  rw [Exec.bind_assoc]
  rfl

/-- Releasing the unbonding stake of an address. -/
theorem Closes.releaseUnbonding (hs : Sound s) (hfit : Fits E s)
    (hv : isValidAddress account = true) (height : UInt64) :
    ∃ s', Closes E (fun E => releaseUnbonding E height account) s s' := by
  obtain ⟨released, m, htake, hsum, hkeys⟩ := takeMatured_total hs height account
  have hpool := hs.staking
  unfold StakingBacked at hpool
  have hle : released.toNat ≤ (valueAt s.balances stakingPoolAccount).toNat := by omega
  have hroom := fun hc : Conserved s => hc.room (ne_stakingPool hv) hle
  obtain ⟨b, hpay, hpaid, hexact⟩ := payOut_total (s := s.setUnbonding m) (ne_stakingPool hv) hle
    (hfit.imp id hroom)
  have hs₂ : Sound ((s.setUnbonding m).setBalances b) := by
    refine hs.withStake ⟨hs.addressed.staker, fun k hk => hs.addressed.unbonding k (hkeys k hk),
      hs.addressed.vesting⟩ ?_ ?_ ?_
    · have h := hpaid.taken
      change _ = (valueAt s.balances stakingPoolAccount).toNat at h
      change (valueAt b stakingPoolAccount).toNat = bondedTotal s.stakers + unbondingSum m
      omega
    · exact hpaid.others _ (by decide) (ne_vestingPool hv).symm
    · exact hpaid.others _ (by decide) (ne_ammPool hv).symm
  have hfirst : Closes E (fun E => Exec.readWrite (takeMatured height account) >>= fun released =>
      payOut E stakingPoolAccount account released) s ((s.setUnbonding m).setBalances b) := by
    refine ⟨?_, hs₂, ⟨rfl, rfl, rfl⟩, ?_, ?_⟩
    · rw [Exec.bind_of_ok (readWrite_eq_ok.mpr htake), hpay]
    · intro hc
      have h := hpaid.sum (hroom hc)
      unfold Conserved at hc ⊢
      change sumOf b = sumOf s.balances at h
      change sumOf b + s.feePot.toNat = s.totalSupply.toNat
      omega
    · intro hc E'
      rw [Exec.bind_of_ok (readWrite_eq_ok.mpr htake), hexact (hroom hc) E']
  simp only [releaseUnbonding_eq]
  exact ⟨_, hfirst.bind (Closes.dropExited hs₂ account)⟩

/-! ## Vested tokens -/

/-- A sound schedule has vested some amount up to its total. -/
theorem vestedAt_total {e : VestingEntry} (he : ScheduleSound e) (height : UInt64) :
    ∃ vested, e.vestedAt height = ok vested ∧ vested.toNat ≤ e.total.toNat := by
  obtain ⟨-, hcliff, hspan⟩ := he
  unfold VestingEntry.vestedAt
  split
  · exact ⟨0, rfl, Nat.zero_le _⟩
  · rename_i h₁
    rw [UInt64.lt_iff_toNat_lt, not_lt] at h₁
    split
    · exact ⟨e.total, rfl, le_rfl⟩
    · rename_i h₂
      rw [UInt64.le_iff_toNat_le, not_le] at h₂
      have hel : Word.checkedSub height e.startHeight = some (height - e.startHeight) :=
        Word.checkedSub_of_le (by omega)
      have hsp : Word.checkedSub e.endHeight e.startHeight = some (e.endHeight - e.startHeight) :=
        Word.checkedSub_of_le (by omega)
      have hel' := Word.checkedSub_eq_some.mp hel
      have hsp' := Word.checkedSub_eq_some.mp hsp
      have hpos : 0 < (e.endHeight - e.startHeight).toNat := by omega
      have hle : e.total.toNat * (height - e.startHeight).toNat /
          (e.endHeight - e.startHeight).toNat ≤ e.total.toNat := by
        refine Nat.div_le_of_le_mul ?_
        rw [Nat.mul_comm]
        exact Nat.mul_le_mul_right _ (by omega)
      have hlt := Word.toNat_lt e.total
      rw [hel, plain_some, ok_bind, hsp, plain_some, ok_bind, Word.mulDiv_of_pos hpos,
        plain_some, ok_bind]
      exact ⟨_, rfl, by rw [Word.toNat_ofNat_of_lt (by omega)]; exact hle⟩

/-- Accruing a sound schedule moves what it releases out of what it holds back. -/
theorem accrue_total {e : VestingEntry} (he : ScheduleSound e) (height : UInt64) :
    ∃ fresh e', e.accrue height = ok (fresh, e') ∧ ScheduleSound e' ∧
      fresh.toNat + (e'.total.toNat - e'.released.toNat) =
        e.total.toNat - e.released.toNat := by
  obtain ⟨vested, hv, hle⟩ := vestedAt_total he height
  unfold VestingEntry.accrue
  rw [hv, ok_bind]
  split
  · rename_i hlt
    rw [UInt64.lt_iff_toNat_lt] at hlt
    have hsub : Word.checkedSub vested e.released = some (vested - e.released) :=
      Word.checkedSub_of_le hlt.le
    have hfresh := Word.checkedSub_eq_some.mp hsub
    rw [hsub, plain_some, ok_bind]
    refine ⟨_, _, rfl, ⟨hle, he.2⟩, ?_⟩
    change (vested - e.released).toNat + (e.total.toNat - vested.toNat) = _
    omega
  · exact ⟨0, e, rfl, he, by rw [UInt64.toNat_zero]; omega⟩

/-- Accruing sound schedules whose locked amounts fit. -/
theorem accrueAll_total (height : UInt64) (entries : List VestingEntry) :
    ∀ acc : UInt64, (∀ e ∈ entries, ScheduleSound e) →
      acc.toNat + lockedSum entries < 2 ^ 64 →
      ∃ released entries', VestingEntry.accrueAll height acc entries = ok (released, entries') ∧
        (∀ e ∈ entries', ScheduleSound e) ∧
        released.toNat + lockedSum entries' = acc.toNat + lockedSum entries := by
  induction entries with
  | nil => exact fun acc _ _ => ⟨acc, [], rfl, by simp, rfl⟩
  | cons e rest ih =>
    intro acc he hlt
    have hcons : ∀ (e : VestingEntry) l,
        lockedSum (e :: l) = (e.total.toNat - e.released.toNat) + lockedSum l := fun _ _ => rfl
    rw [hcons] at hlt ⊢
    obtain ⟨fresh, e', hacc, hsound, hbal⟩ := accrue_total (he e List.mem_cons_self) height
    have hadd : Word.checkedAdd acc fresh = some (acc + fresh) :=
      Word.checkedAdd_of_lt (by omega)
    have hsum := Word.checkedAdd_eq_some.mp hadd
    obtain ⟨released, rest', hrest, hsounds, hrel⟩ := ih (acc + fresh)
      (fun e' h => he e' (List.mem_cons_of_mem e h)) (by omega)
    refine ⟨released, e' :: rest', ?_, ?_, ?_⟩
    · simp only [VestingEntry.accrueAll, hacc, ok_bind, hadd, plain_some, hrest, pure_eq]
    · intro e'' h
      rcases List.mem_cons.mp h with rfl | h
      · exact hsound
      · exact hsounds e'' h
    · rw [hcons]
      omega

/-- Completed schedules hold nothing back. -/
theorem lockedSum_filter_open (entries : List VestingEntry) :
    lockedSum (entries.filter fun e => e.released < e.total) = lockedSum entries := by
  induction entries with
  | nil => rfl
  | cons e rest ih =>
    rw [List.filter_cons]
    split
    · simp only [lockedSum, List.map_cons, List.sum_cons] at ih ⊢
      rw [ih]
    · rename_i h
      simp only [UInt64.lt_iff_toNat_lt, decide_eq_true_eq, not_lt] at h
      simp only [lockedSum, List.map_cons, List.sum_cons] at ih ⊢
      rw [ih, Nat.sub_eq_zero_of_le h, Nat.zero_add]

/-- On a sound ledger the newly vested amounts add up, and the pool covers them. -/
theorem takeVested_total (hs : Sound s) (height : UInt64) (recipient : String) :
    ∃ released m, takeVested height recipient s = ok (released, s.setVesting m) ∧
      lockedTotal m + released.toNat = lockedTotal s.vesting ∧ SchedulesSound m ∧
      (∀ k, k ∈ m → k ∈ s.vesting) := by
  unfold takeVested
  cases hl : s.vesting[recipient]? with
  | none => exact ⟨0, s.vesting, rfl, rfl, hs.schedules, fun _ hk => hk⟩
  | some entries =>
    have hpool := hs.vesting
    unfold VestingBacked at hpool
    have hlt := Word.toNat_lt (valueAt s.balances vestingPoolAccount)
    have hle := lockedSum_le_lockedTotal s.vesting recipient
    rw [hl, Option.getD_some] at hle
    obtain ⟨released, entries', hacc, hsound, hrel⟩ := accrueAll_total height entries 0
      (hs.schedules recipient entries hl) (by rw [UInt64.toNat_zero]; omega)
    rw [UInt64.toNat_zero] at hrel
    have hopen := lockedSum_filter_open entries'
    set kept := entries'.filter fun e => e.released < e.total
    have hw := lockedTotal_writeEntries s.vesting recipient kept
    rw [hl, Option.getD_some] at hw
    refine ⟨released, writeEntries s.vesting recipient kept, ?_, by omega, ?_, ?_⟩
    · simp only [hacc, ok_bind]
      rfl
    · intro k l hk e he
      rw [lookup_writeEntries] at hk
      split at hk
      · split at hk
        · cases hk
        · rw [Option.some.injEq] at hk
          rw [← hk] at he
          exact hsound e (List.mem_of_mem_filter he)
      · exact hs.schedules k l hk e he
    · intro k hk
      rw [Std.ExtTreeMap.mem_iff_isSome_getElem?, lookup_writeEntries] at hk
      split at hk
      · rename_i ha
        exact ha ▸ mem_of_lookup hl
      · exact Std.ExtTreeMap.mem_iff_isSome_getElem?.mpr hk

/-- Releasing what has vested for an address. -/
theorem Closes.releaseVesting (hs : Sound s) (hfit : Fits E s)
    (hv : isValidAddress account = true) (height : UInt64) :
    ∃ s', Closes E (fun E => releaseVesting E height account) s s' := by
  obtain ⟨released, m, htake, hsum, hsched, hkeys⟩ := takeVested_total hs height account
  have hpool := hs.vesting
  unfold VestingBacked at hpool
  have hle : released.toNat ≤ (valueAt s.balances vestingPoolAccount).toNat := by omega
  have hroom := fun hc : Conserved s => hc.room (ne_vestingPool hv) hle
  obtain ⟨b, hpay, hpaid, hexact⟩ := payOut_total (s := s.setVesting m) (ne_vestingPool hv) hle
    (hfit.imp id hroom)
  have hs₂ : Sound ((s.setVesting m).setBalances b) := by
    refine hs.withVesting (fun k hk => hs.addressed.vesting k (hkeys k hk)) hsched ?_ ?_ ?_
    · have h := hpaid.taken
      change _ = (valueAt s.balances vestingPoolAccount).toNat at h
      change (valueAt b vestingPoolAccount).toNat = lockedTotal m
      omega
    · exact hpaid.others _ (by decide) (ne_stakingPool hv).symm
    · exact hpaid.others _ (by decide) (ne_ammPool hv).symm
  refine ⟨(s.setVesting m).setBalances b, ?_, hs₂, ⟨rfl, rfl, rfl⟩, ?_, ?_⟩
  · change (Exec.readWrite (takeVested height account) >>= _) s = _
    rw [Exec.bind_of_ok (readWrite_eq_ok.mpr htake), hpay]
  · intro hc
    have h := hpaid.sum (hroom hc)
    unfold Conserved at hc ⊢
    change sumOf b = sumOf s.balances at h
    change sumOf b + s.feePot.toNat = s.totalSupply.toNat
    omega
  · intro hc E'
    change (Exec.readWrite (takeVested height account) >>= _) s = _
    rw [Exec.bind_of_ok (readWrite_eq_ok.mpr htake), hexact (hroom hc) E']

/-! ## The base fee -/

/-- Clamping puts a fee between its bounds. -/
theorem feeBounded_clamp (fee : UInt64) : FeeBounded (max txFee (min fee baseFeeMax)) := by
  have h₁ : txFee.toNat = 1000 := rfl
  have h₂ : baseFeeMax.toNat = 100000000 := rfl
  unfold FeeBounded
  rw [Word.max_toNat, Word.min_toNat, h₁, h₂]
  omega

/-- How far the base fee moves for a distance from the target. -/
def baseFeeStep (current distance : UInt64) : UInt64 :=
  max (Word.saturatingMul (max (current / 8) 1) distance / baseFeeTargetTxs) 1

/-- The step is at most the quotient it is computed from, and far from the boundary. -/
theorem baseFeeStep_le (current distance : UInt64) :
    (baseFeeStep current distance).toNat ≤
      max (max (current.toNat / 8) 1 * distance.toNat / 50) 1 ∧
    (baseFeeStep current distance).toNat ≤ (2 ^ 64 - 1) / 50 := by
  have h₁ : baseFeeTargetTxs.toNat = 50 := rfl
  have h₂ : (8 : UInt64).toNat = 8 := rfl
  have h₃ := Word.saturatingMul_toNat (max (current / 8) 1) distance
  rw [baseFeeStep, Word.max_toNat, UInt64.toNat_div, h₁, UInt64.toNat_one, h₃, Word.max_toNat,
    UInt64.toNat_div, h₂, UInt64.toNat_one]
  refine ⟨max_le_max (Nat.div_le_div_right (min_le_left _ _)) le_rfl, ?_⟩
  omega

/-- Between its bounds the base fee always steps, and in the same way in every reading of
saturation. -/
theorem nextBaseFee_total {current : UInt64} (hc : FeeBounded current) (txs : UInt64) :
    ∃ next, (∀ E, nextBaseFee E current txs = ok next) ∧ FeeBounded next := by
  have h₁ : txFee.toNat = 1000 := rfl
  have h₂ : baseFeeMax.toNat = 100000000 := rfl
  have h₃ : baseFeeTargetTxs.toNat = 50 := rfl
  obtain ⟨hlo, hhi⟩ := hc
  by_cases heq : txs = baseFeeTargetTxs
  · refine ⟨max txFee (min current baseFeeMax), fun E => ?_, feeBounded_clamp current⟩
    simp only [nextBaseFee, if_pos heq, pure_eq]
  · by_cases hlt : baseFeeTargetTxs < txs
    · have hsub : Word.checkedSub txs baseFeeTargetTxs = some (txs - baseFeeTargetTxs) :=
        Word.checkedSub_of_le (UInt64.lt_iff_toNat_lt.mp hlt).le
      obtain ⟨-, hstep⟩ := baseFeeStep_le current (txs - baseFeeTargetTxs)
      refine ⟨max txFee (min (current + baseFeeStep current (txs - baseFeeTargetTxs)) baseFeeMax),
        fun E => ?_, feeBounded_clamp _⟩
      simp only [nextBaseFee, if_neg heq, if_pos hlt, hsub, plain_some, ok_bind, pure_eq]
      change (plain (E.saturation.add current (baseFeeStep current _)) >>= _) = _
      rw [Word.Saturation.add_of_lt E.saturation (by omega), plain_some, ok_bind]
    · have hge := hlt
      rw [UInt64.lt_iff_toNat_lt, not_lt] at hge
      have hsub : Word.checkedSub baseFeeTargetTxs txs = some (baseFeeTargetTxs - txs) :=
        Word.checkedSub_of_le hge
      have hdist := Word.checkedSub_eq_some.mp hsub
      obtain ⟨hstep, -⟩ := baseFeeStep_le current (baseFeeTargetTxs - txs)
      have hmul : max (current.toNat / 8) 1 * (baseFeeTargetTxs - txs).toNat ≤
          max (current.toNat / 8) 1 * 50 := Nat.mul_le_mul_left _ (by omega)
      refine ⟨max txFee (min (current - baseFeeStep current (baseFeeTargetTxs - txs)) baseFeeMax),
        fun E => ?_, feeBounded_clamp _⟩
      simp only [nextBaseFee, if_neg heq, if_neg hlt, hsub, plain_some, ok_bind, pure_eq]
      change (plain (E.saturation.sub current (baseFeeStep current _)) >>= _) = _
      rw [Word.Saturation.sub_of_le E.saturation (by omega), plain_some, ok_bind]

/-- The number of fee-paying transactions, as `settleFees` estimates it. -/
def feePayingTxs (s : ChainState) : UInt64 := if 0 < s.baseFee then s.feePot / s.baseFee else 0

/-- Settling the fees empties the pot. -/
theorem Closes.settleFees (hs : Sound s) (hfit : Fits E s) {validator : String}
    (hv : isValidAddress validator = true) :
    ∃ s', Closes E (fun E => settleFees E validator) s s' ∧ s'.feePot = 0 := by
  obtain ⟨next, hnext, hbound⟩ := nextBaseFee_total hs.baseFee (feePayingTxs s)
  have hbase : ∀ E', Exec.update (fun s : ChainState => do
      let feePayingTxs := if 0 < s.baseFee then s.feePot / s.baseFee else 0
      let baseFee ← nextBaseFee E' s.baseFee feePayingTxs
      return s.setBaseFee baseFee) s = ok ((), s.setBaseFee next) := by
    intro E'
    rw [update_eq_ok]
    change (nextBaseFee E' s.baseFee (feePayingTxs s) >>= _) = _
    rw [hnext E', ok_bind]
    rfl
  have hroom : Conserved s →
      (valueAt s.balances validator).toNat + s.feePot.toNat < 2 ^ 64 := by
    intro hc
    have h₁ := valueAt_le_sumOf s.balances validator
    have h₂ := hc.sumOf_lt
    omega
  by_cases h0 : 0 < s.feePot
  · obtain ⟨balance, hb⟩ := add_total (hfit.imp id hroom)
    have hcredit : ∀ {E'} {balance : UInt64},
        E'.saturation.add (valueAt s.balances validator) s.feePot = some balance →
        ChainState.settleFees E' validator s =
          ok ((), ((s.setBaseFee next).setFeePot 0).setBalance validator balance) := by
      intro E' balance hb
      unfold ChainState.settleFees
      rw [Exec.bind_of_ok (hbase E'), Exec.read_ok_bind,
        setBaseFee_feePot, if_pos h0, Exec.bind_of_ok (modify_apply _ _)]
      exact credit_eq_ok.mpr ⟨balance, hb, rfl⟩
    refine ⟨((s.setBaseFee next).setFeePot 0).setBalance validator balance,
      ⟨hcredit hb, ((hs.setBaseFee hbound).setFeePot 0).setBalance hv balance, ⟨rfl, rfl, rfl⟩,
        ?_, ?_⟩, rfl⟩
    · intro hc
      have h₁ := Word.Saturation.toNat_of_add hb (hroom hc)
      have h₂ := sumOf_insert s.balances validator balance
      unfold Conserved at hc ⊢
      change sumOf (s.balances.insert validator balance) + (0 : UInt64).toNat = _
      rw [UInt64.toNat_zero]
      change _ = s.totalSupply.toNat
      omega
    · intro hc E'
      rw [Word.Saturation.add_of_lt _ (hroom hc)] at hb
      exact hcredit (by rw [Word.Saturation.add_of_lt _ (hroom hc), hb])
  · have hpot : s.feePot = 0 := by
      rw [UInt64.lt_iff_toNat_lt, UInt64.toNat_zero] at h0
      exact Word.toNat_ext (by rw [UInt64.toNat_zero]; omega)
    have hskip : ∀ E', ChainState.settleFees E' validator s = ok ((), s.setBaseFee next) := by
      intro E'
      unfold ChainState.settleFees
      rw [Exec.bind_of_ok (hbase E'), Exec.read_ok_bind,
        setBaseFee_feePot, if_neg h0]
      rfl
    exact ⟨s.setBaseFee next, ⟨hskip E, hs.setBaseFee hbound, ⟨rfl, rfl, rfl⟩, id,
      fun _ => hskip⟩, hpot⟩

/-! ## The whole of it -/

/-- A computation that reads a value first closes when the rest does. -/
theorem Closes.read {α : Type} {f : ChainState → α} {x : Node → α → StateAction}
    (h : Closes E (fun E => x E (f s)) s s') :
    Closes E (fun E => Exec.read (fun s => ok (f s)) >>= x E) s s' where
  returns := by rw [Exec.read_ok_bind, h.returns]
  sound := h.sound
  kept := h.kept
  conserved := h.conserved
  exact hc E' := by rw [Exec.read_ok_bind, h.exact hc E']

/-- The part of `end_block` before the fees: what has matured and what has vested is paid. -/
def releaseDue (E : Node) (height : UInt64) : StateAction := do
  let accounts ← Exec.read fun s => ok s.unbonding.keys
  forEach (releaseUnbonding E height) accounts
  let recipients ← Exec.read fun s => ok s.vesting.keys
  forEach (releaseVesting E height) recipients

theorem endBlock_eq (E : Node) (height : UInt64) (validator : String) :
    endBlock E height validator = releaseDue E height >>= fun _ => settleFees E validator := by
  simp only [endBlock, releaseDue, Exec.bind_assoc]

/-- The three parts of closing a block. -/
theorem endBlock_parts {validator : String} (h : endBlock E height validator s = ok ((), s')) :
    ∃ unbonded vested, forEach (releaseUnbonding E height) s.unbonding.keys s = ok ((), unbonded) ∧
      forEach (releaseVesting E height) unbonded.vesting.keys unbonded = ok ((), vested) ∧
      settleFees E validator vested = ok ((), s') := by
  simp only [endBlock, Exec.bind_eq_ok, read_eq_ok, ok.injEq] at h
  obtain ⟨_, _, ⟨rfl, rfl⟩, _, unbonded, hu, _, _, ⟨rfl, rfl⟩, _, vested, hv, hs⟩ := h
  exact ⟨unbonded, vested, hu, hv, hs⟩

/-- On a sound ledger the releases return and keep the invariant. -/
theorem Sound.releaseDue (hs : Sound s) (hfit : Fits E s) (height : UInt64) :
    ∃ s', Closes E (fun E => releaseDue E height) s s' := by
  obtain ⟨s₁, h₁⟩ := Closes.forEach (f := fun E a => releaseUnbonding E height a)
    (l := s.unbonding.keys) (fun a ha t ht hfit => Closes.releaseUnbonding ht hfit
      (hs.addressed.unbonding a (Std.ExtTreeMap.mem_keys.mp ha)) height) s hs hfit
  obtain ⟨s₂, h₂⟩ := Closes.forEach (f := fun E a => releaseVesting E height a)
    (l := s₁.vesting.keys) (fun a ha t ht hfit => Closes.releaseVesting ht hfit
      (h₁.sound.addressed.vesting a (Std.ExtTreeMap.mem_keys.mp ha)) height) s₁ h₁.sound
        (h₁.fits hfit)
  exact ⟨s₂, Closes.read (h₁.bind (Closes.read h₂))⟩

/-- On a sound ledger `end_block` returns, keeps the invariant and the supply counters, and
empties the fee pot. -/
theorem Sound.endBlock (hs : Sound s) (hfit : Fits E s) {validator : String}
    (hv : isValidAddress validator = true) (height : UInt64) :
    ∃ s', Closes E (fun E => endBlock E height validator) s s' ∧ s'.feePot = 0 := by
  obtain ⟨due, hdue⟩ := hs.releaseDue hfit height
  obtain ⟨s', hclose, hpot⟩ := Closes.settleFees hdue.sound (hdue.fits hfit) hv
  refine ⟨s', ?_, hpot⟩
  simp only [endBlock_eq]
  exact hdue.bind hclose

/-- The state that `end_block` returns is the one it closes to. -/
theorem Sound.endBlock_ok (hs : Sound s) (hfit : Fits E s) {validator : String}
    (hv : isValidAddress validator = true)
    (h : ChainState.endBlock E height validator s = ok (u, s')) :
    Closes E (fun E => ChainState.endBlock E height validator) s s' ∧ s'.feePot = 0 := by
  obtain ⟨t, hclose, hpot⟩ := hs.endBlock hfit hv height
  have hret := hclose.returns
  rw [h, ok.injEq, Prod.mk.injEq] at hret
  rw [hret.2]
  exact ⟨hclose, hpot⟩

end ChainState
