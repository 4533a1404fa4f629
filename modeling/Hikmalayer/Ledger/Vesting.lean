/-
# Vesting pays what has vested

Every entry that was ever created vests by its own schedule.  At each block boundary the entries
that are left are those not yet paid in full, each with what had vested of it by then as its
released amount, and what an account was ever paid is what had vested for it.
-/
import Mathlib.Tactic
import Hikmalayer.Foundations.Schedule
import Hikmalayer.Ledger.SampleRun
import Hikmalayer.Ledger.Registry
import Hikmalayer.Ledger.Timeline

open Outcome Exec OrderedMap

/-! ## One entry -/

namespace VestingEntry

variable {e : VestingEntry} {last height : UInt64}

/-- What has vested of an entry at a height, as a number. -/
def vested (e : VestingEntry) (height : UInt64) : ℕ :=
  Schedule.vested e.total.toNat e.startHeight.toNat e.cliffHeight.toNat e.endHeight.toNat
    height.toNat

/-- The entry after what had vested at a height was released. -/
def paidUntil (e : VestingEntry) (height : UInt64) : VestingEntry :=
  { e with released := UInt64.ofNat (e.vested height) }

theorem vested_le (he : ChainState.ScheduleSound e) (height : UInt64) :
    e.vested height ≤ e.total.toNat :=
  Schedule.vested_le he.2.2

theorem vested_mono (he : ChainState.ScheduleSound e) (h : last ≤ height) :
    e.vested last ≤ e.vested height :=
  Schedule.vested_mono he.2.2 (UInt64.le_iff_toNat_le.mp h)

theorem paidUntil_released (he : ChainState.ScheduleSound e) (height : UInt64) :
    (e.paidUntil height).released.toNat = e.vested height := by
  have hle := vested_le he height
  have hlt := Word.toNat_lt e.total
  exact Word.toNat_ofNat_of_lt (by omega)

/-- The code's vested amount is the schedule's. -/
theorem vestedAt_eq (he : ChainState.ScheduleSound e) (height : UInt64) :
    ∃ amount, e.vestedAt height = ok amount ∧ amount.toNat = e.vested height := by
  have hle := vested_le he height
  have hlt := Word.toNat_lt e.total
  obtain ⟨-, hcliff, hspan⟩ := he
  unfold vested Schedule.vested at hle ⊢
  unfold vestedAt
  simp only [UInt64.lt_iff_toNat_lt, UInt64.le_iff_toNat_le]
  split
  · exact ⟨0, rfl, rfl⟩
  · rename_i hstarted
    rw [if_neg hstarted] at hle
    split
    · exact ⟨e.total, rfl, rfl⟩
    · rename_i hopen
      rw [if_neg hopen] at hle
      have helapsed : Word.checkedSub height e.startHeight = some (height - e.startHeight) :=
        Word.checkedSub_of_le (by omega)
      have hwhole : Word.checkedSub e.endHeight e.startHeight = some (e.endHeight - e.startHeight) :=
        Word.checkedSub_of_le (by omega)
      have h₁ : (height - e.startHeight).toNat = height.toNat - e.startHeight.toNat :=
        Word.toNat_sub_of_le (by omega)
      have h₂ : (e.endHeight - e.startHeight).toNat = e.endHeight.toNat - e.startHeight.toNat :=
        Word.toNat_sub_of_le (by omega)
      refine ⟨UInt64.ofNat (e.total.toNat * (height.toNat - e.startHeight.toNat) /
        (e.endHeight.toNat - e.startHeight.toNat)), ?_, Word.toNat_ofNat_of_lt (by omega)⟩
      rw [helapsed, plain_some, ok_bind, hwhole, plain_some, ok_bind,
        Word.mulDiv_of_pos (by omega), plain_some, ok_bind, h₁, h₂]
      rfl

/-- Accruing an entry that was paid until an earlier height. -/
theorem accrue_paidUntil (he : ChainState.ScheduleSound e) (h : last ≤ height)
    {fresh : UInt64} {e' : VestingEntry} (ha : (e.paidUntil last).accrue height = ok (fresh, e')) :
    e' = e.paidUntil height ∧ fresh.toNat = e.vested height - e.vested last := by
  have hreleased := paidUntil_released he last
  have hmono := vested_mono he h
  obtain ⟨amount, hamount, hvalue⟩ := vestedAt_eq he height
  have hnow : (e.paidUntil last).vestedAt height = ok amount := hamount
  have hpaid : UInt64.ofNat (e.vested height) = amount := by rw [← hvalue, UInt64.ofNat_toNat]
  unfold accrue at ha
  rw [hnow, ok_bind] at ha
  split at ha
  · simp only [Outcome.bind_eq_ok, plain_eq_ok, Word.checkedSub_eq_some, pure_eq, ok.injEq,
      Prod.mk.injEq] at ha
    obtain ⟨_, hsub, rfl, rfl⟩ := ha
    refine ⟨?_, by omega⟩
    rw [paidUntil, paidUntil, hpaid]
  · rename_i hnot
    rw [pure_eq, ok.injEq, Prod.mk.injEq] at ha
    obtain ⟨rfl, rfl⟩ := ha
    rw [UInt64.lt_iff_toNat_lt] at hnot
    have hsame : e.vested last = e.vested height := by omega
    refine ⟨by rw [paidUntil, paidUntil, hsame], ?_⟩
    rw [UInt64.toNat_zero]
    omega

/-- Accruing entries that were paid until an earlier height. -/
theorem accrueAll_paidUntil (h : last ≤ height) {entries : List VestingEntry} :
    ∀ {acc released : UInt64} {kept : List VestingEntry},
      (∀ e ∈ entries, ChainState.ScheduleSound e) →
      accrueAll height acc (entries.map (paidUntil · last)) = ok (released, kept) →
      kept = entries.map (paidUntil · height) ∧ released.toNat =
        acc.toNat + (entries.map fun e => e.vested height - e.vested last).sum := by
  induction entries with
  | nil =>
    intro acc released kept _ ha
    rw [List.map_nil, accrueAll, ok.injEq, Prod.mk.injEq] at ha
    obtain ⟨rfl, rfl⟩ := ha
    exact ⟨rfl, rfl⟩
  | cons e rest ih =>
    intro acc released kept hsound ha
    rw [List.map_cons, accrueAll] at ha
    simp only [Outcome.bind_eq_ok, plain_eq_ok, Word.checkedAdd_eq_some, pure_eq, ok.injEq,
      Prod.mk.injEq, Prod.exists] at ha
    obtain ⟨fresh, e', he, sum, hsum, released', kept', hrest, rfl, rfl⟩ := ha
    obtain ⟨rfl, hfresh⟩ := accrue_paidUntil (hsound e List.mem_cons_self) h he
    obtain ⟨rfl, htotal⟩ := ih (fun x hx => hsound x (List.mem_cons_of_mem e hx)) hrest
    refine ⟨rfl, ?_⟩
    rw [htotal, List.map_cons, List.sum_cons]
    omega

end VestingEntry

namespace ChainState

variable {E : Node} {g s s' mid : ChainState} {supply : UInt64} {tx : Transaction} {txs : List Transaction}
  {history : List PastBlock} {height amount : UInt64} {a account recipient reserve validator : String}

/-! ## What a block adds -/

/-- The open vesting entries of a beneficiary. -/
def vestingOf (s : ChainState) (a : String) : List VestingEntry := s.vesting[a]?.getD []

/-- The entry that an applied transaction adds for a beneficiary. -/
def vestEntries (height : UInt64) (a : String) (tx : Transaction) : List VestingEntry :=
  if tx.transactionType = .vest ∧ tx.recipient = a then
    [⟨tx.amount, 0, height, height + tx.vestingCliffBlocks.getD 0,
      height + tx.vestingDurationBlocks.getD 0⟩]
  else []

/-- An entry as a block at a height creates it. -/
structure NewEntry (height : UInt64) (e : VestingEntry) : Prop where
  sound : ScheduleSound e
  start : e.startHeight = height
  cliff : e.cliffHeight.toNat ≤ e.endHeight.toNat
  released : e.released = 0
  total : 0 < e.total.toNat

/-- Before the block that creates it, nothing of an entry has vested. -/
theorem NewEntry.vested_zero {e : VestingEntry} {last : UInt64} (h : NewEntry height e)
    (hlast : last < height) : e.vested last = 0 := by
  have hcliff := h.sound.2.1
  rw [h.start] at hcliff
  rw [UInt64.lt_iff_toNat_lt] at hlast
  exact Schedule.vested_before (by omega)

theorem NewEntry.paidUntil_eq {e : VestingEntry} {last : UInt64} (h : NewEntry height e)
    (hlast : last < height) : e.paidUntil last = e := by
  rw [VestingEntry.paidUntil, h.vested_zero hlast]
  exact congrArg (fun released => { e with released }) h.released.symm

theorem verifyForBlock_vest (ht : tx.transactionType = .vest)
    (hver : tx.verifyForBlock E validator = ok ()) : 0 < tx.amount.toNat := by
  simp only [Transaction.verifyForBlock, ht, Outcome.bind_eq_ok, okOr_eq_ok, ensure_eq_ok] at hver
  obtain ⟨_, -, _, hne, -⟩ := hver
  exact Nat.pos_of_ne_zero fun h0 => hne (Word.toNat_ext h0)

/-- Applying a transaction appends its entry, and only vesting transactions have one. -/
theorem applyVerified_vesting (hver : tx.verifyForBlock E validator = ok ())
    (h : applyVerified E tx height s = ok ((), s')) (a : String) :
    s'.vestingOf a = s.vestingOf a ++ vestEntries height a tx ∧
      ∀ e ∈ vestEntries height a tx, NewEntry height e := by
  have hsame : tx.transactionType ≠ .vest → s'.vesting = s.vesting →
      s'.vestingOf a = s.vestingOf a ++ vestEntries height a tx ∧
        ∀ e ∈ vestEntries height a tx, NewEntry height e := by
    intro ht he
    rw [vestEntries, if_neg fun h => ht h.1, List.append_nil, vestingOf, he]
    exact ⟨rfl, nofun⟩
  cases (applyVerified_applied h).2.2 with
  | @signed account effects hm _ he =>
    by_cases hv : tx.transactionType = .vest
    · cases hm with
      | @vest r ht hc =>
        obtain ⟨-, hcliff, hduration, hpos, hle, -⟩ := vestChecks_ok hc
        obtain ⟨_, _, _, cliffHeight, endHeight, -, -, -, hc', hd', rfl⟩ := vestEffects_ok he
        have hcliffHeight : cliffHeight = height + r.cliff :=
          Word.eq_add_of_toNat hc'
        have hendHeight : endHeight = height + r.duration :=
          Word.eq_add_of_toNat hd'
        by_cases ha : tx.recipient = a
        · rw [vestEntries, if_pos ⟨ht, ha⟩, hcliff, hduration, Option.getD_some, Option.getD_some,
            ← hcliffHeight, ← hendHeight]
          refine ⟨?_, ?_⟩
          · rw [vestingOf, setVesting_vesting, ha, lookup_insert_self, Option.getD_some]
            rfl
          · intro e hmem
            rw [List.mem_singleton] at hmem
            rw [hmem]
            refine ⟨⟨Nat.zero_le _, ?_, ?_⟩, rfl, ?_, rfl, verifyForBlock_vest ht hver⟩
            · rw [hc']
              exact Nat.le_add_right _ _
            · rw [hd']
              exact Nat.lt_add_of_pos_right hpos
            · rw [hc', hd']
              exact Nat.add_le_add_left hle _
        · rw [vestEntries, if_neg fun h => ha h.2, List.append_nil, vestingOf, setVesting_vesting,
            lookup_insert_of_ne _ _ ha]
          exact ⟨rfl, nofun⟩
      | _ ht => rw [hv] at ht; cases ht
    · exact hsame hv ((hm.leaves ⟨fun _ _ _ => rfl, fun _ _ => rfl, fun _ _ _ => rfl,
        fun _ _ _ => rfl, fun _ _ _ => rfl⟩ (fun _ _ _ _ => rfl) (fun _ _ _ => rfl)
        (fun ht => absurd ht hv) (fun _ _ _ _ => rfl) (fun _ _ _ _ => rfl)
        (s.setNonce account tx.nonce)).1 _ _ he)
  | reward ht he =>
    exact hsame (by rw [ht]; exact nofun) ((applyReward_leaves (g := ChainState.vesting)
      (fun _ _ _ => rfl) (fun _ _ _ => rfl) s).1 _ _ he)
  | slash ht he =>
    refine hsame (by rw [ht]; exact nofun) ?_
    exact (((Leaves.read ChainState.vesting _).bind fun _ => slashEffects_leaves (fun _ _ _ => rfl)
      (fun _ _ _ => rfl) (fun _ _ _ => rfl) (fun _ _ => rfl) (fun _ _ _ => rfl) _ _) s).1 _ _ he
  | anchor ht _ he => exact hsame (by rw [ht]; exact nofun) (by rw [he])

/-- The entries that a block's transactions add. -/
theorem Applies.vesting (h : Applies E height s mid txs) (a : String) :
    mid.vestingOf a = s.vestingOf a ++ txs.flatMap (vestEntries height a) ∧
      ∀ e ∈ txs.flatMap (vestEntries height a), NewEntry height e := by
  induction h with
  | none => exact ⟨(List.append_nil _).symm, nofun⟩
  | @next t t' txs tx _ _ _ hver ha ih =>
    obtain ⟨hlist, hfresh⟩ := ih
    obtain ⟨hadd, hnew⟩ := applyVerified_vesting hver ha a
    rw [List.flatMap_append, List.flatMap_singleton]
    refine ⟨by rw [hadd, hlist, List.append_assoc], fun e he => ?_⟩
    rcases List.mem_append.mp he with he | he
    · exact hfresh e he
    · exact hnew e he

/-! ## What a block pays -/

/-- A payout to an account that is not the reserve, whether or not the reserve covers it. -/
theorem payOut_credited (hne : account ≠ reserve)
    (h : payOut E reserve account amount s = ok ((), s')) :
    E.saturation.add (valueAt s.balances account) amount = some (valueAt s'.balances account) ∧
      s'.vesting = s.vesting ∧
      ∀ x, x ≠ reserve → x ≠ account → valueAt s'.balances x = valueAt s.balances x := by
  have hvesting := (payOut_leaves (g := ChainState.vesting) (E := E) (fun _ _ _ => rfl) reserve
    s).1 _ _ h
  unfold payOut at h
  split at h
  · obtain ⟨_, t, hd, hc⟩ := Exec.bind_eq_ok.mp h
    obtain ⟨balance, hadd, rfl⟩ := credit_eq_ok.mp hc
    have hread : ∀ x, x ≠ reserve → valueAt t.balances x = valueAt s.balances x := by
      intro x hx
      rcases attempt_ok hd with hok | ⟨e, herr⟩
      · obtain ⟨rest, -, rfl⟩ := debit_eq_ok.mp hok
        exact valueAt_insert_of_ne rest hx.symm
      · rw [(debit_err herr).2]
    rw [hread account hne] at hadd
    refine ⟨?_, hvesting, fun x hx hx' => ?_⟩
    · rw [setBalance_balances, valueAt_insert_self]
      exact hadd
    · rw [setBalance_balances, valueAt_insert_of_ne _ hx'.symm, hread x hx]
  · rename_i h0
    have hz : amount = 0 := by
      rw [UInt64.lt_iff_toNat_lt, UInt64.toNat_zero] at h0
      exact Word.toNat_ext (by rw [UInt64.toNat_zero]; omega)
    rw [pure_apply, ok.injEq, Prod.mk.injEq] at h
    rw [← h.2, hz]
    exact ⟨Word.Saturation.add_zero _ _, rfl, fun _ _ _ => rfl⟩

/-- Accruing the entries of an account reads and writes nothing else. -/
theorem takeVested_ok {released : UInt64}
    (h : takeVested height account s = ok (released, s')) :
    ∃ kept, VestingEntry.accrueAll height 0 (s.vestingOf account) = ok (released, kept) ∧
      s'.balances = s.balances ∧ ∀ x, s'.vestingOf x =
        if account = x then kept.filter fun e => e.released < e.total else s.vestingOf x := by
  unfold takeVested at h
  split at h
  · rename_i hnone
    rw [ok.injEq, Prod.mk.injEq] at h
    obtain ⟨rfl, rfl⟩ := h
    have hnil : s.vestingOf account = [] := by rw [vestingOf, hnone, Option.getD_none]
    refine ⟨[], by rw [hnil]; rfl, rfl, fun x => ?_⟩
    split
    · rename_i hx
      rw [← hx, hnil]
      rfl
    · rfl
  · rename_i entries he
    simp only [Outcome.bind_eq_ok, pure_eq, ok.injEq, Prod.mk.injEq, Prod.exists] at h
    obtain ⟨_, kept, hacc, rfl, rfl⟩ := h
    have hold : s.vestingOf account = entries := by rw [vestingOf, he, Option.getD_some]
    exact ⟨kept, by rw [hold]; exact hacc, rfl, fun x =>
      entries_writeEntries s.vesting account x _⟩

/-- An account's entries were accrued, those paid in full dropped, and what was released was
credited to it. -/
def PaysVested (E : Node) (height : UInt64) (s s' : ChainState) (a : String) : Prop :=
  ∃ released kept, VestingEntry.accrueAll height 0 (s.vestingOf a) = ok (released, kept) ∧
    s'.vestingOf a = kept.filter (fun e => e.released < e.total) ∧
    (a ≠ vestingPoolAccount → E.saturation.add (valueAt s.balances a) released =
      some (valueAt s'.balances a))

/-- An account without entries that stays as it is. -/
theorem PaysVested.none (h : s.vestingOf a = []) (hlist : s'.vestingOf a = [])
    (hbalance : a ≠ vestingPoolAccount → valueAt s'.balances a = valueAt s.balances a) :
    PaysVested E height s s' a := by
  refine ⟨0, [], by rw [h]; rfl, hlist, fun ha => ?_⟩
  rw [hbalance ha]
  exact Word.Saturation.add_zero _ _

/-- Releasing what has vested for one account. -/
theorem releaseVesting_ok (hv : isValidAddress account = true)
    (h : releaseVesting E height account s = ok ((), s')) :
    PaysVested E height s s' account ∧ ∀ x, account ≠ x → s'.vestingOf x = s.vestingOf x ∧
      (x ≠ vestingPoolAccount → valueAt s'.balances x = valueAt s.balances x) := by
  obtain ⟨released, t, htake, hpay⟩ := Exec.bind_eq_ok.mp h
  obtain ⟨kept, hacc, hbalances, hlist⟩ := takeVested_ok (readWrite_eq_ok.mp htake)
  obtain ⟨hadd, hvesting, hothers⟩ := payOut_credited (ne_vestingPool hv) hpay
  have hread : ∀ x, s'.vestingOf x = t.vestingOf x := fun x => by
    rw [vestingOf, hvesting]
    rfl
  refine ⟨⟨released, kept, hacc, ?_, fun _ => ?_⟩, fun x hx => ⟨?_, fun hpool => ?_⟩⟩
  · rw [hread, hlist, if_pos rfl]
  · rw [← hbalances]
    exact hadd
  · rw [hread, hlist, if_neg hx]
  · rw [hothers x hpool (Ne.symm hx), hbalances]

/-- Releasing for the accounts of a list, each once. -/
theorem releaseVesting_forEach {accounts : List String} (hnd : accounts.Nodup)
    (hv : ∀ b ∈ accounts, isValidAddress b = true)
    (h : forEach (releaseVesting E height) accounts s = ok ((), s')) (a : String) :
    (a ∈ accounts → PaysVested E height s s' a) ∧
      (a ∉ accounts → s'.vestingOf a = s.vestingOf a ∧
        (a ≠ vestingPoolAccount → valueAt s'.balances a = valueAt s.balances a)) := by
  induction accounts generalizing s with
  | nil =>
    rw [forEach_nil, ok.injEq, Prod.mk.injEq] at h
    rw [← h.2]
    exact ⟨nofun, fun _ => ⟨rfl, fun _ => rfl⟩⟩
  | cons b rest ih =>
    obtain ⟨hb, hrest⟩ := List.nodup_cons.mp hnd
    rw [forEach_cons] at h
    obtain ⟨_, t, h₁, h₂⟩ := Exec.bind_eq_ok.mp h
    obtain ⟨hone, hothers⟩ := releaseVesting_ok (hv b List.mem_cons_self) h₁
    obtain ⟨hin, hout⟩ := ih hrest (fun c hc => hv c (List.mem_cons_of_mem b hc)) h₂
    by_cases hab : b = a
    · -- the head is paid now, and not again
      obtain ⟨hlist, hbalance⟩ := hout (hab ▸ hb)
      obtain ⟨released, kept, hacc, hkept, hadd⟩ := hone
      rw [hab] at hacc hkept hadd
      refine ⟨fun _ => ⟨released, kept, hacc, hlist.trans hkept, fun ha => ?_⟩, fun hnot =>
        absurd (hab ▸ List.mem_cons_self) hnot⟩
      rw [hbalance ha]
      exact hadd ha
    · obtain ⟨hlist, hbalance⟩ := hothers a hab
      refine ⟨fun ha => ?_, fun ha => ?_⟩
      · obtain ⟨released, kept, hacc, hkept, hadd⟩ :=
          hin ((List.mem_cons.mp ha).resolve_left (Ne.symm hab))
        refine ⟨released, kept, by rw [← hlist]; exact hacc, hkept, fun hpool => ?_⟩
        rw [← hbalance hpool]
        exact hadd hpool
      · obtain ⟨hlist', hbalance'⟩ := hout fun hmem => ha (List.mem_cons_of_mem b hmem)
        exact ⟨hlist'.trans hlist, fun hpool => (hbalance' hpool).trans (hbalance hpool)⟩

/-- Closing a block pays every account what has vested for it. -/
theorem endBlock_paysVested (hs : Sound s) (h : endBlock E height validator s = ok ((), s')) :
    ∃ unbonded vested, forEach (releaseUnbonding E height) s.unbonding.keys s = ok ((), unbonded) ∧
      forEach (releaseVesting E height) unbonded.vesting.keys unbonded = ok ((), vested) ∧
      settleFees E validator vested = ok ((), s') ∧
      ∀ a, unbonded.vestingOf a = s.vestingOf a ∧ s'.vestingOf a = vested.vestingOf a ∧
        PaysVested E height unbonded vested a := by
  obtain ⟨unbonded, vested, hu, hv, hf⟩ := endBlock_parts h
  have hbefore : unbonded.vesting = s.vesting :=
    (Leaves.forEach (fun _ => releaseUnbonding_leaves (g := ChainState.vesting)
      (fun _ _ _ => rfl) (fun _ _ => rfl) fun _ _ => rfl) _ s).1 _ _ hu
  have hafter : s'.vesting = vested.vesting :=
    (settleFees_leaves (g := ChainState.vesting) (fun _ _ _ => rfl) (fun _ _ => rfl)
      (fun _ _ => rfl) vested).1 _ _ hf
  refine ⟨unbonded, vested, hu, hv, hf, fun a => ⟨?_, ?_, ?_⟩⟩
  · rw [vestingOf, hbefore]
    rfl
  · rw [vestingOf, hafter]
    rfl
  · have hvalid : ∀ b ∈ unbonded.vesting.keys, isValidAddress b = true := fun b hb =>
      hs.addressed.vesting b (hbefore ▸ Std.ExtTreeMap.mem_keys.mp hb)
    obtain ⟨hin, hout⟩ := releaseVesting_forEach Std.ExtTreeMap.nodup_keys hvalid hv a
    by_cases ha : a ∈ unbonded.vesting.keys
    · exact hin ha
    · obtain ⟨hlist, hbalance⟩ := hout ha
      have hnone : unbonded.vesting[a]? = none := by
        rw [Std.ExtTreeMap.mem_keys] at ha
        exact Std.ExtTreeMap.getElem?_eq_none ha
      have hnil : unbonded.vestingOf a = [] := by rw [vestingOf, hnone, Option.getD_none]
      exact .none hnil (hlist.trans hnil) hbalance

/-! ## Runs -/

/-- Every entry that a run has created for a beneficiary. -/
def created (history : List PastBlock) (a : String) : List VestingEntry :=
  history.flatMap fun b => b.transactions.flatMap (vestEntries b.height a)

/-- What closing a block releases to a beneficiary. -/
def PastBlock.released (b : PastBlock) (a : String) : ℕ :=
  match takeVested b.height a b.before with
  | ok (released, _) => released.toNat
  | _ => 0

/-- What a run has released to a beneficiary. -/
def paidTo (history : List PastBlock) (a : String) : ℕ := (history.map (·.released a)).sum

theorem created_append (history : List PastBlock) (b : PastBlock) (a : String) :
    created (history ++ [b]) a =
      created history a ++ b.transactions.flatMap (vestEntries b.height a) := by
  rw [created, List.flatMap_append, List.flatMap_singleton]
  rfl

theorem paidTo_append (history : List PastBlock) (b : PastBlock) (a : String) :
    paidTo (history ++ [b]) a = paidTo history a + b.released a := by
  rw [paidTo, List.map_append, List.sum_append, List.map_singleton, List.sum_singleton]
  rfl

/-- What a block releases is what accruing the entries at its close comes to. -/
theorem released_eq {released : UInt64} {kept : List VestingEntry}
    (h : VestingEntry.accrueAll height 0 (s.vestingOf a) = ok (released, kept)) :
    PastBlock.released ⟨height, txs, s⟩ a = released.toNat := by
  unfold PastBlock.released takeVested
  dsimp only
  unfold vestingOf at h
  cases hl : s.vesting[a]? with
  | none =>
    rw [hl, Option.getD_none, VestingEntry.accrueAll, ok.injEq, Prod.mk.injEq] at h
    rw [← h.1]
  | some entries =>
    rw [hl, Option.getD_some] at h
    simp only [h, ok_bind, pure_eq]

/-- At a block boundary: the entries left are those not paid in full, each paid as far as it has
vested, and the payments come to what has vested of all entries. -/
structure Vested (height : UInt64) (entries left : List VestingEntry) (paid : ℕ) : Prop where
  created : ∀ e ∈ entries, ∃ start, NewEntry start e
  left : left = (entries.filter fun e => e.vested height < e.total.toNat).map (·.paidUntil height)
  paid : paid = (entries.map (·.vested height)).sum

/-- New entries, before their block closes. -/
theorem Vested.add {last : UInt64} {entries left more : List VestingEntry} {paid : ℕ}
    (h : Vested last entries left paid) (hlast : last < height)
    (hmore : ∀ e ∈ more, NewEntry height e) : Vested last (entries ++ more) (left ++ more) paid where
  created e he := (List.mem_append.mp he).elim (h.created e) fun he => ⟨height, hmore e he⟩
  left := by
    have hopen : more.filter (fun e => e.vested last < e.total.toNat) = more := by
      refine List.filter_eq_self.mpr fun e he => decide_eq_true ?_
      rw [(hmore e he).vested_zero hlast]
      exact (hmore e he).total
    have hsame : more.map (·.paidUntil last) = more := by
      conv_rhs => rw [← List.map_id more]
      exact List.map_congr_left fun e he => (hmore e he).paidUntil_eq hlast
    rw [List.filter_append, List.map_append, ← h.left, hopen, hsame]
  paid := by
    have hzero : (more.map (·.vested last)).sum = 0 := by
      refine List.sum_eq_zero fun n hn => ?_
      obtain ⟨e, he, rfl⟩ := List.mem_map.mp hn
      exact (hmore e he).vested_zero hlast
    rw [List.map_append, List.sum_append, hzero, ← h.paid, Nat.add_zero]

/-- Accruing at a later height, and dropping what is paid in full. -/
theorem Vested.accrue {last : UInt64} {entries left kept : List VestingEntry} {paid : ℕ}
    {released : UInt64} (h : Vested last entries left paid) (hlast : last < height)
    (ha : VestingEntry.accrueAll height 0 left = ok (released, kept)) :
    Vested height entries (kept.filter fun e => e.released < e.total) (paid + released.toNat) := by
  have hle : last ≤ height := UInt64.le_of_lt hlast
  have hsound : ∀ e ∈ entries, ScheduleSound e := fun e he => (h.created e he).choose_spec.sound
  have hopen : ∀ e ∈ entries.filter (fun e => e.vested last < e.total.toNat), ScheduleSound e :=
    fun e he => hsound e (List.mem_of_mem_filter he)
  rw [h.left] at ha
  obtain ⟨hkept, hreleased⟩ := VestingEntry.accrueAll_paidUntil hle hopen ha
  refine ⟨h.created, ?_, ?_⟩
  · -- an entry that had completed before does not open again
    have hstill := Schedule.filter_filter_open (fun e : VestingEntry => e.total.toNat)
      (·.vested last) (·.vested height) entries fun e he => VestingEntry.vested_mono (hsound e he) hle
    rw [hkept, List.filter_map, ← hstill]
    congr 1
    refine List.filter_congr fun e he => ?_
    refine decide_eq_decide.mpr ?_
    rw [UInt64.lt_iff_toNat_lt, VestingEntry.paidUntil_released (hopen e he) height]
    rfl
  · have hgain := Schedule.sum_gain (fun e : VestingEntry => e.total.toNat) (·.vested last)
      (·.vested height) entries fun e he => ⟨VestingEntry.vested_mono (hsound e he) hle,
        VestingEntry.vested_le (hsound e he) height⟩
    rw [UInt64.toNat_zero, Nat.zero_add] at hreleased
    rw [h.paid, hreleased]
    omega

theorem GenesisState.vesting_empty {supply : UInt64} (hg : GenesisState E supply s) :
    s.vesting = ∅ := by
  induction hg with
  | built _ _ treasuryPublicKey => cases treasuryPublicKey <;> rfl
  | policy _ _ ih => exact ih
  | seated _ _ _ _ ih =>
    unfold seatGenesisValidatorPqKey
    split
    · exact ih
    · split
      · exact ih
      · split
        · exact ih
        · unfold ChainState.unseat
          dsimp only
          split <;> exact ih

/-- Along a run, at every block boundary and for every beneficiary. -/
theorem Timeline.vested (hE : E.saturation = .clamp) (hg : GenesisState E supply g)
    (h : Timeline E g s history) (a : String) :
    Vested (lastHeight history) (created history a) (s.vestingOf a) (paidTo history a) := by
  induction h with
  | start =>
    have hnil : g.vestingOf a = [] := by
      rw [vestingOf, hg.vesting_empty, Std.ExtTreeMap.getElem?_empty, Option.getD_none]
    exact ⟨nofun, hnil, rfl⟩
  | block h hlater htxs _ hend ih =>
    obtain ⟨hlist, hnew⟩ := htxs.vesting a
    obtain ⟨unbonded, vested, -, -, -, hpay⟩ :=
      endBlock_paysVested ((htxs.reachable (h.reachable (.genesis hg))).sound hE) hend
    obtain ⟨hbefore, hafter, released, kept, hacc, hkept, -⟩ := hpay a
    rw [hbefore] at hacc
    rw [lastHeight_append, created_append, paidTo_append, released_eq hacc, hafter, hkept]
    rw [hlist] at hacc
    exact (ih.add hlater hnew).accrue hlater hacc

/-! ## Main results -/

end ChainState

/-- How an entry vests: the code computes what the schedule says, which never goes back, never
exceeds the total, is nothing before the cliff and everything from the end on. -/
structure VestingEntry.Vests (e : VestingEntry) : Prop where
  computed : ∀ height, ∃ amount, e.vestedAt height = ok amount ∧ amount.toNat = e.vested height
  mono : ∀ last height, last ≤ height → e.vested last ≤ e.vested height
  bounded : ∀ height, e.vested height ≤ e.total.toNat
  before : ∀ height, height < e.cliffHeight → e.vested height = 0
  after : ∀ height, e.endHeight ≤ height → e.vested height = e.total.toNat

namespace ChainState

variable {E : Node} {g s : ChainState} {supply : UInt64} {history : List PastBlock}

theorem NewEntry.vests {height : UInt64} {e : VestingEntry} (h : NewEntry height e) : e.Vests where
  computed := VestingEntry.vestedAt_eq h.sound
  mono _ _ := VestingEntry.vested_mono h.sound
  bounded := VestingEntry.vested_le h.sound
  before _ hlt := Schedule.vested_before (UInt64.lt_iff_toNat_lt.mp hlt)
  after _ hle := Schedule.vested_after h.cliff (UInt64.le_iff_toNat_le.mp hle)

/-- Whatever the heights at which blocks closed: a beneficiary has been paid what has vested of
all entries ever created for it, the entries left are those not paid in full, each with what has
vested as its released amount, and the pool holds the rest.  A block that closes next credits
exactly what it adds to the payments, apart from the other parts of closing. -/
theorem vesting_exact (hE : E.saturation = .clamp) (hg : GenesisState E supply g)
    (h : Timeline E g s history) (a : String) :
    paidTo history a = ((created history a).map (·.vested (lastHeight history))).sum ∧
      s.vestingOf a = ((created history a).filter fun e =>
        e.vested (lastHeight history) < e.total.toNat).map (·.paidUntil (lastHeight history)) ∧
      (∀ e ∈ created history a, e.Vests ∧
        ∀ height, (e.paidUntil height).released.toNat = e.vested height) ∧
      VestingBacked s.balances s.vesting ∧
      ∀ height txs mid validator s', lastHeight history < height → Applies E height s mid txs →
        endBlock E height validator mid = ok ((), s') → ∃ unbonded vested released,
          forEach (releaseUnbonding E height) mid.unbonding.keys mid = ok ((), unbonded) ∧
          forEach (releaseVesting E height) unbonded.vesting.keys unbonded = ok ((), vested) ∧
          settleFees E validator vested = ok ((), s') ∧
          paidTo (history ++ [⟨height, txs, mid⟩]) a = paidTo history a + UInt64.toNat released ∧
          (a ≠ vestingPoolAccount → E.saturation.add (valueAt unbonded.balances a) released =
            some (valueAt vested.balances a)) := by
  have hv := h.vested hE hg a
  refine ⟨hv.paid, hv.left, fun e he => ?_, ((h.reachable (.genesis hg)).sound hE).vesting, ?_⟩
  · obtain ⟨_, hnew⟩ := hv.created e he
    exact ⟨hnew.vests, VestingEntry.paidUntil_released hnew.sound⟩
  · intro height txs mid validator s' _ htxs hend
    obtain ⟨unbonded, vested, hu, hvest, hf, hpay⟩ :=
      endBlock_paysVested ((htxs.reachable (h.reachable (.genesis hg))).sound hE) hend
    obtain ⟨hbefore, -, released, kept, hacc, -, hcredit⟩ := hpay a
    rw [hbefore] at hacc
    refine ⟨unbonded, vested, released, hu, hvest, hf, ?_, hcredit⟩
    rw [paidTo_append, released_eq hacc]

end ChainState

namespace Sample

open ChainState

/-- Holder 7 locks a thousand units for holder 8, over four blocks with a cliff after two. -/
def grant : Transaction :=
  { order 7 .vest (address 8) 1000 1 none none
      (Transaction.vestSigningMessage (address 7) (address 8) 1000 2 4 1) with
    vestingCliffBlocks := some 2
    vestingDurationBlocks := some 4 }

theorem grant_verified : grant.verifyForBlock (node []) (address 7) = ok () := by
  have hsigned : grant.verifySenderSignature (env []) (address 7)
      (Transaction.vestSigningMessage (address 7) (address 8) 1000 2 4 1) = ok () :=
    verifySenderSignature_signed schemeOf_seven rfl rfl ⟨rfl, rfl⟩
  exact hsigned

/-- The ledger after the grant in block 1 and an empty block 3. -/
theorem exists_granted : ∃ s history,
    Timeline (node []) (genesis 1000000000000000000) s history ∧ lastHeight history = 3 ∧
      created history (address 8) = [⟨1000, 0, 1, 3, 5⟩] := by
  have hrun : (applyVerified (node []) grant 1 (genesis 1000000000000000000)).returns
      (fun _ => true) = true := by decide +kernel
  obtain ⟨⟨⟨⟩, mid⟩, happly, -⟩ := exists_of_returns hrun
  have hreach : Reachable (node []) (genesis 1000000000000000000) := genesis_reachable _
  have htxs : Applies (node []) 1 (genesis 1000000000000000000) mid ([] ++ [grant]) :=
    Applies.none.next address_valid grant_verified happly
  obtain ⟨s₁, hclose, -⟩ := ((htxs.reachable hreach).sound rfl).endBlock (E := node [])
    (Or.inl rfl) address_valid 1
  have h₁ := (Timeline.start (g := genesis 1000000000000000000)).block (by decide) htxs
    address_valid hclose.returns
  obtain ⟨s₃, hclose', -⟩ := ((h₁.reachable hreach).sound rfl).endBlock (E := node [])
    (Or.inl rfl) address_valid 3
  have hlater : lastHeight ([] ++ [⟨1, [] ++ [grant], mid⟩]) < 3 := by
    rw [lastHeight_append]
    exact UInt64.lt_iff_toNat_lt.mpr (by decide : 1 < 3)
  have hentry : vestEntries 1 (address 8) grant = [⟨1000, 0, 1, 3, 5⟩] := by decide
  refine ⟨s₃, _, h₁.block hlater .none address_valid hclose'.returns, lastHeight_append _ _, ?_⟩
  rw [created_append, created_append, List.nil_append, List.flatMap_singleton, hentry]
  rfl

end Sample

namespace ChainState

/-- Half of the grant is paid after block 3, and the entry is still there. -/
theorem vesting_exact_sample : ∃ s history,
    Timeline (Sample.node []) (Sample.genesis 1000000000000000000) s history ∧
    paidTo history (Sample.address 8) = 500 ∧
    s.vestingOf (Sample.address 8) = [⟨1000, 500, 1, 3, 5⟩] := by
  obtain ⟨s, history, h, hlast, hcreated⟩ := Sample.exists_granted
  obtain ⟨hpaid, hleft, -⟩ := vesting_exact rfl
    (Sample.genesis_state 1000000000000000000) h (Sample.address 8)
  rw [hlast, hcreated] at hpaid hleft
  exact ⟨s, history, h, hpaid.trans (by decide), hleft.trans (by decide)⟩

end ChainState
