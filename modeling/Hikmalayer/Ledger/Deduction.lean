/-
# What a slash takes, and how often

A slash takes its amount from the bonded stake first and the rest from the unbonding entries
in the order of their withdrawals, and records the offense.  Records are never erased, so no
later proof of the same height is applied.  The amount is computed in one word, so the percentage
is exact only while ten times the stake at risk fits.
-/
import Mathlib.Tactic
import Hikmalayer.Consensus.Equivocation
import Hikmalayer.Ledger.Window

open Outcome Exec OrderedMap

namespace ChainState

variable {E : Node} {s s' : ChainState} {tx : Transaction} {height h : UInt64} {v : String} {x : ℕ}

/-! ## Taking from the first entries -/

/-- What is left of the entries when `n` is taken from the first on: the entries that it covers
are gone, the one in which it ends is smaller, the others are as they were. -/
def takenFirst : ℕ → List UnbondingEntry → List UnbondingEntry
  | _, [] => []
  | n, e :: rest =>
    if e.amount.toNat ≤ n then takenFirst (n - e.amount.toNat) rest
    else { e with amount := e.amount - UInt64.ofNat n } :: rest

/-- Every entry of a list has something left. -/
def Filled (entries : List UnbondingEntry) : Prop := ∀ e ∈ entries, 0 < e.amount.toNat

theorem filter_of_filled {entries : List UnbondingEntry} (hf : Filled entries) :
    entries.filter (fun e => 0 < e.amount) = entries := by
  apply List.filter_eq_self.mpr
  intro e he
  rw [decide_eq_true_eq, UInt64.lt_iff_toNat_lt]
  exact hf e he

theorem filled_filter (entries : List UnbondingEntry) :
    Filled (entries.filter fun e => 0 < e.amount) := by
  intro e he
  have hpos := (List.mem_filter.mp he).2
  rwa [decide_eq_true_eq, UInt64.lt_iff_toNat_lt] at hpos

/-- Taking nothing leaves filled entries as they are. -/
theorem takenFirst_zero {entries : List UnbondingEntry} (hf : Filled entries) :
    takenFirst 0 entries = entries := by
  cases entries with
  | nil => rfl
  | cons e rest =>
    have hpos := hf e List.mem_cons_self
    rw [takenFirst, if_neg (by omega)]
    simp

/-- The loop of the code takes from the first entries on. -/
theorem takeFromEntries_takenFirst {entries : List UnbondingEntry} (hf : Filled entries) :
    ∀ {remaining : UInt64} {entries' : List UnbondingEntry},
      takeFromEntries remaining entries = ok entries' →
        entries'.filter (fun e => 0 < e.amount) = takenFirst remaining.toNat entries := by
  induction entries with
  | nil =>
    intro _ entries' hok
    rw [takeFromEntries, ok.injEq] at hok
    exact hok ▸ rfl
  | cons e rest ih =>
    intro remaining entries' hok
    have hpos := hf e List.mem_cons_self
    have hrest : Filled rest := fun e he => hf e (List.mem_cons_of_mem _ he)
    have hmin := Word.min_toNat remaining e.amount
    simp only [takeFromEntries, Outcome.bind_eq_ok, plain_eq_ok, Word.checkedSub_eq_some] at hok
    obtain ⟨amount, hamount, left, hleft, hok⟩ := hok
    rw [takenFirst]
    by_cases hle : e.amount.toNat ≤ remaining.toNat
    · -- the entry is used up
      have hzero : ¬ (0 < amount) := by
        rw [UInt64.lt_iff_toNat_lt, UInt64.toNat_zero]
        omega
      have hleft' : left.toNat = remaining.toNat - e.amount.toNat := by omega
      rw [if_pos hle, ← hleft']
      split at hok
      · rename_i h0
        rw [pure_eq, ok.injEq] at hok
        rw [← hok, List.filter_cons_of_neg (by simpa using hzero), filter_of_filled hrest, h0]
        exact (takenFirst_zero hrest).symm
      · simp only [Outcome.bind_eq_ok, pure_eq, ok.injEq] at hok
        obtain ⟨rest', hok, rfl⟩ := hok
        rw [List.filter_cons_of_neg (by simpa using hzero)]
        exact ih hrest hok
    · -- the amount ends in this entry
      have hdone : left = 0 := Word.toNat_ext (by rw [UInt64.toNat_zero]; omega)
      have hsome : 0 < amount := by
        rw [UInt64.lt_iff_toNat_lt, UInt64.toNat_zero]
        omega
      have hword : amount = e.amount - UInt64.ofNat remaining.toNat := by
        rw [UInt64.ofNat_toNat]
        apply Word.toNat_ext
        rw [UInt64.toNat_sub_of_le _ _ (by rw [UInt64.le_iff_toNat_le]; omega)]
        omega
      rw [if_pos hdone, pure_eq, ok.injEq] at hok
      rw [if_neg hle, ← hok, List.filter_cons_of_pos (by simpa using hsome),
        filter_of_filled hrest, hword]

/-! ## Entries are never empty -/

/-- All unbonding entries have something left. -/
def EntriesFilled (s : ChainState) : Prop := ∀ k, Filled (s.entriesOf k)

/-- What a slash leaves of the unbonding entries. -/
theorem slashUnbonding_takenFirst {remaining : UInt64} (hf : s.EntriesFilled)
    (hu : slashUnbonding v remaining s = ok ((), s')) :
    s'.entriesOf v = takenFirst remaining.toNat (s.entriesOf v) := by
  rw [slashUnbonding, update_eq_ok] at hu
  split at hu
  · rename_i h0
    rw [ok.injEq] at hu
    rw [← hu, h0]
    exact (takenFirst_zero (hf v)).symm
  · split at hu
    · rename_i hnone
      rw [ok.injEq] at hu
      rw [← hu, entriesOf, hnone, Option.getD_none, takenFirst]
    · rename_i entries he
      have hold : s.entriesOf v = entries := by rw [entriesOf, he, Option.getD_some]
      have hfilled : Filled entries := hold ▸ hf v
      simp only [Outcome.bind_eq_ok, pure_eq, ok.injEq] at hu
      obtain ⟨entries', ht, rfl⟩ := hu
      have hnew : ∀ m, (s.setUnbonding m).entriesOf v = m[v]?.getD [] := fun _ => rfl
      rw [hnew, entries_writeEntries, if_pos rfl, hold]
      exact takeFromEntries_takenFirst hfilled ht

theorem EntriesFilled.congr (hf : s.EntriesFilled) (hu : s'.unbonding = s.unbonding) :
    s'.EntriesFilled := by
  intro k
  have hk := hf k
  unfold entriesOf at hk ⊢
  rwa [hu]

/-- Replacing the entries of one account by filled ones. -/
theorem EntriesFilled.write {entries : List UnbondingEntry} (hf : s.EntriesFilled)
    (he : Filled entries) : (s.setUnbonding (writeEntries s.unbonding v entries)).EntriesFilled := by
  intro k
  have hread : (s.setUnbonding (writeEntries s.unbonding v entries)).entriesOf k =
      if v = k then entries else s.entriesOf k := entries_writeEntries s.unbonding v k entries
  rw [hread]
  split
  · exact he
  · exact hf k

theorem EntriesFilled.takeMatured {account : String} {released : UInt64} (hf : s.EntriesFilled)
    (ht : takeMatured height account s = ok (released, s')) : s'.EntriesFilled := by
  unfold ChainState.takeMatured at ht
  split at ht
  · rw [ok.injEq, Prod.mk.injEq] at ht
    exact ht.2 ▸ hf
  · rename_i entries he
    simp only [Outcome.bind_eq_ok, pure_eq, ok.injEq, Prod.mk.injEq] at ht
    obtain ⟨_, -, -, rfl⟩ := ht
    have hold : s.entriesOf account = entries := by rw [entriesOf, he, Option.getD_some]
    apply hf.write
    intro e hmem
    exact hf account e (hold ▸ (List.mem_filter.mp hmem).1)

/-- Closing a block keeps the entries filled. -/
theorem EntriesFilled.endBlock {validator : String} (hf : s.EntriesFilled)
    (hc : endBlock E height validator s = ok ((), s')) : s'.EntriesFilled := by
  have hkept : ∀ {α : Type} {x : Exec String ChainState α}, Leaves ChainState.unbonding x →
      Preserves EntriesFilled x := fun hx t a t' ht hok => ht.congr ((hx t).1 a t' hok)
  refine Preserves.bind (Preserves.read _) (fun _ => Preserves.bind
    (Preserves.forEach fun account _ => ?_) fun _ => (Preserves.read _).bind fun _ => ?_) s () s'
      hf hc
  · refine Preserves.bind (Preserves.readWrite fun t a t' ht hok => ht.takeMatured hok) fun _ =>
      (hkept (payOut_leaves (fun _ _ _ => rfl) _)).bind fun _ => Preserves.modify fun t ht => ?_
    split
    · exact ht.congr rfl
    · exact ht
  · refine (hkept (Leaves.forEach (fun _ => releaseVesting_leaves (fun _ _ _ => rfl)
      fun _ _ => rfl) _)).bind fun _ => hkept ?_
    exact settleFees_leaves (fun _ _ _ => rfl) (fun _ _ => rfl) fun _ _ => rfl

/-- A verified transaction keeps the entries filled: a withdrawal is not of nothing. -/
theorem EntriesFilled.applyVerified {validator : String} (hf : s.EntriesFilled)
    (hver : tx.verifyForBlock E validator = ok ())
    (ha : applyVerified E tx height s = ok ((), s')) : s'.EntriesFilled := by
  have happlied := (applyVerified_applied ha).2.2
  cases happlied.bondStep with
  | stake _ _ _ _ hb => exact hf.congr (congrArg Bonds.unbonding hb)
  | other _ hb => exact hf.congr (congrArg Bonds.unbonding hb)
  | @withdraw r info releaseHeight ht _ _ _ _ hb =>
    simp only [Transaction.verifyForBlock, ht, Outcome.bind_eq_ok, ensure_eq_ok] at hver
    obtain ⟨_, -, _, -, hpos⟩ := hver
    have hu : s'.unbonding = _ := congrArg Bonds.unbonding hb
    intro k
    rw [entriesOf, hu, lookup_insert]
    split
    · rw [Option.getD_some]
      intro e he
      rcases List.mem_append.mp he with he | he
      · exact hf _ e he
      · rw [List.mem_singleton.mp he]
        exact Nat.pos_of_ne_zero fun h0 => hpos (Word.toNat_ext h0)
    · exact hf k
  | slash ht =>
    rcases applySlash_writes (happlied.slashed ht) with hu | ⟨_, entries', -, hu⟩
    · exact hf.congr hu
    · exact (hf.write (filled_filter entries')).congr hu

theorem GenesisState.unbonding_empty {supply : UInt64} (hg : GenesisState E supply s) :
    s.unbonding = ∅ := by
  induction hg with
  | built _ _ treasuryPublicKey => cases treasuryPublicKey <;> rfl
  | policy _ _ ih => exact ih
  | seated _ _ _ _ ih =>
    unfold seatGenesisValidatorPqKey
    split
    · exact ih
    · split
      · exact ih
      · split
        · exact ih
        · unfold ChainState.unseat
          dsimp only
          split <;> exact ih

/-- In every reachable state each unbonding entry has something left. -/
theorem Reachable.entriesFilled (hr : Reachable E s) : s.EntriesFilled := by
  induction hr with
  | genesis hg =>
    intro k e he
    rw [entriesOf, hg.unbonding_empty] at he
    simp at he
  | step _ hstep ih =>
    cases hstep with
    | apply _ hver ha => exact ih.applyVerified hver ha
    | close _ hc => exact ih.endBlock hc

/-! ## The record of offenses -/

/-- The signed types leave the record of offenses alone. -/
theorem Mutation.offenses {account : String} {effects : StateAction}
    (hm : Mutation E tx height s account effects) : Leaves slashedOffenses effects :=
  hm.leaves ⟨fun _ _ _ => rfl, fun _ _ => rfl, fun _ _ _ => rfl, fun _ _ _ => rfl,
    fun _ _ _ => rfl⟩ (fun _ _ _ _ => rfl) (fun _ _ _ => rfl) (fun _ _ _ => rfl)
    (fun _ _ _ _ => rfl) fun _ _ _ _ => rfl

/-- A step of the ledger erases no offense. -/
theorem Step.offenses {k : String} (hstep : Step E s s') (hk : k ∈ s.slashedOffenses) :
    k ∈ s'.slashedOffenses := by
  have hsame : s'.slashedOffenses = s.slashedOffenses → k ∈ s'.slashedOffenses := fun he => he ▸ hk
  cases hstep with
  | close _ hc =>
    exact hsame ((endBlock_leaves (g := slashedOffenses) (fun _ _ _ => rfl) (fun _ _ => rfl)
      (fun _ _ => rfl) (fun _ _ => rfl) (fun _ _ => rfl) (fun _ _ => rfl) _).1 _ _ hc)
  | @apply tx _ _ _ _ ha =>
    have happlied := (applyVerified_applied ha).2.2
    cases happlied with
    | signed hm _ he => exact hsame ((hm.offenses (s.setNonce _ tx.nonce)).1 _ _ he)
    | reward ht he =>
      exact hsame ((applyReward_leaves (g := slashedOffenses) (fun _ _ _ => rfl)
        (fun _ _ _ => rfl) _).1 _ _ he)
    | anchor _ _ he => exact he ▸ hk
    | slash ht he =>
      cases applySlash_bondStep ht he with
      | stake ht' => rw [ht] at ht'; cases ht'
      | withdraw ht' => rw [ht] at ht'; cases ht'
      | other ht' => exact absurd ht ht'.2.2
      | slash _ _ _ _ _ _ _ hrecord =>
        rw [hrecord]
        exact Std.ExtTreeMap.mem_insert.mpr (Or.inr hk)

theorem offenses_of_steps {k : String} (hrun : Relation.ReflTransGen (Step E) s s')
    (hk : k ∈ s.slashedOffenses) : k ∈ s'.slashedOffenses := by
  induction hrun with
  | refl => exact hk
  | tail _ hstep ih => exact hstep.offenses ih

/-! ## The amount -/

/-- A validator `v` loses `x` for an offense of height `h`: bonded stake first, then the first
entries; the staking pool falls by `x`, the offense is recorded, and nothing else changes but the
two counters. -/
structure Deducted (v : String) (h : UInt64) (s s' : ChainState) (x : ℕ) : Prop where
  pool : (s'.balanceOf stakingPoolAccount).toNat + x = (s.balanceOf stakingPoolAccount).toNat
  bonded : ∃ info stake, s.stakers[v]? = some info ∧
    s'.stakers[v]? = some { info with stake } ∧ stake.toNat = info.stake.toNat - x
  entries : s'.entriesOf v =
    takenFirst (x - (s.stakers[v]?.getD .empty).stake.toNat) (s.entriesOf v)
  atRisk : s'.atRisk v + x = s.atRisk v
  balances : ∀ a, stakingPoolAccount ≠ a → s'.balances[a]? = s.balances[a]?
  stakers : ∀ a, v ≠ a → s'.stakers[a]? = s.stakers[a]?
  unbonding : ∀ a, v ≠ a → s'.entriesOf a = s.entriesOf a
  record : s'.slashedOffenses = s.slashedOffenses.insert (offenseKey v h) (UInt64.ofNat x)
  rest : { s' with
    balances := s.balances, totalSupply := s.totalSupply, burned := s.burned,
    stakers := s.stakers, unbonding := s.unbonding, slashedOffenses := s.slashedOffenses } = s

/-- Also the counters follow: the supply falls by `x` and the burned counter rises by it. -/
structure Accounted (v : String) (h : UInt64) (s s' : ChainState) (x : ℕ) : Prop
    extends Deducted v h s s' x where
  supply : s'.totalSupply.toNat + x = s.totalSupply.toNat
  burned : s'.burned.toNat = s.burned.toNat + x

/-- A tenth of what is at risk is no more than a hundredth of the largest word, and the two
counters have room for it. -/
def Exacts (s : ChainState) (v : String) : Prop :=
  s.atRisk v * slashPercent.toNat / 100 ≤ (2 ^ 64 - 1) / 100 ∧
    s.atRisk v * slashPercent.toNat / 100 ≤ s.totalSupply.toNat ∧
    s.burned.toNat + s.atRisk v * slashPercent.toNat / 100 < 2 ^ 64

/-- What the checks of a slash hand on. -/
theorem slashChecks_amount {r : SlashRequest} {proof : SlashProof}
    (hp : tx.slashProof = some proof) (hc : slashChecks tx height s = ok r) :
    r.slashed.toNat =
        min (s.atRisk tx.recipient * slashPercent.toNat) (2 ^ 64 - 1) / 100 ∧
      height.toNat ≤ proof.blockA.index.toNat + slashingWindowBlocks.toNat ∧
      ¬ offenseKey tx.recipient proof.blockA.index ∈ s.slashedOffenses ∧
      r.offenseKey = offenseKey tx.recipient proof.blockA.index := by
  simp only [slashChecks, hp, okOr_some, ok_bind, Outcome.bind_eq_ok, okOr_eq_ok, ensure_eq_ok,
    plain_eq_ok, pure_eq, ok.injEq, unbondingTotal_eq_ok, Word.checkedAdd_eq_some,
    UInt64.lt_iff_toNat_lt, not_lt] at hc
  obtain ⟨deadline, hd, _, hwindow, info, hi, _, -, _, hnew, unbonding, hu, base, hb, _, -, rfl⟩ :=
    hc
  have hbase : base.toNat = s.atRisk tx.recipient := by
    rw [atRisk, hi, Option.getD_some]
    omega
  refine ⟨?_, by omega, hnew, rfl⟩
  change (Word.saturatingMul base slashPercent / 100).toNat = _
  rw [UInt64.toNat_div, Word.saturatingMul_toNat, hbase]
  rfl

/-- What an applied slash does. -/
theorem applySlash_deducted (hE : E.saturation = .clamp) (hf : s.EntriesFilled)
    {proof : SlashProof} (hp : tx.slashProof = some proof)
    (he : applySlash E tx height s = ok ((), s')) :
    ∃ amount : UInt64,
      amount.toNat = min (s.atRisk tx.recipient * slashPercent.toNat) (2 ^ 64 - 1) / 100 ∧
      s'.totalSupply = Word.saturatingSub s.totalSupply amount ∧
      s'.burned = Word.saturatingAdd s.burned amount ∧
      Deducted tx.recipient proof.blockA.index s s' amount.toNat := by
  obtain ⟨r, _, hread, he⟩ := Exec.bind_eq_ok.mp he
  obtain ⟨hc, rfl⟩ := read_eq_ok.mp hread
  obtain ⟨_, info, -, hi, -, -, -, hstake, hle⟩ := slashChecks_ok hc
  obtain ⟨hamount, -, -, hkey⟩ := slashChecks_amount hp hc
  have hmin := Word.min_toNat r.slashed r.stake
  simp only [slashEffects, Exec.bind_eq_ok, read_eq_ok, debit_eq_ok, update_eq_ok,
    Outcome.bind_eq_ok, plain_eq_ok, pure_eq, ok.injEq, Word.checkedSub_eq_some, setStake_eq_ok,
    modify_apply, Prod.mk.injEq, hE, Word.Saturation.add_clamp, Word.Saturation.sub_clamp,
    Option.some.injEq] at he
  obtain ⟨_, _, ⟨pool, hpool, rfl⟩, _, _, ⟨_, rfl, _, rfl, rfl⟩, stake, _, ⟨hs, rfl⟩,
    _, _, ⟨info', hi', rfl⟩, remaining, _, ⟨hr, rfl⟩, _, t, hu, -, rfl⟩ := he
  have hinfo : info' = info := by
    have h' : s.stakers[tx.recipient]? = some info' := hi'
    rw [hi, Option.some.injEq] at h'
    exact h'.symm
  rw [hstake] at hs hr hmin
  obtain ⟨⟨unbonding, rfl⟩, hothers, -, hsum⟩ := slashUnbonding_owed hu
  have hentries : unbonding[tx.recipient]?.getD [] =
      takenFirst remaining.toNat (s.entriesOf tx.recipient) := by
    refine slashUnbonding_takenFirst ?_ hu
    exact hf.congr rfl
  have hleft : remaining.toNat = r.slashed.toNat - info.stake.toNat := by omega
  have hread : (s.stakers[tx.recipient]?.getD .empty) = info := by rw [hi, Option.getD_some]
  subst hinfo
  refine ⟨r.slashed, hamount, rfl, rfl, ?_⟩
  constructor
  case pool =>
    change (valueAt (s.balances.insert stakingPoolAccount pool) stakingPoolAccount).toNat + _ = _
    rw [valueAt_insert_self]
    exact hpool
  case bonded =>
    refine ⟨info', stake, hi, ?_, by omega⟩
    change (s.stakers.insert tx.recipient _)[tx.recipient]? = _
    rw [lookup_insert_self]
  case entries =>
    rw [hread, ← hleft]
    exact hentries
  case atRisk =>
    change ((s.stakers.insert tx.recipient _)[tx.recipient]?.getD .empty).stake.toNat +
      entriesSum (unbonding[tx.recipient]?.getD []) + _ = _
    change entriesSum (unbonding[tx.recipient]?.getD []) + min remaining.toNat
      (entriesSum (s.unbonding[tx.recipient]?.getD [])) = _ at hsum
    change _ = entriesSum (s.unbonding[tx.recipient]?.getD []) at hsum
    rw [lookup_insert_self, Option.getD_some, ChainState.atRisk, hread]
    dsimp only
    omega
  case balances =>
    intro a ha
    change (s.balances.insert stakingPoolAccount pool)[a]? = _
    rw [lookup_insert, if_neg ha]
  case stakers =>
    intro a ha
    change (s.stakers.insert tx.recipient _)[a]? = _
    rw [lookup_insert, if_neg ha]
  case unbonding => exact hothers
  case record =>
    change s.slashedOffenses.insert r.offenseKey r.slashed = _
    rw [hkey, UInt64.ofNat_toNat]
  case rest => rfl

/-- Two amounts that the same step deducts are equal. -/
theorem Deducted.unique {y : ℕ} (hx : Deducted v h s s' x) (hy : Deducted v h s s' y) : x = y := by
  have hpx := hx.pool
  have hpy := hy.pool
  omega

theorem applyVerified_slash (ht : tx.transactionType = .slash)
    (ha : applyVerified E tx height s = ok ((), s')) : applySlash E tx height s = ok ((), s') := by
  simp only [applyVerified, Exec.bind_eq_ok, read_eq_ok] at ha
  obtain ⟨_, _, ⟨-, rfl⟩, _, _, ⟨-, rfl⟩, ha⟩ := ha
  simpa only [applyBranch, ht] using ha

/-- An applied slash takes exactly the percentage of what is at risk if and only if the percentage
is computed in range and the counters have room. -/
theorem applySlash_accounted_iff (hE : E.saturation = .clamp) (hf : s.EntriesFilled)
    {proof : SlashProof} (hp : tx.slashProof = some proof)
    (he : applySlash E tx height s = ok ((), s')) :
    Accounted tx.recipient proof.blockA.index s s'
      (s.atRisk tx.recipient * slashPercent.toNat / 100) ↔ Exacts s tx.recipient := by
  obtain ⟨amount, hamount, hsupply, hburned, hded⟩ := applySlash_deducted hE hf hp he
  have hword := Word.toNat_lt s'.burned
  constructor
  · intro hacc
    have hsame := hacc.toDeducted.unique hded
    have hs := hacc.supply
    have hb := hacc.burned
    refine ⟨?_, by omega, by omega⟩
    rw [hsame, hamount]
    exact Nat.div_le_div_right (Nat.min_le_right _ _)
  · rintro ⟨hfits, hroom, hcap⟩
    have hsame : amount.toNat = s.atRisk tx.recipient * slashPercent.toNat / 100 := by
      rw [hamount]
      omega
    rw [hsame] at hded
    refine ⟨hded, ?_, ?_⟩
    · rw [hsupply, Word.saturatingSub_toNat, hsame]
      omega
    · rw [hburned, Word.saturatingAdd_toNat, hsame]
      omega

end ChainState

/-! ## Two samples -/

namespace Sample

open ChainState

/-- The two headers of the slash, the other way round. -/
def swappedSlash : Transaction :=
  { doubleSlash with
    slashProof := some ⟨sealBlock [] 7 firstPlace [] "b", sealBlock [] 7 firstPlace [] "a"⟩ }

theorem swappedSlash_verified {pool : List Transaction} {validator : String} :
    swappedSlash.verifyForBlock (env pool) validator = ok () := by
  have hne : (sealBlock [] 7 firstPlace [] "b").hash ≠ (sealBlock [] 7 firstPlace [] "a").hash := by
    decide +kernel
  have hproof : SlashProof.verify (env pool)
      ⟨sealBlock [] 7 firstPlace [] "b", sealBlock [] 7 firstPlace [] "a"⟩ = ok (address 7) :=
    verify_sealBlock hne
  exact (Transaction.verifyForBlock_slash rfl).mpr ⟨⟨rfl, rfl⟩, _, rfl, hproof⟩

/-- Holder 7 bonds more than a tenth of the largest word. -/
def largeBond : Transaction :=
  { order 7 .stake stakingPoolAccount 2000000000000000000 1 none none
      (Transaction.stakeSigningMessage (address 7) 2000000000000000000 1 (publicKey 7)) with
    vrfPublicKey := some (publicKey 7) }

theorem largeBond_verified : largeBond.verifyForBlock (node []) (address 7) = ok () := by
  decide +kernel

end Sample

namespace ChainState

variable {E : Node} {s s' : ChainState} {tx : Transaction} {height h : UInt64} {v : String}

/-! ## Main results -/

/-- A slash of `v` whose proof has a header of height `h`. -/
def SlashOf (v : String) (h : UInt64) (tx : Transaction) : Prop :=
  tx.transactionType = .slash ∧ tx.recipient = v ∧
    ∃ proof, tx.slashProof = some proof ∧ (proof.blockA.index = h ∨ proof.blockB.index = h)

/-- A recorded offense is not punished again. -/
theorem not_slashed_again {tx₂ : Transaction} {producer : String} {k : UInt64}
    (hrecord : offenseKey v h ∈ s.slashedOffenses) (hof : SlashOf v h tx₂)
    (hver : tx₂.verifyForBlock E producer = ok ()) : applyVerified E tx₂ k s ≠ ok ((), s') := by
  intro ha
  obtain ⟨ht, hv, proof, hp, hindex⟩ := hof
  obtain ⟨-, proof', hp', hverify⟩ := (Transaction.verifyForBlock_slash ht).mp hver
  rw [hp, Option.some.injEq] at hp'
  subst hp'
  have hsame := (SlashProof.verify_eq_ok.mp hverify).1
  have hheight : proof.blockA.index = h := by
    rcases hindex with hindex | hindex
    · exact hindex
    · exact hsame.trans hindex
  obtain ⟨r, _, hread, -⟩ := Exec.bind_eq_ok.mp (applyVerified_slash ht ha)
  obtain ⟨hc, rfl⟩ := read_eq_ok.mp hread
  obtain ⟨-, -, hnew, -⟩ := slashChecks_amount hp hc
  rw [hv, hheight] at hnew
  exact hnew hrecord

/-- A slash that is applied takes exactly its percentage, in order, if and only if the percentage
is computed in range and the counters have room; it is inside the window; and after it no run
applies another slash of the validator with a header of that height. -/
theorem slash_exact_iff (hE : E.saturation = .clamp) (hr : Reachable E s)
    (ht : tx.transactionType = .slash) {proof : SlashProof} (hp : tx.slashProof = some proof)
    (ha : applyVerified E tx height s = ok ((), s')) :
    (Accounted tx.recipient proof.blockA.index s s'
        (s.atRisk tx.recipient * slashPercent.toNat / 100) ↔ Exacts s tx.recipient) ∧
      height.toNat ≤ proof.blockA.index.toNat + slashingWindowBlocks.toNat ∧
      ∀ tx₂ producer k t t', Relation.ReflTransGen (Step E) s' t →
        SlashOf tx.recipient proof.blockA.index tx₂ →
        tx₂.verifyForBlock E producer = ok () → applyVerified E tx₂ k t ≠ ok ((), t') := by
  have he := applyVerified_slash ht ha
  obtain ⟨amount, -, -, -, hded⟩ := applySlash_deducted hE hr.entriesFilled hp he
  have hrecord : offenseKey tx.recipient proof.blockA.index ∈ s'.slashedOffenses := by
    rw [hded.record]
    exact Std.ExtTreeMap.mem_insert_self
  refine ⟨applySlash_accounted_iff hE hr.entriesFilled hp he, ?_, ?_⟩
  · obtain ⟨r, _, hread, -⟩ := Exec.bind_eq_ok.mp he
    obtain ⟨hc, rfl⟩ := read_eq_ok.mp hread
    exact (slashChecks_amount hp hc).2.1
  · intro tx₂ producer k t t' hrun hof hver
    exact not_slashed_again (offenses_of_steps hrun hrecord) hof hver

/-- The genesis validator loses a tenth of its stake once; the swapped proof is refused. -/
theorem slash_exact_sample :
    ∃ s s', Reachable (Sample.node []) s ∧
      applyVerified (Sample.node []) Sample.doubleSlash 1 s = ok ((), s') ∧
      Accounted (Sample.address 7) 1 s s' 100000000000 ∧
      ∀ k t, applyVerified (Sample.node []) Sample.swappedSlash k s' ≠ ok ((), t) := by
  have hrun : (applyVerified (Sample.node []) Sample.doubleSlash 1
      (Sample.genesis 1000000000000000)).returns (fun _ => true) = true := by decide +kernel
  obtain ⟨⟨⟨⟩, s'⟩, ha, -⟩ := exists_of_returns hrun
  have hrisk : (Sample.genesis 1000000000000000).atRisk (Sample.address 7) = 1000000000000 := by
    decide +kernel
  have hreach : Reachable (Sample.node []) (Sample.genesis 1000000000000000) :=
    Sample.genesis_reachable _
  obtain ⟨hiff, -, honce⟩ := slash_exact_iff rfl hreach rfl rfl ha
  refine ⟨_, s', hreach, ha, ?_, fun k t => ?_⟩
  · have hexacts : Exacts (Sample.genesis 1000000000000000) (Sample.address 7) := by
      unfold Exacts
      rw [hrisk]
      decide +kernel
    have hacc := hiff.mpr hexacts
    change Accounted (Sample.address 7) 1 _ _
      ((Sample.genesis 1000000000000000).atRisk (Sample.address 7) * 10 / 100) at hacc
    rw [hrisk] at hacc
    exact hacc
  · exact honce _ (Sample.address 7) k _ t .refl ⟨rfl, rfl, _, rfl, .inl rfl⟩
      Sample.swappedSlash_verified

/-- A validator with more than a tenth of the largest word at stake loses less than a tenth. -/
theorem slash_saturates :
    ∃ s s', Reachable (Sample.node []) s ∧
      applyVerified (Sample.node []) Sample.doubleSlash 1 s = ok ((), s') ∧
      s.atRisk (Sample.address 7) = 2000001000000000000 ∧
      (s'.balanceOf stakingPoolAccount).toNat + 184467440737095516 =
        (s.balanceOf stakingPoolAccount).toNat ∧
      ¬ Accounted (Sample.address 7) 1 s s' (2000001000000000000 * 10 / 100) := by
  have hrun : (applyVerified (Sample.node []) Sample.largeBond 1
      (Sample.genesis 5000000000000000000)).returns (fun r =>
        decide (r.2.atRisk (Sample.address 7) = 2000001000000000000) &&
        (applyVerified (Sample.node []) Sample.doubleSlash 1 r.2).returns fun r' =>
          decide ((r'.2.balanceOf stakingPoolAccount).toNat + 184467440737095516 =
            (r.2.balanceOf stakingPoolAccount).toNat)) = true := by decide +kernel
  obtain ⟨⟨⟨⟩, s⟩, hbond, hrun⟩ := exists_of_returns hrun
  rw [Bool.and_eq_true, decide_eq_true_eq] at hrun
  obtain ⟨hrisk, hrun⟩ := hrun
  obtain ⟨⟨⟨⟩, s'⟩, ha, hpool⟩ := exists_of_returns hrun
  rw [decide_eq_true_eq] at hpool
  refine ⟨s, s', (Sample.genesis_reachable _).step
    (.apply Sample.address_valid Sample.largeBond_verified hbond), ha, hrisk, hpool, fun hacc => ?_⟩
  have hexact := hacc.pool
  have htaken : (s'.balanceOf stakingPoolAccount).toNat + 184467440737095516 =
    (s.balanceOf stakingPoolAccount).toNat := hpool
  omega

end ChainState
