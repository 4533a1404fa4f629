/-
# The validator registry at block boundaries

The floor and the allowlist are checked when stake is bonded or withdrawn, entries that matured
and validators with nothing left go when a block closes.  So at every block boundary the registry
is in order: nobody below the floor without a slash, no dead entry, nothing overdue.
-/
import Mathlib.Tactic
import Hikmalayer.Ledger.Deduction
import Hikmalayer.Ledger.Timeline

open Outcome Exec OrderedMap

namespace ChainState

variable {E : Node} {g s s' mid : ChainState} {tx : Transaction} {txs : List Transaction}
  {history : List PastBlock} {height supply : UInt64} {account v validator : String} {limit : ℕ}

/-! ## Checks -/

/-- A stake that passes meets the allowlist and the floor. -/
theorem stakeChecks_gate {r : StakeRequest} (h : stakeChecks E tx s = ok r) :
    (s.validatorAllowlist.isEmpty = true ∨ r.sender ∈ s.stakers ∨
      r.sender ∈ s.validatorAllowlist) ∧
      ∃ resulting, E.saturation.add (s.stakers[r.sender]?.getD .empty).stake tx.amount =
        some resulting ∧ minValidatorStake ≤ resulting := by
  simp only [stakeChecks, Outcome.bind_eq_ok, okOr_eq_ok, ensure_eq_ok, plain_eq_ok, pure_eq,
    ok.injEq] at h
  obtain ⟨sender, -, _, -, _, -, _, hgate, resulting, hr, _, hfloor, rfl⟩ := h
  refine ⟨?_, resulting, ?_, UInt64.not_lt.mp hfloor⟩
  · by_cases hempty : s.validatorAllowlist.isEmpty = true
    · exact Or.inl hempty
    · refine Or.inr (or_iff_not_imp_left.mpr fun hstaker => ?_)
      exact not_not.mp fun hlisted => hgate ⟨hempty, hstaker, hlisted⟩
  · rw [← hr]
    cases s.stakers[sender]? <;> rfl

/-- A withdrawal that passes leaves nothing or at least the floor. -/
theorem withdrawChecks_floor {r : WithdrawRequest} (h : withdrawChecks E tx s = ok r) :
    r.remaining = 0 ∨ minValidatorStake ≤ r.remaining := by
  simp only [withdrawChecks, Outcome.bind_eq_ok, okOr_eq_ok, ensure_eq_ok, plain_eq_ok, pure_eq,
    ok.injEq] at h
  obtain ⟨_, -, _, -, _, -, _, -, _, -, _, -, remaining, -, _, hfloor, rfl⟩ := h
  refine or_iff_not_imp_left.mpr fun hne => UInt64.not_lt.mp fun hlt => hfloor ⟨hne, hlt⟩

/-- A slash takes less than what is at stake. -/
theorem slashChecks_lt {r : SlashRequest} {info : StakeInfo} (h : slashChecks tx height s = ok r)
    (hi : s.stakers[tx.recipient]? = some info) :
    r.slashed.toNat < info.stake.toNat + entriesSum (s.entriesOf tx.recipient) := by
  simp only [slashChecks, Outcome.bind_eq_ok, okOr_eq_ok, ensure_eq_ok, plain_eq_ok, pure_eq,
    ok.injEq, unbondingTotal_eq_ok, Word.checkedAdd_eq_some] at h
  obtain ⟨_, -, _, -, _, -, info', hi', _, -, _, -, unbonding, hu, base, hb, _, hne, rfl⟩ := h
  rw [hi, Option.some.injEq] at hi'
  obtain rfl := hi'
  have hbase : base.toNat = info.stake.toNat + entriesSum (s.entriesOf tx.recipient) := by
    rw [hb, hu]
    rfl
  rw [← hbase]
  change (Word.saturatingMul base slashPercent / 100).toNat < base.toNat
  have hpos : (Word.saturatingMul base slashPercent / 100).toNat ≠ 0 := fun h0 =>
    hne (Word.toNat_ext h0)
  have h10 : slashPercent.toNat = 10 := rfl
  have h100 : (100 : UInt64).toNat = 100 := rfl
  rw [UInt64.toNat_div, Word.saturatingMul_toNat, h10, h100] at hpos ⊢
  omega

/-! ## Accounts with entries -/

/-- No account is kept with an empty list of entries. -/
def Populated (s : ChainState) : Prop := ∀ a : String, s.unbonding[a]? ≠ some []

theorem Populated.congr (hk : s.Populated) (hu : s'.unbonding = s.unbonding) : s'.Populated := by
  intro a
  rw [hu]
  exact hk a

theorem Populated.write {entries : List UnbondingEntry} (hk : s.Populated)
    (hu : s'.unbonding = writeEntries s.unbonding account entries) : s'.Populated := by
  intro a
  rw [hu, lookup_writeEntries]
  split
  · split
    · exact nofun
    · rename_i hne
      exact fun h => hne (by rw [Option.some.inj h]; rfl)
  · exact hk a

theorem Populated.mem_iff (hk : s.Populated) : v ∈ s.unbonding ↔ s.entriesOf v ≠ [] := by
  rw [Std.ExtTreeMap.mem_iff_isSome_getElem?, entriesOf]
  have hv := hk v
  cases h : s.unbonding[v]? with
  | none => simp
  | some entries =>
    rw [h] at hv
    simpa using fun hnil => hv (congrArg some hnil)

/-- Taking from entries leaves their release heights. -/
theorem takeFromEntries_heights {entries : List UnbondingEntry} :
    ∀ {remaining : UInt64} {entries' : List UnbondingEntry},
      takeFromEntries remaining entries = ok entries' →
        entries'.map (·.releaseHeight) = entries.map (·.releaseHeight) := by
  induction entries with
  | nil =>
    intro remaining entries' h
    rw [takeFromEntries, ok.injEq] at h
    rw [← h]
  | cons entry rest ih =>
    intro remaining entries' h
    simp only [takeFromEntries, Outcome.bind_eq_ok] at h
    obtain ⟨amount, -, left, -, h⟩ := h
    split at h
    · rw [pure_eq, ok.injEq] at h
      rw [← h]
      rfl
    · simp only [Outcome.bind_eq_ok, pure_eq, ok.injEq] at h
      obtain ⟨rest', hrest, rfl⟩ := h
      rw [List.map_cons, List.map_cons, ih hrest]

/-! ## The invariant -/

/-- The registry within a block, for the validators that `slashed` tells apart, when no entry is
released after `limit`. -/
structure InOrder (g : ChainState) (slashed : String → Prop) (limit : ℕ) (s : ChainState) :
    Prop where
  allowlist : s.validatorAllowlist = g.validatorAllowlist
  listed : g.validatorAllowlist.isEmpty = false → ∀ v ∈ s.stakers,
    v ∈ g.stakers ∨ v ∈ g.validatorAllowlist
  floor : ∀ (v : String) (info : StakeInfo), s.stakers[v]? = some info → ¬ slashed v →
    info.stake = 0 ∨ minValidatorStake ≤ info.stake
  live : ∀ (v : String) (info : StakeInfo), s.stakers[v]? = some info → info.stake = 0 →
    s.entriesOf v ≠ []
  owned : ∀ v, s.entriesOf v ≠ [] → v ∈ s.stakers
  filled : s.EntriesFilled
  populated : s.Populated
  near : ∀ v, ∀ e ∈ s.entriesOf v, e.releaseHeight.toNat ≤ limit

/-- The slashes of a validator among some transactions. -/
def Slashed (txs : List Transaction) (v : String) : Prop :=
  ∃ tx ∈ txs, tx.transactionType = .slash ∧ tx.recipient = v

theorem applyVerified_allowlist (h : applyVerified E tx height s = ok ((), s')) :
    s'.validatorAllowlist = s.validatorAllowlist := by
  cases (applyVerified_applied h).2.2 with
  | @signed account effects hm _ he =>
    exact (hm.leaves (g := validatorAllowlist) ⟨fun _ _ _ => rfl, fun _ _ => rfl, fun _ _ _ => rfl,
      fun _ _ _ => rfl, fun _ _ _ => rfl⟩ (fun _ _ _ _ => rfl) (fun _ _ _ => rfl)
      (fun _ _ _ => rfl) (fun _ _ _ _ => rfl) (fun _ _ _ _ => rfl)
      (s.setNonce account tx.nonce)).1 _ _ he
  | reward _ he =>
    exact (applyReward_leaves (g := validatorAllowlist) (fun _ _ _ => rfl) (fun _ _ _ => rfl)
      s).1 _ _ he
  | slash _ he =>
    exact (((Leaves.read validatorAllowlist _).bind fun _ => slashEffects_leaves (fun _ _ _ => rfl)
      (fun _ _ _ => rfl) (fun _ _ _ => rfl) (fun _ _ => rfl) (fun _ _ _ => rfl) _ _) s).1 _ _ he
  | anchor _ _ he => rw [he]

/-- What the rest of the state says does not matter. -/
theorem InOrder.congr {slashed slashed' : String → Prop} {limit' : ℕ}
    (h : InOrder g slashed limit s) (ha : s'.validatorAllowlist = s.validatorAllowlist)
    (hb : s'.bonds = s.bonds) (hs : ∀ v, slashed v → slashed' v) (hl : limit ≤ limit') :
    InOrder g slashed' limit' s' := by
  have hk : s'.stakers = s.stakers := congrArg Bonds.stakers hb
  have hu : s'.unbonding = s.unbonding := congrArg Bonds.unbonding hb
  have he : ∀ v, s'.entriesOf v = s.entriesOf v := fun v => by rw [entriesOf, hu]; rfl
  refine ⟨ha.trans h.allowlist, ?_, ?_, ?_, ?_, h.filled.congr hu, h.populated.congr hu, ?_⟩
  · rw [hk]
    exact h.listed
  · rw [hk]
    exact fun v info hi hv => h.floor v info hi fun hsl => hv (hs v hsl)
  · intro v info
    rw [hk, he]
    exact h.live v info
  · intro v
    rw [hk, he]
    exact h.owned v
  · intro v e hmem
    rw [he] at hmem
    exact (h.near v e hmem).trans hl

/-- Writing the staker entry of one account, and its unbonding entries. -/
theorem InOrder.write {slashed slashed' : String → Prop} {limit' : ℕ} {k : String}
    {info : StakeInfo} (h : InOrder g slashed limit s)
    (ha : s'.validatorAllowlist = s.validatorAllowlist)
    (hk : s'.stakers = s.stakers.insert k info)
    (he : ∀ v, k ≠ v → s'.entriesOf v = s.entriesOf v) (hs : ∀ v, slashed v → slashed' v)
    (hl : limit ≤ limit') (hfilled : s'.EntriesFilled) (hpopulated : s'.Populated)
    (hlisted : g.validatorAllowlist.isEmpty = false → k ∈ g.stakers ∨ k ∈ g.validatorAllowlist)
    (hfloor : ¬ slashed' k → info.stake = 0 ∨ minValidatorStake ≤ info.stake)
    (hlive : info.stake = 0 → s'.entriesOf k ≠ [])
    (hnear : ∀ e ∈ s'.entriesOf k, e.releaseHeight.toNat ≤ limit') :
    InOrder g slashed' limit' s' := by
  refine ⟨ha.trans h.allowlist, fun hlist v hv => ?_, fun v info' hi hv => ?_,
    fun v info' hi h0 => ?_, fun v hv => ?_, hfilled, hpopulated, fun v e hmem => ?_⟩
  · rw [hk] at hv
    rcases Std.ExtTreeMap.mem_insert.mp hv with heq | hv
    · obtain rfl : k = v := by simpa using heq
      exact hlisted hlist
    · exact h.listed hlist v hv
  · rw [hk, lookup_insert] at hi
    split at hi
    · rename_i heq
      rw [← Option.some.inj hi]
      exact hfloor (heq ▸ hv)
    · exact h.floor v info' hi fun hsl => hv (hs v hsl)
  · rw [hk, lookup_insert] at hi
    split at hi
    · rename_i heq
      rw [← Option.some.inj hi] at h0
      exact heq ▸ hlive h0
    · rename_i hne
      rw [he v hne]
      exact h.live v info' hi h0
  · rw [hk]
    by_cases heq : k = v
    · exact Std.ExtTreeMap.mem_insert.mpr (Or.inl (by simpa using heq))
    · rw [he v heq] at hv
      exact Std.ExtTreeMap.mem_insert.mpr (Or.inr (h.owned v hv))
  · by_cases heq : k = v
    · exact hnear e (heq ▸ hmem)
    · rw [he v heq] at hmem
      exact (h.near v e hmem).trans hl

/-- An applied transaction keeps the registry in order. -/
theorem InOrder.applyVerified {slashed : String → Prop} (h : InOrder g slashed limit s)
    (hlimit : limit ≤ height.toNat + unbondingBlocks.toNat)
    (hver : tx.verifyForBlock E validator = ok ())
    (ha : applyVerified E tx height s = ok ((), s')) :
    InOrder g (fun v => slashed v ∨ Slashed [tx] v) (height.toNat + unbondingBlocks.toNat) s' := by
  have hallow := applyVerified_allowlist ha
  have hfilled := h.filled.applyVerified hver ha
  have happlied := (applyVerified_applied ha).2.2
  have hmember : ∀ {k : String} {info : StakeInfo}, s.stakers[k]? = some info →
      g.validatorAllowlist.isEmpty = false → k ∈ g.stakers ∨ k ∈ g.validatorAllowlist :=
    fun hi hlist => h.listed hlist _ (mem_of_lookup hi)
  cases happlied.bondStep with
  | other _ hb => exact h.congr hallow hb (fun _ => Or.inl) hlimit
  | @stake r stake pqPublicKey ht hc hstake _ hb =>
    have hu : s'.unbonding = s.unbonding := congrArg Bonds.unbonding hb
    have he : ∀ v, s'.entriesOf v = s.entriesOf v := fun v => by rw [entriesOf, hu]; rfl
    obtain ⟨hgate, resulting, hadd, hfloor⟩ := stakeChecks_gate hc
    have hlt := Word.toNat_lt stake
    have hsame : resulting = stake := Word.toNat_ext
      ((Word.Saturation.toNat_of_add hadd (by omega)).trans hstake.symm)
    rw [hsame] at hfloor
    refine h.write hallow (congrArg Bonds.stakers hb) (fun v _ => he v) (fun _ => Or.inl) hlimit
      hfilled (h.populated.congr hu) (fun hlist => ?_) (fun _ => Or.inr hfloor) (fun h0 => ?_)
      fun e hmem => ?_
    · rw [h.allowlist, hlist] at hgate
      rcases hgate with hempty | hold | hlisted
      · cases hempty
      · exact h.listed hlist _ hold
      · exact Or.inr hlisted
    · change stake = 0 at h0
      rw [h0] at hfloor
      exact absurd hfloor (by decide)
    · rw [he] at hmem
      exact (h.near _ e hmem).trans hlimit
  | @withdraw r info releaseHeight ht hc hi _ hrelease hb =>
    have hu : s'.unbonding = _ := congrArg Bonds.unbonding hb
    have he : ∀ v, s'.entriesOf v =
        if r.sender = v then s.entriesOf r.sender ++ [⟨tx.amount, releaseHeight⟩]
        else s.entriesOf v := by
      intro v
      rw [entriesOf, hu, lookup_insert]
      split <;> rfl
    refine h.write hallow (congrArg Bonds.stakers hb) (fun v hv => by rw [he, if_neg hv])
      (fun _ => Or.inl) hlimit hfilled (fun a => ?_) (hmember hi)
      (fun _ => withdrawChecks_floor hc) (fun _ => ?_) fun e hmem => ?_
    · rw [hu, lookup_insert]
      split
      · simp
      · exact h.populated a
    · rw [he, if_pos rfl]
      simp
    · rw [he, if_pos rfl] at hmem
      rcases List.mem_append.mp hmem with hold | hnew
      · exact (h.near _ e hold).trans hlimit
      · rw [List.mem_singleton.mp hnew]
        exact hrelease.le
  | @slash r info stake ht hc hi hk hothers hloss _ _ =>
    have hwrites := applySlash_writes (happlied.slashed ht)
    refine h.write hallow hk hothers (fun _ => Or.inl) hlimit hfilled ?_ (hmember hi)
      (fun hsl => absurd (Or.inr ⟨tx, List.mem_singleton_self tx, ht, rfl⟩) hsl) (fun h0 hnil => ?_)
      fun e hmem => ?_
    · rcases hwrites with hu | ⟨_, entries', -, hu⟩
      · exact h.populated.congr hu
      · exact h.populated.write hu
    · -- something was at stake and less was taken
      have hlt := slashChecks_lt hc hi
      change stake = 0 at h0
      rw [h0, hnil, entriesSum_nil, UInt64.toNat_zero] at hloss
      omega
    · rcases hwrites with hu | ⟨_, entries', htaken, hu⟩
      · rw [entriesOf, hu] at hmem
        exact (h.near _ e hmem).trans hlimit
      · rw [entriesOf, hu, entries_writeEntries, if_pos rfl] at hmem
        have hheight := List.mem_map_of_mem (f := fun e => e.releaseHeight)
          (List.mem_of_mem_filter hmem)
        rw [takeFromEntries_heights htaken] at hheight
        obtain ⟨e', he', heq⟩ := List.mem_map.mp hheight
        rw [← heq]
        exact (h.near _ e' he').trans hlimit

/-! ## Closing a block -/

/-- Releasing the matured entries of one account. -/
theorem releaseUnbonding_ok (hk : s.Populated)
    (h : releaseUnbonding E height account s = ok ((), s')) :
    s'.Populated ∧ s'.entriesOf account = unmatured height (s.entriesOf account) ∧
      (∀ info, s'.stakers[account]? = some info → info.stake = 0 → s'.entriesOf account ≠ []) ∧
      ∀ x, account ≠ x → s'.entriesOf x = s.entriesOf x ∧ s'.stakers[x]? = s.stakers[x]? := by
  rw [releaseUnbonding_eq] at h
  obtain ⟨_, paid, h, hdrop⟩ := Exec.bind_eq_ok.mp h
  obtain ⟨released, taken, htake, hpay⟩ := Exec.bind_eq_ok.mp h
  rw [modify_apply, ok.injEq, Prod.mk.injEq] at hdrop
  obtain ⟨-, rfl⟩ := hdrop
  have htaken : taken.Populated ∧ taken.stakers = s.stakers ∧
      ∀ x, taken.entriesOf x =
        if account = x then unmatured height (s.entriesOf account) else s.entriesOf x := by
    rw [readWrite_eq_ok] at htake
    unfold takeMatured at htake
    split at htake
    · rename_i hnone
      rw [ok.injEq, Prod.mk.injEq] at htake
      obtain ⟨-, rfl⟩ := htake
      refine ⟨hk, rfl, fun x => ?_⟩
      split
      · rename_i hx
        rw [← hx, entriesOf, hnone]
        rfl
      · rfl
    · rename_i entries hentries
      simp only [Outcome.bind_eq_ok, pure_eq, ok.injEq, Prod.mk.injEq] at htake
      obtain ⟨_, -, -, rfl⟩ := htake
      have hold : s.entriesOf account = entries := by rw [entriesOf, hentries, Option.getD_some]
      refine ⟨@Populated.write _ _ account _ hk rfl, rfl, fun x => ?_⟩
      rw [hold]
      exact entries_writeEntries s.unbonding account x _
  obtain ⟨hpopulated, hstakers, hentries⟩ := htaken
  have hbonds : paid.bonds = taken.bonds := (payOut_bonds taken).1 _ _ hpay
  have hpaidStakers : paid.stakers = s.stakers := (congrArg Bonds.stakers hbonds).trans hstakers
  have hpaid : paid.Populated := hpopulated.congr (congrArg Bonds.unbonding hbonds)
  have hpaidEntries : ∀ x, paid.entriesOf x = taken.entriesOf x := fun x => by
    have hu : paid.unbonding = taken.unbonding := congrArg Bonds.unbonding hbonds
    rw [entriesOf, hu]
    rfl
  unfold dropExited
  split
  · refine ⟨hpaid, ?_, fun info hi => ?_, fun x hx => ⟨?_, ?_⟩⟩
    · change paid.entriesOf account = _
      rw [hpaidEntries, hentries, if_pos rfl]
    · rw [eraseStaker_stakers, lookup_erase, if_pos rfl] at hi
      cases hi
    · change paid.entriesOf x = _
      rw [hpaidEntries, hentries, if_neg hx]
    · rw [eraseStaker_stakers, lookup_erase, if_neg hx, hpaidStakers]
  · rename_i hstays
    refine ⟨hpaid, ?_, fun info hi h0 => ?_, fun x hx => ⟨?_, ?_⟩⟩
    · rw [hpaidEntries, hentries, if_pos rfl]
    · -- a validator without stake that stays has an entry
      refine hpaid.mem_iff.mp (not_not.mp fun hout => hstays ⟨?_, hout⟩)
      rw [hi, Option.any_some]
      exact decide_eq_true h0
    · rw [hpaidEntries, hentries, if_neg hx]
    · rw [hpaidStakers]

/-- What a closed block leaves for an account: nothing overdue, and not just a dead entry. -/
def Settled (height : UInt64) (s : ChainState) (a : String) : Prop :=
  (∀ e ∈ s.entriesOf a, height < e.releaseHeight) ∧
    ∀ info, s.stakers[a]? = some info → info.stake = 0 → s.entriesOf a ≠ []

theorem releaseUnbonding_settled (hk : s.Populated)
    (h : releaseUnbonding E height account s = ok ((), s')) :
    Settled height s' account ∧ ∀ a, Settled height s a → Settled height s' a := by
  obtain ⟨-, hentries, hlive, hothers⟩ := releaseUnbonding_ok hk h
  have hown : Settled height s' account := by
    refine ⟨fun e he => ?_, hlive⟩
    rw [hentries, unmatured] at he
    exact UInt64.not_le.mp (of_decide_eq_true (List.mem_filter.mp he).2)
  refine ⟨hown, fun a ha => ?_⟩
  by_cases heq : account = a
  · exact heq ▸ hown
  · obtain ⟨he, hi⟩ := hothers a heq
    unfold Settled
    rw [he, hi]
    exact ha

/-- After the loop over the accounts with entries, each of them is settled. -/
theorem releaseUnbonding_forEach {accounts : List String} (hk : s.Populated)
    (h : forEach (releaseUnbonding E height) accounts s = ok ((), s')) :
    s'.Populated ∧ ∀ a, a ∈ accounts ∨ Settled height s a → Settled height s' a := by
  induction accounts generalizing s with
  | nil =>
    rw [forEach_nil, ok.injEq, Prod.mk.injEq] at h
    rw [← h.2]
    exact ⟨hk, fun a ha => ha.resolve_left nofun⟩
  | cons b rest ih =>
    rw [forEach_cons] at h
    obtain ⟨_, t, h₁, h₂⟩ := Exec.bind_eq_ok.mp h
    obtain ⟨hown, hkeep⟩ := releaseUnbonding_settled hk h₁
    obtain ⟨hpopulated, hrest⟩ := ih (releaseUnbonding_ok hk h₁).1 h₂
    refine ⟨hpopulated, fun a ha => ?_⟩
    rcases ha with ha | ha
    · rcases List.mem_cons.mp ha with rfl | ha
      · exact hrest a (Or.inr hown)
      · exact hrest a (Or.inl ha)
    · exact hrest a (Or.inr (hkeep a ha))

/-- Closing a block keeps the registry in order, and settles every account. -/
theorem InOrder.endBlock {slashed : String → Prop} (h : InOrder g slashed limit s)
    (hend : endBlock E height validator s = ok ((), s')) :
    InOrder g slashed limit s' ∧ ∀ a, Settled height s' a := by
  have hreleased := endBlock_released hend
  have hallow : s'.validatorAllowlist = s.validatorAllowlist :=
    (endBlock_leaves (g := validatorAllowlist) (fun _ _ _ => rfl) (fun _ _ => rfl)
      (fun _ _ => rfl) (fun _ _ => rfl) (fun _ _ => rfl) (fun _ _ => rfl) s).1 _ _ hend
  have hfilled := h.filled.endBlock hend
  obtain ⟨unbonded, vested, hu, hv, hf⟩ := endBlock_parts hend
  obtain ⟨hpopulated, hsettled⟩ := releaseUnbonding_forEach h.populated hu
  have hbonds : s'.bonds = unbonded.bonds := by
    rw [(settleFees_leaves (g := bonds) (fun _ _ _ => rfl) (fun _ _ => rfl) (fun _ _ => rfl)
      vested).1 _ _ hf]
    exact (Leaves.forEach (fun _ => releaseVesting_leaves (g := bonds) (fun _ _ _ => rfl)
      fun _ _ => rfl) _ unbonded).1 _ _ hv
  have hsu : s'.unbonding = unbonded.unbonding := congrArg Bonds.unbonding hbonds
  have hsk : s'.stakers = unbonded.stakers := congrArg Bonds.stakers hbonds
  have hall : ∀ a, Settled height s' a := by
    intro a
    have ha : Settled height unbonded a := by
      refine hsettled a ?_
      by_cases hkey : a ∈ s.unbonding
      · exact Or.inl (Std.ExtTreeMap.mem_keys.mpr hkey)
      · have hnil : s.entriesOf a = [] := not_not.mp fun hne => hkey (h.populated.mem_iff.mpr hne)
        refine Or.inr ⟨?_, h.live a⟩
        rw [hnil]
        exact nofun
    unfold Settled entriesOf
    rw [hsu, hsk]
    exact ha
  have hsub : ∀ a, ∀ e ∈ s'.entriesOf a, e ∈ s.entriesOf a := by
    intro a e he
    have hlate : e ∈ lateEntries height s' a := by
      refine List.mem_filter.mpr ⟨he, decide_eq_true (UInt64.not_le.mpr ((hall a).1 e he))⟩
    rw [hreleased.late a] at hlate
    exact (List.mem_filter.mp hlate).1
  have hstaker : ∀ (v : String) (info : StakeInfo), s'.stakers[v]? = some info → s.stakers[v]? = some info := by
    intro v info hi
    rcases hreleased.stakers v with hsame | ⟨hnone, -⟩
    · rw [← hsame, hi]
    · rw [hnone] at hi
      cases hi
  refine ⟨⟨hallow.trans h.allowlist, fun hlist v hv => ?_, fun v info hi => h.floor v info
    (hstaker v info hi), fun v => (hall v).2, fun v hne => ?_, hfilled, hpopulated.congr hsu,
    fun v e he => h.near v e (hsub v e he)⟩, hall⟩
  · obtain ⟨info, hi⟩ := Option.isSome_iff_exists.mp (Std.ExtTreeMap.mem_iff_isSome_getElem?.mp hv)
    exact h.listed hlist v (mem_of_lookup (hstaker v info hi))
  · obtain ⟨e, he⟩ := List.exists_mem_of_ne_nil _ hne
    have hmem := h.owned v (List.ne_nil_of_mem (hsub v e he))
    rcases hreleased.stakers v with hsame | ⟨-, -, hout⟩
    · rw [Std.ExtTreeMap.mem_iff_isSome_getElem?, hsame]
      exact Std.ExtTreeMap.mem_iff_isSome_getElem?.mp hmem
    · exact absurd ((hpopulated.congr hsu).mem_iff.mpr hne) hout

/-! ## Runs -/

theorem Slashed.append_iff {more : List Transaction} :
    Slashed (txs ++ more) v ↔ Slashed txs v ∨ Slashed more v := by
  simp only [Slashed, List.mem_append, or_and_right, exists_or]

/-- The transactions of a block keep the registry in order. -/
theorem InOrder.applies {slashed : String → Prop} (h : InOrder g slashed limit s)
    (hlimit : limit ≤ height.toNat + unbondingBlocks.toNat) (htxs : Applies E height s mid txs) :
    InOrder g (fun v => slashed v ∨ Slashed txs v) (height.toNat + unbondingBlocks.toNat) mid := by
  induction htxs with
  | none => exact h.congr rfl rfl (fun _ => Or.inl) hlimit
  | next _ _ hver ha ih =>
    refine (ih.applyVerified le_rfl hver ha).congr rfl rfl (fun v hv => ?_) le_rfl
    rw [Slashed.append_iff, ← or_assoc]
    exact hv

theorem unseat_stakers (s : ChainState) (treasury : String) (info : StakeInfo) :
    (s.unseat treasury info).stakers = s.stakers.erase treasury := by
  unfold ChainState.unseat
  dsimp only
  split <;> rfl

/-- A genesis has at most one validator, which bonds the genesis stake as far as the supply goes. -/
theorem GenesisState.bonded (hg : GenesisState E supply g) : ∃ treasury,
    ∀ (v : String) (info : StakeInfo), g.stakers[v]? = some info →
      v = treasury ∧ info.stake = min genesisValidatorStake supply := by
  induction hg with
  | built _ treasury treasuryPublicKey treasuryVrfPublicKey =>
    refine ⟨treasury, fun v info hi => ?_⟩
    cases treasuryPublicKey with
    | none =>
      change (∅ : BTreeMap StakeInfo)[v]? = some info at hi
      rw [Std.ExtTreeMap.getElem?_empty] at hi
      cases hi
    | some publicKey =>
      change ((∅ : BTreeMap StakeInfo).insert treasury
        ⟨min genesisValidatorStake supply, publicKey, treasuryVrfPublicKey.getD "", ""⟩)[v]? =
          some info at hi
      rw [lookup_insert] at hi
      split at hi
      · rename_i heq
        rw [← Option.some.inj hi]
        exact ⟨heq.symm, rfl⟩
      · rw [Std.ExtTreeMap.getElem?_empty] at hi
        cases hi
  | policy _ _ ih => exact ih
  | seated seat pqPublicKey _ _ ih =>
    obtain ⟨treasury, ih⟩ := ih
    refine ⟨treasury, fun v info hi => ?_⟩
    unfold seatGenesisValidatorPqKey at hi
    split at hi
    · exact ih v info hi
    · split at hi
      · exact ih v info hi
      · rename_i old hold
        split at hi
        · rw [setStaker_stakers, lookup_insert] at hi
          split at hi
          · rename_i heq
            rw [← Option.some.inj hi]
            exact heq ▸ ih seat old hold
          · exact ih v info hi
        · rw [unseat_stakers, lookup_erase] at hi
          split at hi
          · cases hi
          · exact ih v info hi

/-- At genesis the registry is in order, when the supply covers the floor. -/
theorem GenesisState.inOrder (hg : GenesisState E supply g) (hsupply : minValidatorStake ≤ supply)
    (slashed : String → Prop) (limit : ℕ) : InOrder g slashed limit g := by
  have hnone : ∀ v, g.entriesOf v = [] := fun v => by
    rw [entriesOf, hg.unbonding_empty, Std.ExtTreeMap.getElem?_empty, Option.getD_none]
  obtain ⟨treasury, hbonded⟩ := hg.bonded
  have hfloor : ∀ (v : String) (info : StakeInfo), g.stakers[v]? = some info →
      minValidatorStake ≤ info.stake := by
    intro v info hi
    have hmin : minValidatorStake.toNat ≤ genesisValidatorStake.toNat := by decide
    rw [(hbonded v info hi).2, UInt64.le_iff_toNat_le, Word.min_toNat]
    exact le_min hmin (UInt64.le_iff_toNat_le.mp hsupply)
  refine ⟨rfl, fun _ v hv => Or.inl hv, fun v info hi _ => Or.inr (hfloor v info hi),
    fun v info hi h0 => ?_, fun v hv => absurd (hnone v) hv, fun v e he => ?_, fun a => ?_,
    fun v e he => ?_⟩
  · have hle := hfloor v info hi
    rw [h0] at hle
    exact absurd hle (by decide)
  · rw [hnone] at he
    cases he
  · rw [hg.unbonding_empty, Std.ExtTreeMap.getElem?_empty]
    exact (Option.some_ne_none _).symm
  · rw [hnone] at he
    cases he

/-- Along a run the registry is in order at every block boundary, and every account settled. -/
theorem Timeline.inOrder (hg : GenesisState E supply g) (hsupply : minValidatorStake ≤ supply)
    (h : Timeline E g s history) :
    InOrder g (Slashed (history.flatMap PastBlock.transactions))
      ((lastHeight history).toNat + unbondingBlocks.toNat) s ∧
      ∀ a, Settled (lastHeight history) s a := by
  induction h with
  | start =>
    have hstart := hg.inOrder hsupply (Slashed []) ((lastHeight []).toNat + unbondingBlocks.toNat)
    refine ⟨hstart, fun a => ⟨fun e he => ?_, hstart.live a⟩⟩
    rw [entriesOf, hg.unbonding_empty, Std.ExtTreeMap.getElem?_empty, Option.getD_none] at he
    cases he
  | block _ hlater htxs _ hend ih =>
    have hlimit := Nat.add_le_add_right (UInt64.le_iff_toNat_le.mp (UInt64.le_of_lt hlater))
      unbondingBlocks.toNat
    obtain ⟨horder, hsettled⟩ := (ih.1.applies hlimit htxs).endBlock hend
    rw [lastHeight_append]
    refine ⟨horder.congr rfl rfl (fun v hv => ?_) le_rfl, hsettled⟩
    rw [List.flatMap_append, List.flatMap_singleton, Slashed.append_iff]
    exact hv

/-! ## Main result -/

/-- At every block boundary of a run from a genesis that covers the floor: under an allowlist only
the genesis validator and listed addresses are registered; nobody who was never slashed holds less
than the floor; no entry without stake is left alone, no unbonding account is unregistered; and
every entry holds something that is released later, within the unbonding period. -/
theorem registry_in_order (hg : GenesisState E supply g) (hsupply : minValidatorStake ≤ supply)
    (h : Timeline E g s history) :
    (∃ treasury, ∀ v ∈ g.stakers, v = treasury) ∧
      s.validatorAllowlist = g.validatorAllowlist ∧
      (s.validatorAllowlist.isEmpty = false → ∀ v ∈ s.stakers,
        v ∈ g.stakers ∨ v ∈ s.validatorAllowlist) ∧
      (∀ (v : String) (info : StakeInfo), s.stakers[v]? = some info →
        (¬ Slashed (history.flatMap PastBlock.transactions) v →
          info.stake = 0 ∨ minValidatorStake ≤ info.stake) ∧
        (info.stake = 0 → s.entriesOf v ≠ [])) ∧
      (∀ v ∈ s.unbonding, v ∈ s.stakers) ∧
      ∀ v, ∀ e ∈ s.entriesOf v, 0 < e.amount.toNat ∧ lastHeight history < e.releaseHeight ∧
        e.releaseHeight.toNat ≤ (lastHeight history).toNat + unbondingBlocks.toNat := by
  obtain ⟨horder, hsettled⟩ := h.inOrder hg hsupply
  obtain ⟨treasury, hbonded⟩ := hg.bonded
  refine ⟨⟨treasury, fun v hv => ?_⟩, horder.allowlist, ?_, fun v info hi =>
    ⟨horder.floor v info hi, horder.live v info hi⟩, fun v hv => horder.owned v
      (horder.populated.mem_iff.mp hv), fun v e he => ⟨horder.filled v e he, (hsettled v).1 e he,
        horder.near v e he⟩⟩
  · obtain ⟨info, hi⟩ := Option.isSome_iff_exists.mp (Std.ExtTreeMap.mem_iff_isSome_getElem?.mp hv)
    exact (hbonded v info hi).1
  · rw [horder.allowlist]
    exact horder.listed

end ChainState

namespace Sample

open ChainState

/-- The ledger after block 1, in which holder 7 withdrew most of its stake. -/
theorem exists_leaving : ∃ s history, Timeline (node []) (genesis 1000000000000000000) s history ∧
    lastHeight history = 1 ∧ ⟨990000000000, 21⟩ ∈ s.entriesOf (address 7) := by
  have hrun : ((applyVerified (node []) payment 1 (genesis 1000000000000000000)).returns fun r =>
      (applyVerified (node []) partialExit 1 r.2).returns fun r' =>
        decide (r'.2.entriesOf (address 7) = [⟨990000000000, 21⟩])) = true := by
    decide +kernel
  obtain ⟨⟨⟨⟩, paid⟩, hpay, hrun⟩ := exists_of_returns hrun
  obtain ⟨⟨⟨⟩, mid⟩, hexit, hentries⟩ := exists_of_returns hrun
  rw [decide_eq_true_eq] at hentries
  have hreach : Reachable (node []) (genesis 1000000000000000000) := genesis_reachable _
  have htxs : Applies (node []) 1 (genesis 1000000000000000000) mid ([] ++ [payment] ++ [partialExit]) :=
    (Applies.none.next address_valid payment_verified hpay).next address_valid
      (rfl : partialExit.verifyForBlock (node []) (address 7) = ok ()) hexit
  obtain ⟨s, hclose, -⟩ := ((htxs.reachable hreach).sound rfl).endBlock (E := node [])
    (Or.inl rfl) address_valid 1
  refine ⟨s, _, Timeline.start.block (by decide) htxs address_valid hclose.returns,
    lastHeight_append _ _, ?_⟩
  have hlate : lateEntries 1 s (address 7) = [⟨990000000000, 21⟩] := by
    rw [(endBlock_released hclose.returns).late, lateEntries, hentries]
    decide
  have hmem : ⟨990000000000, 21⟩ ∈ lateEntries 1 s (address 7) := by
    rw [hlate]
    exact List.mem_singleton_self _
  exact (List.mem_filter.mp hmem).1

end Sample

namespace ChainState

/-- Holder 7 is registered while its stake is unbonding, until block 21. -/
theorem registry_in_order_sample : ∃ s history,
    Timeline (Sample.node []) (Sample.genesis 1000000000000000000) s history ∧
      Sample.address 7 ∈ s.stakers ∧
      ∀ e ∈ s.entriesOf (Sample.address 7), 1 < e.releaseHeight ∧ e.releaseHeight.toNat ≤ 21 := by
  obtain ⟨s, history, h, hlast, hmem⟩ := Sample.exists_leaving
  obtain ⟨-, -, -, -, howned, hentries⟩ := registry_in_order
    (Sample.genesis_state 1000000000000000000) (by decide) h
  refine ⟨s, history, h, howned _ ?_, fun e he => ?_⟩
  · rw [Std.ExtTreeMap.mem_iff_isSome_getElem?]
    refine Option.isSome_iff_ne_none.mpr fun hnone => ?_
    rw [entriesOf, hnone] at hmem
    cases hmem
  · obtain ⟨-, hlater, hnear⟩ := hentries _ e he
    rw [hlast] at hlater hnear
    exact ⟨hlater, hnear⟩

end ChainState
