/-
# The validator registry

What can happen to the staker entries and the unbonding entries: a stake adds to its sender's
entry and registers the keys it carries, a withdrawal moves bonded stake into a new unbonding
entry, a slash takes from both, and no other transaction touches them.  Closing a block
releases what has matured and drops stakers with nothing left.
-/
import Mathlib.Tactic
import Hikmalayer.Ledger.Nonces

open Outcome Exec OrderedMap

namespace ChainState

variable {E : Node} {s s' s₀ : ChainState} {tx : Transaction} {height amount : UInt64}
  {account x : String}

/-- The staker entries and the unbonding entries. -/
structure Bonds where
  stakers : BTreeMap StakeInfo
  unbonding : BTreeMap (List UnbondingEntry)

def bonds (s : ChainState) : Bonds := ⟨s.stakers, s.unbonding⟩

/-- The unbonding entries of an account. -/
def entriesOf (s : ChainState) (account : String) : List UnbondingEntry :=
  s.unbonding[account]?.getD []

/-! ## What entries owe -/

/-- The amounts of the entries whose release height satisfies `p`. -/
def owed (p : UInt64 → Bool) (entries : List UnbondingEntry) : ℕ :=
  entriesSum (entries.filter fun e => p e.releaseHeight)

@[simp] theorem owed_nil (p : UInt64 → Bool) : owed p [] = 0 := rfl

theorem owed_cons (p : UInt64 → Bool) (e : UnbondingEntry) (rest : List UnbondingEntry) :
    owed p (e :: rest) = (if p e.releaseHeight then e.amount.toNat else 0) + owed p rest := by
  unfold owed
  rw [List.filter_cons]
  by_cases h : p e.releaseHeight = true
  · rw [if_pos h, if_pos h]
    rfl
  · rw [if_neg h, if_neg h, Nat.zero_add]

theorem owed_append (p : UInt64 → Bool) (l l' : List UnbondingEntry) :
    owed p (l ++ l') = owed p l + owed p l' := by
  rw [owed, List.filter_append, entriesSum_append]
  rfl

/-- Dropping empty entries changes nothing that is owed. -/
theorem owed_filter_pos (p : UInt64 → Bool) (entries : List UnbondingEntry) :
    owed p (entries.filter fun e => 0 < e.amount) = owed p entries := by
  have hcomm : (entries.filter fun e => 0 < e.amount).filter (fun e => p e.releaseHeight) =
      (entries.filter fun e => p e.releaseHeight).filter fun e => 0 < e.amount := by
    simp only [List.filter_filter, Bool.and_comm]
  rw [owed, hcomm, entriesSum_filter_pos]
  rfl

/-- Taking from the entries takes no more than asked from those that satisfy `p`. -/
theorem takeFromEntries_owed (p : UInt64 → Bool) {entries : List UnbondingEntry} :
    ∀ {remaining : UInt64} {entries' : List UnbondingEntry},
      takeFromEntries remaining entries = ok entries' →
        owed p entries ≤ owed p entries' + remaining.toNat := by
  induction entries with
  | nil => exact fun _ => Nat.zero_le _
  | cons entry rest ih =>
    intro remaining entries' h
    simp only [takeFromEntries, Outcome.bind_eq_ok, plain_eq_ok, Word.checkedSub_eq_some] at h
    obtain ⟨amount, ha, left, hl, h⟩ := h
    have hone : ∀ rest', owed p rest ≤ owed p rest' + left.toNat →
        owed p (entry :: rest) ≤ owed p (⟨amount, entry.releaseHeight⟩ :: rest') + remaining.toNat := by
      intro rest' hrest
      rw [owed_cons, owed_cons]
      dsimp only
      split <;> omega
    split at h
    · rw [pure_eq, ok.injEq] at h
      subst h
      exact hone rest (Nat.le_add_right _ _)
    · simp only [Outcome.bind_eq_ok, pure_eq, ok.injEq] at h
      obtain ⟨rest', hrest, rfl⟩ := h
      exact hone rest' (ih hrest)

/-- Which entries an account has after its list is replaced. -/
theorem entries_writeEntries {β : Type} (m : BTreeMap (List β)) (k a : String) (l : List β) :
    (writeEntries m k l)[a]?.getD [] = if k = a then l else m[a]?.getD [] := by
  rw [lookup_writeEntries]
  by_cases ha : k = a
  · rw [if_pos ha, if_pos ha]
    split
    · rename_i hl
      rw [List.isEmpty_iff.mp hl]
      rfl
    · rfl
  · rw [if_neg ha, if_neg ha]

/-- Replacing the entries of an account adds no other account. -/
theorem mem_of_mem_writeEntries {β : Type} {m : BTreeMap (List β)} {k a : String} {l : List β}
    (hk : k ∈ m) (ha : a ∈ writeEntries m k l) : a ∈ m := by
  by_cases he : k = a
  · exact he ▸ hk
  · rw [Std.ExtTreeMap.mem_iff_isSome_getElem?, lookup_writeEntries, if_neg he] at ha
    exact Std.ExtTreeMap.mem_iff_isSome_getElem?.mpr ha

/-- What a slash takes from the unbonding entries. -/
theorem slashUnbonding_owed {validator : String} {remaining : UInt64}
    (h : slashUnbonding validator remaining s = ok ((), s')) :
    (∃ unbonding, s' = s.setUnbonding unbonding) ∧
      (∀ k, validator ≠ k → s'.entriesOf k = s.entriesOf k) ∧
      (∀ p, owed p (s.entriesOf validator) ≤ owed p (s'.entriesOf validator) + remaining.toNat) ∧
      entriesSum (s'.entriesOf validator) +
        min remaining.toNat (entriesSum (s.entriesOf validator)) =
          entriesSum (s.entriesOf validator) := by
  rw [slashUnbonding, update_eq_ok] at h
  split at h
  · rename_i h0
    rw [ok.injEq] at h
    refine h ▸ ⟨⟨s.unbonding, rfl⟩, fun _ _ => rfl, fun _ => Nat.le_add_right _ _, ?_⟩
    rw [h0, UInt64.toNat_zero, Nat.zero_min, Nat.add_zero]
  · split at h
    · rename_i hnone
      rw [ok.injEq] at h
      refine h ▸ ⟨⟨s.unbonding, rfl⟩, fun _ _ => rfl, fun _ => Nat.le_add_right _ _, ?_⟩
      rw [entriesOf, hnone, Option.getD_none, entriesSum_nil, Nat.min_zero]
    · rename_i entries he
      obtain ⟨taken, htotal, hsum⟩ := takeFromEntries_total entries remaining
      simp only [Outcome.bind_eq_ok, pure_eq, ok.injEq] at h
      obtain ⟨entries', ht, rfl⟩ := h
      have hread : ∀ k, (s.setUnbonding (writeEntries s.unbonding validator
          (entries'.filter fun e => 0 < e.amount))).entriesOf k =
          if validator = k then entries'.filter fun e => 0 < e.amount else s.entriesOf k :=
        fun k => entries_writeEntries s.unbonding validator k _
      have hold : s.entriesOf validator = entries := by rw [entriesOf, he, Option.getD_some]
      refine ⟨⟨_, rfl⟩, fun k hk => by rw [hread, if_neg hk], fun p => ?_, ?_⟩
      · rw [hread, if_pos rfl, owed_filter_pos, hold]
        exact takeFromEntries_owed p ht
      · rw [htotal, ok.injEq] at ht
        rw [hread, if_pos rfl, entriesSum_filter_pos, hold, ← ht]
        exact hsum

/-! ## Transactions -/

/-- What an applied transaction did to the registry. -/
inductive BondStep (E : Node) (tx : Transaction) (height : UInt64) (s s' : ChainState) : Prop
  | stake {r : StakeRequest} {stake : UInt64} {pqPublicKey : String}
      (ht : tx.transactionType = .stake) (hc : stakeChecks E tx s = ok r)
      (hstake : stake.toNat = (s.stakers[r.sender]?.getD .empty).stake.toNat + tx.amount.toNat)
      (hpq : Hybrid.schemeOf r.sender = some .hybrid → tx.pqPublicKey = some pqPublicKey)
      (hb : s'.bonds = ⟨s.stakers.insert r.sender ⟨stake, r.publicKey, r.vrfPublicKey, pqPublicKey⟩,
        s.unbonding⟩)
      (hnone : Hybrid.schemeOf r.sender ≠ some .hybrid → pqPublicKey = "")
  | withdraw {r : WithdrawRequest} {info : StakeInfo} {releaseHeight : UInt64}
      (ht : tx.transactionType = .withdraw) (hc : withdrawChecks E tx s = ok r)
      (hi : s.stakers[r.sender]? = some info)
      (hrest : r.remaining.toNat + tx.amount.toNat = info.stake.toNat)
      (hrelease : releaseHeight.toNat = height.toNat + unbondingBlocks.toNat)
      (hb : s'.bonds = ⟨s.stakers.insert r.sender { info with stake := r.remaining },
        s.unbonding.insert r.sender (s.entriesOf r.sender ++ [⟨tx.amount, releaseHeight⟩])⟩)
  | slash {r : SlashRequest} {info : StakeInfo} {stake : UInt64}
      (ht : tx.transactionType = .slash) (hc : slashChecks tx height s = ok r)
      (hi : s.stakers[tx.recipient]? = some info)
      (hk : s'.stakers = s.stakers.insert tx.recipient { info with stake })
      (hothers : ∀ k, tx.recipient ≠ k → s'.entriesOf k = s.entriesOf k)
      (hloss : stake.toNat + entriesSum (s'.entriesOf tx.recipient) + r.slashed.toNat =
        info.stake.toNat + entriesSum (s.entriesOf tx.recipient))
      (htake : ∀ p, info.stake.toNat + owed p (s.entriesOf tx.recipient) ≤
        stake.toNat + owed p (s'.entriesOf tx.recipient) + r.slashed.toNat)
      (hrecord : s'.slashedOffenses = s.slashedOffenses.insert r.offenseKey r.slashed)
  | other (ht : tx.transactionType ≠ .stake ∧ tx.transactionType ≠ .withdraw ∧
        tx.transactionType ≠ .slash) (hb : s'.bonds = s.bonds)

/-- A withdrawal's mutations, as far as the registry goes. -/
theorem withdrawEffects_bonds {r : WithdrawRequest}
    (h : withdrawEffects E tx height r s = ok ((), s')) :
    ∃ (info : StakeInfo) (releaseHeight : UInt64), s.stakers[r.sender]? = some info ∧
      releaseHeight.toNat = height.toNat + unbondingBlocks.toNat ∧
      s'.bonds = ⟨s.stakers.insert r.sender { info with stake := r.remaining },
        s.unbonding.insert r.sender (s.entriesOf r.sender ++ [⟨tx.amount, releaseHeight⟩])⟩ := by
  simp only [withdrawEffects, Exec.bind_eq_ok, read_eq_ok, ok.injEq, debit_eq_ok, plain_eq_ok,
    collectFee_eq_ok, setStake_eq_ok, modify_apply, Prod.mk.injEq, Word.checkedAdd_eq_some] at h
  obtain ⟨_, _, ⟨rfl, rfl⟩, _, _, ⟨rest, -, rfl⟩, _, _, ⟨pot, -, rfl⟩, _, _,
    ⟨info, hi, rfl⟩, releaseHeight, _, ⟨hrel, rfl⟩, -, rfl⟩ := h
  exact ⟨info, releaseHeight, hi, hrel, rfl⟩

/-- The mutations of the other signed types leave the registry alone. -/
theorem Mutation.bonds {effects : StateAction} (h : Mutation E tx height s account effects)
    (hs : tx.transactionType ≠ .stake) (hw : tx.transactionType ≠ .withdraw) :
    Leaves bonds effects :=
  h.leaves ⟨fun _ _ _ => rfl, fun _ _ => rfl, fun _ _ _ => rfl, fun _ _ _ => rfl,
    fun _ _ _ => rfl⟩ (fun ht => absurd ht (not_or.mpr ⟨hs, hw⟩)) (fun ht => absurd ht hw)
    (fun _ _ _ => rfl) (fun _ _ _ _ => rfl) fun _ _ _ _ => rfl

/-- A slash takes something. -/
theorem slashChecks_pos {r : SlashRequest} (h : slashChecks tx height s = ok r) :
    0 < r.slashed.toNat := by
  simp only [slashChecks, Outcome.bind_eq_ok, okOr_eq_ok, ensure_eq_ok, plain_eq_ok, pure_eq,
    ok.injEq] at h
  obtain ⟨_, -, _, -, _, -, _, -, _, -, _, -, _, -, _, -, _, hne, rfl⟩ := h
  exact Nat.pos_of_ne_zero fun h0 => hne (Word.toNat_ext h0)

/-- An applied slash ran the branch of slashes. -/
theorem Applied.slashed (h : Applied E tx height s s') (ht : tx.transactionType = .slash) :
    applySlash E tx height s = ok ((), s') := by
  cases h with
  | signed hm =>
    have hsig := hm.signer
    rw [Transaction.signer, ht] at hsig
    cases hsig
  | reward ht' => rw [ht] at ht'; cases ht'
  | anchor ht' => rw [ht] at ht'; cases ht'
  | slash _ he => exact he

/-- What a slash leaves of the unbonding entries. -/
theorem slashUnbonding_writes {validator : String} {remaining : UInt64}
    (h : slashUnbonding validator remaining s = ok ((), s')) :
    s'.unbonding = s.unbonding ∨ ∃ entries', takeFromEntries remaining (s.entriesOf validator) =
      ok entries' ∧ s'.unbonding =
        writeEntries s.unbonding validator (entries'.filter fun e => 0 < e.amount) := by
  rw [slashUnbonding, update_eq_ok] at h
  split at h
  · rw [ok.injEq] at h
    exact Or.inl (h ▸ rfl)
  · split at h
    · rw [ok.injEq] at h
      exact Or.inl (h ▸ rfl)
    · rename_i entries he
      simp only [Outcome.bind_eq_ok, pure_eq, ok.injEq] at h
      obtain ⟨entries', ht, rfl⟩ := h
      exact Or.inr ⟨entries', by rw [entriesOf, he, Option.getD_some, ht], rfl⟩

/-- Every other mutation of a slash leaves the unbonding entries alone. -/
theorem applySlash_writes (h : applySlash E tx height s = ok ((), s')) :
    s'.unbonding = s.unbonding ∨ ∃ remaining entries',
      takeFromEntries remaining (s.entriesOf tx.recipient) = ok entries' ∧ s'.unbonding =
        writeEntries s.unbonding tx.recipient (entries'.filter fun e => 0 < e.amount) := by
  obtain ⟨r, t, hread, he⟩ := Exec.bind_eq_ok.mp h
  obtain ⟨-, rfl⟩ := read_eq_ok.mp hread
  simp only [slashEffects, Exec.bind_eq_ok, read_eq_ok, debit_eq_ok, update_eq_ok,
    Outcome.bind_eq_ok, plain_eq_ok, pure_eq, ok.injEq, setStake_eq_ok, modify_apply,
    Prod.mk.injEq] at he
  obtain ⟨_, _, ⟨_, -, rfl⟩, _, _, ⟨_, -, _, -, rfl⟩, _, _, ⟨-, rfl⟩, _, _, ⟨_, -, rfl⟩,
    remaining, _, ⟨-, rfl⟩, _, t, hu, -, rfl⟩ := he
  rcases slashUnbonding_writes hu with hsame | ⟨entries', ht, hw⟩
  · exact Or.inl hsame
  · exact Or.inr ⟨remaining, entries', ht, hw⟩

/-- A slash, as far as the registry and the record of offenses go. -/
theorem applySlash_bondStep (ht : tx.transactionType = .slash)
    (h : applySlash E tx height s = ok ((), s')) : BondStep E tx height s s' := by
  obtain ⟨r, t, hread, he⟩ := Exec.bind_eq_ok.mp h
  obtain ⟨hc, rfl⟩ := read_eq_ok.mp hread
  obtain ⟨proof, info, -, hi, -, -, -, hstake, hle⟩ := slashChecks_ok hc
  have hmin := Word.min_toNat r.slashed r.stake
  simp only [slashEffects, Exec.bind_eq_ok, read_eq_ok, debit_eq_ok, update_eq_ok,
    Outcome.bind_eq_ok, plain_eq_ok, pure_eq, ok.injEq, Word.checkedSub_eq_some, setStake_eq_ok,
    modify_apply, Prod.mk.injEq] at he
  obtain ⟨_, _, ⟨pool, -, rfl⟩, _, _, ⟨burned, -, totalSupply, -, rfl⟩, stake, _, ⟨hs, rfl⟩,
    _, _, ⟨info', hi', rfl⟩, remaining, _, ⟨hr, rfl⟩, _, t, hu, -, rfl⟩ := he
  have hinfo : info' = info := by
    have h' : s.stakers[tx.recipient]? = some info' := hi'
    rw [hi, Option.some.injEq] at h'
    exact h'.symm
  obtain ⟨⟨unbonding, rfl⟩, hothers, hold, hsum⟩ := slashUnbonding_owed hu
  rw [hstake] at hs hr hmin
  refine .slash ht hc hi (by rw [← hinfo]; rfl) hothers ?_ (fun p => ?_) rfl
  · change _ + entriesSum (unbonding[tx.recipient]?.getD []) + _ = _
    change entriesSum (unbonding[tx.recipient]?.getD []) + min remaining.toNat
      (entriesSum (s.unbonding[tx.recipient]?.getD [])) =
        entriesSum (s.unbonding[tx.recipient]?.getD []) at hsum
    change _ = _ + entriesSum (s.unbonding[tx.recipient]?.getD [])
    omega
  · have hp : owed p (s.entriesOf tx.recipient) ≤
        owed p (unbonding[tx.recipient]?.getD []) + remaining.toNat := hold p
    change _ ≤ stake.toNat + owed p (unbonding[tx.recipient]?.getD []) + _
    omega

/-- Every applied transaction is one of the four. -/
theorem Applied.bondStep (h : Applied E tx height s s') : BondStep E tx height s s' := by
  cases h with
  | @signed account effects hm hn he =>
    by_cases hs : tx.transactionType = .stake
    · cases hm with
      | stake ht hc =>
        obtain ⟨_, _, _, stake, pq, -, -, -, hstake, ⟨hpq, hnone⟩, hs'⟩ := stakeEffects_ok he
        exact .stake ht hc hstake hpq (by rw [hs']; rfl) hnone
      | _ ht => rw [hs] at ht; cases ht
    by_cases hw : tx.transactionType = .withdraw
    · cases hm with
      | withdraw ht hc =>
        obtain ⟨info, releaseHeight, hi, hrel, hb⟩ := withdrawEffects_bonds he
        obtain ⟨info', -, hi', hrest⟩ := withdrawChecks_ok hc
        have hsame : s.stakers[_]? = some info := hi
        rw [hsame, Option.some.injEq] at hi'
        exact .withdraw ht hc hi (hi' ▸ hrest) hrel hb
      | _ ht => rw [hw] at ht; cases ht
    · refine .other ⟨hs, hw, fun ht => ?_⟩ ((hm.bonds hs hw (s.setNonce account tx.nonce)).1 _ _ he)
      have hsig := hm.signer
      rw [Transaction.signer, ht] at hsig
      cases hsig
  | reward ht he =>
    refine .other ⟨?_, ?_, ?_⟩ ((applyReward_leaves (g := ChainState.bonds) (fun _ _ _ => rfl)
      (fun _ _ _ => rfl) s).1 _ _ he) <;> rw [ht] <;> decide
  | slash ht he => exact applySlash_bondStep ht he
  | anchor ht _ he =>
    refine .other ⟨?_, ?_, ?_⟩ (congrArg ChainState.bonds he) <;> rw [ht] <;> decide

/-! ## Closing a block -/

/-- The entries of an account that a block at `height` does not release yet. -/
def lateEntries (height : UInt64) (s : ChainState) (account : String) : List UnbondingEntry :=
  unmatured height (s.entriesOf account)

/-- Releasing stake: the late entries stay, accounts only leave the unbonding map, and a staker
leaves only when it has neither stake nor entries. -/
structure Released (height : UInt64) (s s' : ChainState) : Prop where
  late : ∀ k, lateEntries height s' k = lateEntries height s k
  keys : ∀ k, k ∈ s'.unbonding → k ∈ s.unbonding
  stakers : ∀ k, s'.stakers[k]? = s.stakers[k]? ∨ s'.stakers[k]? = none ∧
    (∀ info, s.stakers[k]? = some info → info.stake = 0) ∧ ¬ k ∈ s'.unbonding

theorem Released.refl (height : UInt64) (s : ChainState) : Released height s s :=
  ⟨fun _ => rfl, fun _ hk => hk, fun _ => Or.inl rfl⟩

theorem Released.of_bonds (h : Released height s₀ s) (hb : s'.bonds = s.bonds) :
    Released height s₀ s' := by
  have hk : s'.stakers = s.stakers := congrArg Bonds.stakers hb
  have hu : s'.unbonding = s.unbonding := congrArg Bonds.unbonding hb
  refine ⟨fun k => ?_, fun k => ?_, fun k => ?_⟩
  · rw [← h.late k, lateEntries, entriesOf, hu]
    rfl
  · rw [hu]
    exact h.keys k
  · rw [hk, hu]
    exact h.stakers k

theorem unmatured_unmatured (height : UInt64) (entries : List UnbondingEntry) :
    unmatured height (unmatured height entries) = unmatured height entries := by
  unfold unmatured
  rw [List.filter_filter]
  simp only [Bool.and_self]

/-- Taking the matured entries of an account. -/
theorem Released.takeMatured {released : UInt64} (h : Released height s₀ s)
    (ht : takeMatured height account s = ok (released, s')) : Released height s₀ s' := by
  unfold ChainState.takeMatured at ht
  split at ht
  · rw [ok.injEq, Prod.mk.injEq] at ht
    exact ht.2 ▸ h
  · rename_i entries he
    simp only [Outcome.bind_eq_ok, pure_eq, ok.injEq, Prod.mk.injEq] at ht
    obtain ⟨_, -, -, rfl⟩ := ht
    have hkeys : ∀ k, k ∈ writeEntries s.unbonding account (unmatured height entries) →
        k ∈ s.unbonding := fun k => mem_of_mem_writeEntries (mem_of_lookup he)
    refine ⟨fun k => ?_, fun k hk => h.keys k (hkeys k hk), fun k => ?_⟩
    · rw [← h.late k]
      change unmatured height ((writeEntries s.unbonding account
        (unmatured height entries))[k]?.getD []) = unmatured height (s.unbonding[k]?.getD [])
      rw [entries_writeEntries]
      split
      · rename_i ha
        rw [← ha, he, Option.getD_some, unmatured_unmatured]
      · rfl
    · rcases h.stakers k with hk | ⟨hn, hz, hu⟩
      · exact Or.inl hk
      · exact Or.inr ⟨hn, hz, fun hk => hu (hkeys k hk)⟩

/-- Dropping a staker without stake or entries. -/
theorem Released.dropExited (h : Released height s₀ s) (account : String) :
    Released height s₀ (dropExited account s) := by
  unfold ChainState.dropExited
  split
  · rename_i hexit
    refine ⟨h.late, h.keys, fun k => ?_⟩
    rw [eraseStaker_stakers, lookup_erase]
    by_cases hk : account = k
    · subst hk
      rw [if_pos rfl]
      refine Or.inr ⟨rfl, fun info hi => ?_, hexit.2⟩
      rcases h.stakers account with heq | ⟨-, hz, -⟩
      · obtain ⟨info', hi', h0⟩ := (Option.any_eq_true _ _).mp hexit.1
        rw [heq, hi, Option.some.injEq] at hi'
        exact hi' ▸ of_decide_eq_true h0
      · exact hz info hi
    · rw [if_neg hk]
      exact h.stakers k
  · exact h

theorem payOut_bonds {reserve : String} : Leaves bonds (payOut E reserve account amount) :=
  payOut_leaves (fun _ _ _ => rfl) reserve

/-- Closing a block does no more to the registry than releasing matured stake. -/
theorem endBlock_released {validator : String} (h : endBlock E height validator s = ok ((), s')) :
    Released height s s' := by
  have hbonds : ∀ {α : Type} {x : Exec String ChainState α}, Leaves bonds x →
      Preserves (Released height s) x := fun hx t a t' ht hok => ht.of_bonds ((hx t).1 a t' hok)
  refine Preserves.bind (Preserves.read _) (fun _ => Preserves.bind
    (Preserves.forEach fun account _ => ?_) fun _ => (Preserves.read _).bind fun _ => ?_) s () s'
      (Released.refl height s) h
  · refine Preserves.bind (Preserves.readWrite fun t a t' ht hok => ht.takeMatured hok) fun _ =>
      (hbonds payOut_bonds).bind fun _ => Preserves.modify fun t ht => ?_
    exact ht.dropExited account
  · exact (hbonds (Leaves.forEach (fun _ =>
      releaseVesting_leaves (fun _ _ _ => rfl) fun _ _ => rfl) _)).bind fun _ =>
        hbonds (settleFees_leaves (fun _ _ _ => rfl) (fun _ _ => rfl) fun _ _ => rfl)

end ChainState
