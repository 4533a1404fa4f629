/-
# Totals of the state's maps

What a map of the state adds up to: balances, bonded stake, unbonding entries,
unvested amounts, pool reserves.  Each total comes with the equation for writing one
entry, without subtraction, so that a chain of writes is solved by linear arithmetic.
-/
import Mathlib.Tactic
import Hikmalayer.Model.Apply

open OrderedMap

namespace ChainState

/-! ## Reading after writing -/

theorem valueAt_insert (m : BTreeMap UInt64) (k a : String) (v : UInt64) :
    valueAt (m.insert k v) a = if k = a then v else valueAt m a := by
  unfold valueAt
  rw [lookup_insert]
  split <;> rfl

theorem valueAt_erase (m : BTreeMap UInt64) (k a : String) :
    valueAt (m.erase k) a = if k = a then 0 else valueAt m a := by
  unfold valueAt
  rw [lookup_erase]
  split <;> rfl

/-- Removing a zero entry reads like writing it. -/
theorem valueAt_writeOrRemove (m : BTreeMap UInt64) (k a : String) (v : UInt64) :
    valueAt (writeOrRemove m k v) a = if k = a then v else valueAt m a := by
  unfold writeOrRemove
  split
  · rename_i hv
    rw [valueAt_erase, hv]
  · exact valueAt_insert m k a v

theorem mapAt_insert (m : BTreeMap (BTreeMap UInt64)) (k a : String) (v : BTreeMap UInt64) :
    mapAt (m.insert k v) a = if k = a then v else mapAt m a := by
  unfold mapAt
  rw [lookup_insert]
  split <;> rfl

@[simp] theorem valueAt_empty (a : String) : valueAt ∅ a = 0 := by
  simp [valueAt]

/-- A lookup that finds a value is what `valueAt` reads. -/
theorem valueAt_of_lookup {m : BTreeMap UInt64} {k : String} {v : UInt64} (h : m[k]? = some v) :
    valueAt m k = v := by
  rw [valueAt, h, Option.getD_some]

/-- A nonzero value is stored. -/
theorem lookup_of_valueAt_pos {m : BTreeMap UInt64} {k : String} (h : 0 < (valueAt m k).toNat) :
    m[k]? = some (valueAt m k) := by
  unfold valueAt at h ⊢
  cases hk : m[k]? with
  | none => simp [hk] at h
  | some v => rfl

/-- A map read with a nonzero value is stored. -/
theorem lookup_of_mapAt_pos {m : BTreeMap (BTreeMap UInt64)} {t k : String}
    (h : 0 < (valueAt (mapAt m t) k).toNat) : m[t]? = some (mapAt m t) := by
  unfold mapAt at h ⊢
  cases ht : m[t]? with
  | none => simp [ht] at h
  | some inner => rfl

/-! ## Balances -/

/-- The sum of a map of amounts. -/
def sumOf (m : BTreeMap UInt64) : ℕ := total (fun _ v => v.toNat) m

theorem share_amount (m : BTreeMap UInt64) (k : String) :
    share (fun _ v => v.toNat) m k = (valueAt m k).toNat := by
  unfold share valueAt
  cases m[k]? <;> rfl

@[simp] theorem sumOf_empty : sumOf ∅ = 0 := total_empty _

theorem sumOf_insert (m : BTreeMap UInt64) (k : String) (v : UInt64) :
    sumOf (m.insert k v) + (valueAt m k).toNat = sumOf m + v.toNat := by
  rw [← share_amount]
  exact total_insert _ m k v

theorem sumOf_writeOrRemove (m : BTreeMap UInt64) (k : String) (v : UInt64) :
    sumOf (writeOrRemove m k v) + (valueAt m k).toNat = sumOf m + v.toNat := by
  unfold writeOrRemove
  split
  · rename_i hv
    rw [← share_amount, hv, UInt64.toNat_zero, Nat.add_zero]
    exact total_erase _ m k
  · exact sumOf_insert m k v

/-- One entry is at most the sum. -/
theorem valueAt_le_sumOf (m : BTreeMap UInt64) (k : String) : (valueAt m k).toNat ≤ sumOf m := by
  rw [← share_amount]
  exact share_le_total _ m k

/-- Two entries are together at most the sum. -/
theorem valueAt_add_le_sumOf (m : BTreeMap UInt64) {k k' : String} (h : k ≠ k') :
    (valueAt m k).toNat + (valueAt m k').toNat ≤ sumOf m := by
  rw [← share_amount, ← share_amount]
  exact share_add_share_le_total _ m h

/-! ## Stake -/

/-- All bonded stake. -/
def bondedTotal (m : BTreeMap StakeInfo) : ℕ := total (fun _ i => i.stake.toNat) m

/-- The bonded stake of one account. -/
def stakeAt (m : BTreeMap StakeInfo) (k : String) : ℕ := share (fun _ i => i.stake.toNat) m k

theorem bondedTotal_insert (m : BTreeMap StakeInfo) (k : String) (info : StakeInfo) :
    bondedTotal (m.insert k info) + stakeAt m k = bondedTotal m + info.stake.toNat :=
  total_insert _ m k info

theorem bondedTotal_erase (m : BTreeMap StakeInfo) (k : String) :
    bondedTotal (m.erase k) + stakeAt m k = bondedTotal m :=
  total_erase _ m k

theorem stakeAt_of_lookup {m : BTreeMap StakeInfo} {k : String} {info : StakeInfo}
    (h : m[k]? = some info) : stakeAt m k = info.stake.toNat :=
  share_of_lookup h

/-- The stake of an account, read through the default record. -/
theorem stakeAt_eq (m : BTreeMap StakeInfo) (k : String) :
    stakeAt m k = (m[k]?.getD .empty).stake.toNat := by
  unfold stakeAt share
  cases m[k]? <;> rfl

theorem stakeAt_le_bondedTotal (m : BTreeMap StakeInfo) (k : String) :
    stakeAt m k ≤ bondedTotal m :=
  share_le_total _ m k

/-! ## Unbonding and vesting entries -/

/-- What a list of unbonding entries owes. -/
def entriesSum (entries : List UnbondingEntry) : ℕ := (entries.map fun e => e.amount.toNat).sum

@[simp] theorem entriesSum_nil : entriesSum [] = 0 := rfl

theorem entriesSum_append (l l' : List UnbondingEntry) :
    entriesSum (l ++ l') = entriesSum l + entriesSum l' := by
  simp [entriesSum]

/-- All unbonding stake. -/
def unbondingSum (m : BTreeMap (List UnbondingEntry)) : ℕ := total (fun _ l => entriesSum l) m

/-- What a list of vesting entries still holds back. -/
def lockedSum (entries : List VestingEntry) : ℕ :=
  (entries.map fun e => e.total.toNat - e.released.toNat).sum

@[simp] theorem lockedSum_nil : lockedSum [] = 0 := rfl

theorem lockedSum_append (l l' : List VestingEntry) :
    lockedSum (l ++ l') = lockedSum l + lockedSum l' := by
  simp [lockedSum]

/-- All unvested amounts. -/
def lockedTotal (m : BTreeMap (List VestingEntry)) : ℕ := total (fun _ l => lockedSum l) m

/-- The weight of the entries at a key, read through the empty list. -/
theorem share_entries {β : Type} (w : List β → ℕ) (hw : w [] = 0) (m : BTreeMap (List β))
    (k : String) : share (fun _ l => w l) m k = w (m[k]?.getD []) := by
  unfold share
  cases m[k]? with
  | none => exact hw.symm
  | some l => rfl

/-- Writing a list of entries, or dropping the key when there are none. -/
theorem total_writeEntries {β : Type} (w : List β → ℕ) (hw : w [] = 0) (m : BTreeMap (List β))
    (k : String) (l : List β) :
    total (fun _ l => w l) (writeEntries m k l) + w (m[k]?.getD []) =
      total (fun _ l => w l) m + w l := by
  rw [← share_entries w hw]
  unfold writeEntries
  split
  · rename_i hl
    rw [List.isEmpty_iff.mp hl, hw, Nat.add_zero]
    exact total_erase _ m k
  · exact total_insert _ m k l

theorem unbondingSum_insert (m : BTreeMap (List UnbondingEntry)) (k : String)
    (l : List UnbondingEntry) :
    unbondingSum (m.insert k l) + entriesSum (m[k]?.getD []) = unbondingSum m + entriesSum l := by
  rw [← share_entries entriesSum rfl]
  exact total_insert _ m k l

theorem unbondingSum_writeEntries (m : BTreeMap (List UnbondingEntry)) (k : String)
    (l : List UnbondingEntry) :
    unbondingSum (writeEntries m k l) + entriesSum (m[k]?.getD []) =
      unbondingSum m + entriesSum l :=
  total_writeEntries entriesSum rfl m k l

theorem entriesSum_le_unbondingSum (m : BTreeMap (List UnbondingEntry)) (k : String) :
    entriesSum (m[k]?.getD []) ≤ unbondingSum m := by
  rw [← share_entries entriesSum rfl]
  exact share_le_total _ m k

theorem lockedTotal_insert (m : BTreeMap (List VestingEntry)) (k : String)
    (l : List VestingEntry) :
    lockedTotal (m.insert k l) + lockedSum (m[k]?.getD []) = lockedTotal m + lockedSum l := by
  rw [← share_entries lockedSum rfl]
  exact total_insert _ m k l

theorem lockedTotal_writeEntries (m : BTreeMap (List VestingEntry)) (k : String)
    (l : List VestingEntry) :
    lockedTotal (writeEntries m k l) + lockedSum (m[k]?.getD []) = lockedTotal m + lockedSum l :=
  total_writeEntries lockedSum rfl m k l

theorem lockedSum_le_lockedTotal (m : BTreeMap (List VestingEntry)) (k : String) :
    lockedSum (m[k]?.getD []) ≤ lockedTotal m := by
  rw [← share_entries lockedSum rfl]
  exact share_le_total _ m k

/-- Which keys a map of entry lists holds after `writeEntries`. -/
theorem lookup_writeEntries {β : Type} (m : BTreeMap (List β)) (k a : String) (l : List β) :
    (writeEntries m k l)[a]? =
      if k = a then (if l.isEmpty then none else some l) else m[a]? := by
  unfold writeEntries
  split
  · rw [lookup_erase]
  · rw [lookup_insert]

/-! ## Pools -/

/-- The HKM in all pools. -/
def poolHkmTotal (m : BTreeMap Pool) : ℕ := total (fun _ p => p.reserveHkm.toNat) m

/-- The HKM in one pool. -/
def reserveHkmAt (m : BTreeMap Pool) (k : String) : ℕ :=
  share (fun _ p => p.reserveHkm.toNat) m k

/-- The token side of a pool; zero when there is none. -/
def reserveTokenAt (m : BTreeMap Pool) (k : String) : ℕ :=
  share (fun _ p => p.reserveToken.toNat) m k

theorem poolHkmTotal_insert (m : BTreeMap Pool) (k : String) (p : Pool) :
    poolHkmTotal (m.insert k p) + reserveHkmAt m k = poolHkmTotal m + p.reserveHkm.toNat :=
  total_insert _ m k p

theorem reserveTokenAt_insert (m : BTreeMap Pool) (k a : String) (p : Pool) :
    reserveTokenAt (m.insert k p) a =
      if k = a then p.reserveToken.toNat else reserveTokenAt m a := by
  unfold reserveTokenAt share
  rw [lookup_insert]
  split <;> rfl

theorem reserveHkmAt_of_lookup {m : BTreeMap Pool} {k : String} {p : Pool} (h : m[k]? = some p) :
    reserveHkmAt m k = p.reserveHkm.toNat :=
  share_of_lookup h

theorem reserveTokenAt_of_lookup {m : BTreeMap Pool} {k : String} {p : Pool}
    (h : m[k]? = some p) : reserveTokenAt m k = p.reserveToken.toNat :=
  share_of_lookup h

/-- The pool of a token, or a new one, carries the reserves recorded for it. -/
theorem poolOrNew_reserves (s : ChainState) (t : String) :
    (s.poolOrNew t).reserveHkm.toNat = reserveHkmAt s.pools t ∧
      (s.poolOrNew t).reserveToken.toNat = reserveTokenAt s.pools t := by
  unfold poolOrNew reserveHkmAt reserveTokenAt share
  cases s.pools[t]? <;> exact ⟨rfl, rfl⟩

/-! ## Token supply -/

/-- The recorded supply of a token; zero when it does not exist. -/
def tokenSupplyAt (m : BTreeMap TokenInfo) (k : String) : ℕ :=
  share (fun _ i => i.totalSupply.toNat) m k

theorem tokenSupplyAt_insert (m : BTreeMap TokenInfo) (k a : String) (info : TokenInfo) :
    tokenSupplyAt (m.insert k info) a =
      if k = a then info.totalSupply.toNat else tokenSupplyAt m a := by
  unfold tokenSupplyAt share
  rw [lookup_insert]
  split <;> rfl

theorem tokenSupplyAt_of_lookup {m : BTreeMap TokenInfo} {k : String} {info : TokenInfo}
    (h : m[k]? = some info) : tokenSupplyAt m k = info.totalSupply.toNat :=
  share_of_lookup h

theorem tokenSupplyAt_lt (m : BTreeMap TokenInfo) (k : String) :
    tokenSupplyAt m k < 2 ^ 64 := by
  unfold tokenSupplyAt share
  cases m[k]? with
  | none => simp
  | some info => exact Word.toNat_lt info.totalSupply

end ChainState
