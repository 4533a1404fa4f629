/-
# Unbonding pays back what was withdrawn

A withdrawal becomes an entry that matures after the unbonding period, and closing a block pays what
has matured.  So an account that is never slashed has at each block boundary the entries that have
not matured, and was paid all others, each once.
-/
import Mathlib.Tactic
import Hikmalayer.Ledger.Validators
import Hikmalayer.Ledger.Vesting

open Outcome Exec OrderedMap

namespace ChainState

variable {E : Node} {g s s' mid : ChainState} {tx : Transaction} {txs : List Transaction}
  {history : List PastBlock} {height supply : UInt64} {account v validator : String}

/-! ## What a transaction does to the stake of an account -/

/-- The entry that an applied transaction adds for an account. -/
def exits (height : UInt64) (v : String) (tx : Transaction) : List UnbondingEntry :=
  if tx.transactionType = .withdraw ∧ tx.sender = some v then
    [⟨tx.amount, height + unbondingBlocks⟩]
  else []

/-- What an applied transaction bonds for an account. -/
def stakes (v : String) (tx : Transaction) : ℕ :=
  if tx.transactionType = .stake ∧ tx.sender = some v then tx.amount.toNat else 0

/-- What an account has bonded. -/
def bonded (s : ChainState) (v : String) : ℕ := (s.stakers[v]?.getD .empty).stake.toNat

/-- Applying a transaction appends its entry, which matures after the unbonding period, and moves
its amount, unless it slashes the account. -/
theorem BondStep.exits (h : BondStep E tx height s s')
    (hclean : ¬ (tx.transactionType = .slash ∧ tx.recipient = v)) :
    s'.entriesOf v = s.entriesOf v ++ ChainState.exits height v tx ∧
      (∀ e ∈ ChainState.exits height v tx,
        e.releaseHeight.toNat = height.toNat + unbondingBlocks.toNat) ∧
      s'.bonded v + entriesSum (ChainState.exits height v tx) = s.bonded v + stakes v tx := by
  have hnone : tx.transactionType ≠ .withdraw → ChainState.exits height v tx = [] := fun ht =>
    if_neg fun h => ht h.1
  have hzero : tx.transactionType ≠ .stake → stakes v tx = 0 := fun ht => if_neg fun h => ht h.1
  cases h with
  | @stake r stake pqPublicKey ht hc hstake hpq hb hn =>
    have hsender := (stakeChecks_ok hc).1
    have hk : s'.stakers = s.stakers.insert r.sender ⟨stake, r.publicKey, r.vrfPublicKey,
      pqPublicKey⟩ := congrArg Bonds.stakers hb
    have hu : s'.unbonding = s.unbonding := congrArg Bonds.unbonding hb
    rw [hnone (by rw [ht]; decide), List.append_nil, entriesOf, hu, entriesSum_nil, Nat.add_zero]
    refine ⟨rfl, fun e he => absurd he List.not_mem_nil, ?_⟩
    rw [bonded, hk, stakes]
    by_cases hv : r.sender = v
    · rw [if_pos ⟨ht, hv ▸ hsender⟩, ← hv, lookup_insert_self, Option.getD_some]
      exact hstake
    · rw [if_neg fun h => hv (Option.some.inj (hsender.symm.trans h.2)), lookup_insert_of_ne _ _ hv]
      rfl
  | @withdraw r info releaseHeight ht hc hi hrest hrelease hb =>
    obtain ⟨_, hsender, -⟩ := withdrawChecks_ok hc
    have hk : s'.stakers = s.stakers.insert r.sender { info with stake := r.remaining } :=
      congrArg Bonds.stakers hb
    have hu : s'.unbonding = s.unbonding.insert r.sender
      (s.entriesOf r.sender ++ [⟨tx.amount, releaseHeight⟩]) := congrArg Bonds.unbonding hb
    rw [hzero (by rw [ht]; decide), Nat.add_zero, bonded, hk, entriesOf, hu]
    by_cases hv : r.sender = v
    · have hexits : ChainState.exits height v tx = [⟨tx.amount, releaseHeight⟩] := by
        rw [ChainState.exits, if_pos ⟨ht, hv ▸ hsender⟩, Word.eq_add_of_toNat hrelease]
      rw [hexits, ← hv, lookup_insert_self, lookup_insert_self, Option.getD_some, Option.getD_some]
      refine ⟨rfl, fun e he => ?_, ?_⟩
      · rw [List.mem_singleton.mp he]
        exact hrelease
      · rw [bonded, hi, Option.getD_some]
        exact hrest
    · have hexits : ChainState.exits height v tx = [] :=
        if_neg fun h => hv (Option.some.inj (hsender.symm.trans h.2))
      rw [hexits, List.append_nil, lookup_insert_of_ne _ _ hv, lookup_insert_of_ne _ _ hv]
      exact ⟨rfl, fun e he => absurd he List.not_mem_nil, rfl⟩
  | @slash r info stake ht hc hi hk hothers hloss htake hrecord =>
    have hv : tx.recipient ≠ v := fun hv => hclean ⟨ht, hv⟩
    rw [hnone (by rw [ht]; decide), hzero (by rw [ht]; decide), List.append_nil, bonded, hk,
      lookup_insert_of_ne _ _ hv]
    exact ⟨hothers v hv, fun e he => absurd he List.not_mem_nil, rfl⟩
  | other ht hb =>
    have hk : s'.stakers = s.stakers := congrArg Bonds.stakers hb
    have hu : s'.unbonding = s.unbonding := congrArg Bonds.unbonding hb
    rw [hnone ht.2.1, hzero ht.1, List.append_nil, entriesOf, bonded, hu, hk]
    exact ⟨rfl, fun e he => absurd he List.not_mem_nil, rfl⟩

/-- The transactions of a block that does not slash the account. -/
theorem Applies.exits (h : Applies E height s mid txs) (hclean : ¬ Slashed txs v) :
    mid.entriesOf v = s.entriesOf v ++ txs.flatMap (ChainState.exits height v) ∧
      (∀ e ∈ txs.flatMap (ChainState.exits height v),
        e.releaseHeight.toNat = height.toNat + unbondingBlocks.toNat) ∧
      mid.bonded v + entriesSum (txs.flatMap (ChainState.exits height v)) =
        s.bonded v + (txs.map (stakes v)).sum := by
  induction h with
  | none => exact ⟨(List.append_nil _).symm, fun e he => absurd he List.not_mem_nil, rfl⟩
  | @next t t' txs tx _ _ _ _ ha ih =>
    rw [Slashed.append_iff, not_or] at hclean
    obtain ⟨hlist, hheights, hsum⟩ := ih hclean.1
    obtain ⟨hadd, hheight, hmoved⟩ := (applyVerified_applied ha).2.2.bondStep.exits
      fun h => hclean.2 ⟨tx, List.mem_singleton_self tx, h⟩
    rw [List.flatMap_append, List.flatMap_singleton, List.map_append, List.sum_append,
      List.map_singleton, List.sum_singleton, entriesSum_append]
    refine ⟨by rw [hadd, hlist, List.append_assoc], fun e he => ?_, by omega⟩
    exact (List.mem_append.mp he).elim (hheights e) (hheight e)

/-! ## What closing a block pays -/

/-- What has matured of some entries at a height. -/
def maturedSum (height : UInt64) (entries : List UnbondingEntry) : ℕ :=
  owed (fun releaseHeight => releaseHeight ≤ height) entries

/-- The entries of an account and, apart from the pool, its balance. -/
def holdings (s : ChainState) (account : String) : List UnbondingEntry × UInt64 :=
  (s.entriesOf account, if account = stakingPoolAccount then 0 else valueAt s.balances account)

/-- What has matured was taken out of the entries and credited. -/
def Repaid (E : Node) (height : UInt64) (h h' : List UnbondingEntry × UInt64) : Prop :=
  ∃ released : UInt64, released.toNat = maturedSum height h.1 ∧ h'.1 = unmatured height h.1 ∧
    E.saturation.add h.2 released = some h'.2

theorem takeMatured_ok {released : UInt64}
    (h : takeMatured height account s = ok (released, s')) :
    released.toNat = maturedSum height (s.entriesOf account) ∧ s'.balances = s.balances ∧
      ∀ x, s'.entriesOf x =
        if account = x then unmatured height (s.entriesOf account) else s.entriesOf x := by
  unfold takeMatured at h
  split at h
  · rename_i hnone
    rw [ok.injEq, Prod.mk.injEq] at h
    obtain ⟨rfl, rfl⟩ := h
    have hnil : s.entriesOf account = [] := by rw [entriesOf, hnone, Option.getD_none]
    refine ⟨by rw [hnil]; rfl, rfl, fun x => ?_⟩
    split
    · rename_i hx
      rw [← hx, hnil]
      rfl
    · rfl
  · rename_i entries hentries
    simp only [Outcome.bind_eq_ok, plain_eq_ok, Word.checkedSum_eq_some, pure_eq, ok.injEq,
      Prod.mk.injEq] at h
    obtain ⟨_, hsum, rfl, rfl⟩ := h
    have hold : s.entriesOf account = entries := by rw [entriesOf, hentries, Option.getD_some]
    rw [hold]
    refine ⟨?_, rfl, fun x => entries_writeEntries s.unbonding account x _⟩
    rw [hsum, List.map_map]
    rfl

/-- Releasing the matured entries of one account. -/
theorem releaseUnbonding_repaid (hv : isValidAddress account = true)
    (h : releaseUnbonding E height account s = ok ((), s')) :
    Repaid E height (s.holdings account) (s'.holdings account) ∧
      ∀ x, account ≠ x → s'.holdings x = s.holdings x := by
  rw [releaseUnbonding_eq] at h
  obtain ⟨_, paid, h, hdrop⟩ := Exec.bind_eq_ok.mp h
  obtain ⟨released, taken, htake, hpay⟩ := Exec.bind_eq_ok.mp h
  rw [modify_apply, ok.injEq, Prod.mk.injEq] at hdrop
  obtain ⟨-, rfl⟩ := hdrop
  obtain ⟨hreleased, hbalances, hentries⟩ := takeMatured_ok (readWrite_eq_ok.mp htake)
  have hne := ne_stakingPool hv
  obtain ⟨hadd, -, hothers⟩ := payOut_credited hne hpay
  have hunbonding : paid.unbonding = taken.unbonding :=
    congrArg Bonds.unbonding ((payOut_bonds taken).1 _ _ hpay)
  have hread : (dropExited account paid).unbonding = taken.unbonding ∧
      (dropExited account paid).balances = paid.balances := by
    unfold dropExited
    split
    · exact ⟨hunbonding, rfl⟩
    · exact ⟨hunbonding, rfl⟩
  have hlist : ∀ x, (dropExited account paid).entriesOf x = taken.entriesOf x := fun x => by
    rw [entriesOf, hread.1]
    rfl
  refine ⟨⟨released, hreleased, ?_, ?_⟩, fun x hx => ?_⟩
  · show (dropExited account paid).entriesOf account = unmatured height (s.entriesOf account)
    rw [hlist, hentries, if_pos rfl]
  · unfold holdings
    rw [if_neg hne, if_neg hne, hread.2, ← hbalances]
    exact hadd
  · unfold holdings
    rw [hlist, hentries, if_neg hx, hread.2, ← hbalances]
    split
    · rfl
    · next hpool => rw [hothers x hpool (Ne.symm hx)]

/-- Closing a block pays every account what has matured for it. -/
theorem endBlock_repaid (hs : Sound s) (h : endBlock E height validator s = ok ((), s')) :
    ∃ unbonded vested, forEach (releaseUnbonding E height) s.unbonding.keys s = ok ((), unbonded) ∧
      forEach (releaseVesting E height) unbonded.vesting.keys unbonded = ok ((), vested) ∧
      settleFees E validator vested = ok ((), s') ∧
      ∀ a, Repaid E height (s.holdings a) (unbonded.holdings a) ∧
        s'.entriesOf a = unbonded.entriesOf a := by
  obtain ⟨unbonded, vested, hu, hv, hf⟩ := endBlock_parts h
  refine ⟨unbonded, vested, hu, hv, hf, fun a => ⟨?_, ?_⟩⟩
  · obtain ⟨hin, hout⟩ := @Exec.forEach_views _ _ _ _ holdings (Repaid E height) _ _
      Std.ExtTreeMap.nodup_keys (fun b hb t t' hstep => releaseUnbonding_repaid
        (hs.addressed.unbonding b (Std.ExtTreeMap.mem_keys.mp hb)) hstep) _ _ hu a
    by_cases ha : a ∈ s.unbonding.keys
    · exact hin ha
    · have hnone : s.unbonding[a]? = none := by
        rw [Std.ExtTreeMap.mem_keys] at ha
        exact Std.ExtTreeMap.getElem?_eq_none ha
      have hnil : (s.holdings a).1 = [] := by
        show s.entriesOf a = []
        rw [entriesOf, hnone, Option.getD_none]
      rw [hout ha]
      refine ⟨0, by rw [hnil]; rfl, by rw [hnil]; rfl, Word.Saturation.add_zero _ _⟩
  · have hbonds : s'.bonds = unbonded.bonds := by
      rw [(settleFees_leaves (g := bonds) (fun _ _ _ => rfl) (fun _ _ => rfl) (fun _ _ => rfl)
        vested).1 _ _ hf]
      exact (Leaves.forEach (fun _ => releaseVesting_leaves (g := bonds) (fun _ _ _ => rfl)
        fun _ _ => rfl) _ unbonded).1 _ _ hv
    have hunbonding : s'.unbonding = unbonded.unbonding := congrArg Bonds.unbonding hbonds
    rw [entriesOf, hunbonding]
    rfl

/-- Closing a block leaves what an account has bonded. -/
theorem Released.bonded (h : Released height s s') (v : String) : s'.bonded v = s.bonded v := by
  unfold ChainState.bonded
  rcases h.stakers v with hsame | ⟨hnone, hgone, -⟩
  · rw [hsame]
  · rw [hnone, Option.getD_none]
    cases hi : s.stakers[v]? with
    | none => rfl
    | some info =>
      rw [Option.getD_some, hgone info hi]
      rfl

/-! ## Runs -/

/-- Every entry that a run has created for an account. -/
def withdrawn (history : List PastBlock) (v : String) : List UnbondingEntry :=
  history.flatMap fun b => b.transactions.flatMap (exits b.height v)

/-- What an account has staked in a run. -/
def stakedIn (history : List PastBlock) (v : String) : ℕ :=
  (history.map fun b => (b.transactions.map (stakes v)).sum).sum

/-- What closing a block pays back to an account. -/
def PastBlock.repaid (b : PastBlock) (v : String) : ℕ :=
  match takeMatured b.height v b.before with
  | ok (released, _) => released.toNat
  | _ => 0

/-- What a run has paid back to an account. -/
def repaidTo (history : List PastBlock) (v : String) : ℕ := (history.map (·.repaid v)).sum

/-- At a block boundary: the entries left are those that have not matured, and all others were paid
back. -/
structure Unbonded (height : UInt64) (entries left : List UnbondingEntry) (paid : ℕ) : Prop where
  left : left = entries.filter fun e => ¬ e.releaseHeight ≤ height
  paid : paid = maturedSum height entries

/-- New entries, before their block closes. -/
theorem Unbonded.add {last : UInt64} {entries left more : List UnbondingEntry} {paid : ℕ}
    (h : Unbonded last entries left paid) (hmore : ∀ e ∈ more, last < e.releaseHeight) :
    Unbonded last (entries ++ more) (left ++ more) paid where
  left := by
    have hopen : more.filter (fun e => ¬ e.releaseHeight ≤ last) = more :=
      List.filter_eq_self.mpr fun e he => decide_eq_true (UInt64.not_le.mpr (hmore e he))
    rw [List.filter_append, ← h.left, hopen]
  paid := by
    have hnone : more.filter (fun e => e.releaseHeight ≤ last) = [] :=
      List.filter_eq_nil_iff.mpr fun e he hle =>
        UInt64.not_le.mpr (hmore e he) (of_decide_eq_true hle)
    rw [maturedSum, owed_append, ← maturedSum, ← h.paid, owed, hnone, entriesSum_nil, Nat.add_zero]

/-- What matured earlier, and what has matured of the rest. -/
theorem maturedSum_unmatured {last : UInt64} (hle : last ≤ height) (entries : List UnbondingEntry) :
    maturedSum last entries + maturedSum height (entries.filter fun e => ¬ e.releaseHeight ≤ last) =
      maturedSum height entries := by
  unfold maturedSum
  induction entries with
  | nil => rfl
  | cons e rest ih =>
    rw [List.filter_cons]
    by_cases hlast : e.releaseHeight ≤ last
    · have hheight : e.releaseHeight ≤ height := UInt64.le_trans hlast hle
      rw [if_neg (by simpa using hlast), owed_cons, owed_cons, if_pos (decide_eq_true hlast),
        if_pos (decide_eq_true hheight)]
      omega
    · rw [if_pos (by simpa using hlast), owed_cons, owed_cons, owed_cons,
        if_neg (by simpa using hlast)]
      omega

/-- Paying at a later height. -/
theorem Unbonded.repay {last : UInt64} {entries left : List UnbondingEntry} {paid : ℕ}
    (h : Unbonded last entries left paid) (hlast : last < height) :
    Unbonded height entries (unmatured height left) (paid + maturedSum height left) where
  left := by
    have hle : last ≤ height := UInt64.le_of_lt hlast
    rw [unmatured, h.left, List.filter_filter]
    refine List.filter_congr fun e _ => ?_
    by_cases hdone : e.releaseHeight ≤ height
    · simp [hdone]
    · have hopen : ¬ e.releaseHeight ≤ last := fun hold => hdone (UInt64.le_trans hold hle)
      simp [hdone, hopen]
  paid := by
    rw [h.paid, h.left]
    exact maturedSum_unmatured (UInt64.le_of_lt hlast) entries

theorem withdrawn_append (history : List PastBlock) (b : PastBlock) (v : String) :
    withdrawn (history ++ [b]) v =
      withdrawn history v ++ b.transactions.flatMap (exits b.height v) := by
  rw [withdrawn, List.flatMap_append, List.flatMap_singleton]
  rfl

theorem stakedIn_append (history : List PastBlock) (b : PastBlock) (v : String) :
    stakedIn (history ++ [b]) v = stakedIn history v + (b.transactions.map (stakes v)).sum := by
  rw [stakedIn, List.map_append, List.sum_append, List.map_singleton, List.sum_singleton]
  rfl

theorem repaidTo_append (history : List PastBlock) (b : PastBlock) (v : String) :
    repaidTo (history ++ [b]) v = repaidTo history v + b.repaid v := by
  rw [repaidTo, List.map_append, List.sum_append, List.map_singleton, List.sum_singleton]
  rfl

/-- What a block pays back is what has matured of the entries at its close. -/
theorem repaid_eq {released : UInt64} (h : released.toNat = maturedSum height (s.entriesOf v)) :
    PastBlock.repaid ⟨height, txs, s⟩ v = maturedSum height (s.entriesOf v) := by
  unfold PastBlock.repaid
  dsimp only
  unfold takeMatured entriesOf at *
  cases hl : s.unbonding[v]? with
  | none => rfl
  | some entries =>
    rw [hl, Option.getD_some] at h
    have hsum : Word.checkedSum ((entries.filter fun e => e.releaseHeight ≤ height).map
        (·.amount)) = some released := by
      rw [Word.checkedSum_eq_some, List.map_map, h]
      rfl
    simp only [hsum, plain_some, ok_bind, pure_eq]
    exact h

/-- Along a run, at every block boundary and for every account that was not slashed. -/
theorem Timeline.unbonded (hE : E.saturation = .clamp) (hg : GenesisState E supply g)
    (h : Timeline E g s history)
    (hclean : ¬ Slashed (history.flatMap PastBlock.transactions) v) :
    Unbonded (lastHeight history) (withdrawn history v) (s.entriesOf v) (repaidTo history v) ∧
      s.bonded v + entriesSum (withdrawn history v) = g.bonded v + stakedIn history v := by
  induction h with
  | start =>
    have hnil : g.entriesOf v = [] := by
      rw [entriesOf, hg.unbonding_empty, Std.ExtTreeMap.getElem?_empty, Option.getD_none]
    exact ⟨⟨hnil, rfl⟩, rfl⟩
  | @block s mid s' history height txs validator h hlater htxs _ hend ih =>
    rw [List.flatMap_append, List.flatMap_singleton, Slashed.append_iff, not_or] at hclean
    obtain ⟨hunbonded, hsum⟩ := ih hclean.1
    obtain ⟨hlist, hheights, hmoved⟩ := htxs.exits hclean.2
    obtain ⟨unbonded, vested, -, -, -, hpay⟩ :=
      endBlock_repaid ((htxs.reachable (h.reachable (.genesis hg))).sound hE) hend
    obtain ⟨⟨released, hreleased, hleft, -⟩, hafter⟩ := hpay v
    have hlate : ∀ e ∈ txs.flatMap (exits height v), lastHeight history < e.releaseHeight := by
      intro e he
      rw [UInt64.lt_iff_toNat_lt] at hlater ⊢
      rw [hheights e he]
      omega
    have hopen := (hunbonded.add hlate).repay hlater
    rw [← hlist] at hopen
    rw [lastHeight_append, withdrawn_append, stakedIn_append, repaidTo_append,
      repaid_eq hreleased, entriesSum_append, (endBlock_released hend).bonded, hafter]
    refine ⟨?_, by dsimp only; omega⟩
    rw [show unbonded.entriesOf v = unmatured height (mid.entriesOf v) from hleft]
    exact hopen

/-! ## Main result -/

/-- Whatever the heights at which blocks closed, for an account that was never slashed: it is owed the
entries that mature later, was paid back all that have matured, and what it withdrew and has bonded
comes to what it had bonded at genesis and staked since.  An entry matures the unbonding period after
the block that created it, and a block that closes next credits exactly what it adds to the payments,
apart from the other parts of closing. -/
theorem unbonding_exact (hE : E.saturation = .clamp) (hg : GenesisState E supply g)
    (h : Timeline E g s history)
    (hclean : ¬ Slashed (history.flatMap PastBlock.transactions) v) :
    repaidTo history v =
        entriesSum ((withdrawn history v).filter fun e => e.releaseHeight ≤ lastHeight history) ∧
      s.entriesOf v =
        (withdrawn history v).filter (fun e => ¬ e.releaseHeight ≤ lastHeight history) ∧
      s.bonded v + entriesSum (s.entriesOf v) + repaidTo history v =
        g.bonded v + stakedIn history v ∧
      ∀ height txs mid validator s', lastHeight history < height → Applies E height s mid txs →
        ¬ Slashed txs v → endBlock E height validator mid = ok ((), s') →
          (∀ e ∈ txs.flatMap (exits height v),
            e.releaseHeight.toNat = height.toNat + unbondingBlocks.toNat) ∧
          ∃ unbonded vested released,
            forEach (releaseUnbonding E height) mid.unbonding.keys mid = ok ((), unbonded) ∧
            forEach (releaseVesting E height) unbonded.vesting.keys unbonded = ok ((), vested) ∧
            settleFees E validator vested = ok ((), s') ∧
            repaidTo (history ++ [⟨height, txs, mid⟩]) v = repaidTo history v + UInt64.toNat released ∧
            (v ≠ stakingPoolAccount → E.saturation.add (valueAt mid.balances v) released =
              some (valueAt unbonded.balances v)) := by
  obtain ⟨⟨hleft, hpaid⟩, hsum⟩ := h.unbonded hE hg hclean
  refine ⟨hpaid, hleft, ?_, ?_⟩
  · have hpart := entriesSum_partition (lastHeight history) (withdrawn history v)
    have hmatured : repaidTo history v =
        entriesSum (matured (lastHeight history) (withdrawn history v)) := hpaid
    have hopen : s.entriesOf v = unmatured (lastHeight history) (withdrawn history v) := hleft
    rw [hmatured, hopen]
    omega
  · intro height txs mid validator s' _ htxs hslash hend
    obtain ⟨unbonded, vested, hu, hv, hf, hpay⟩ :=
      endBlock_repaid ((htxs.reachable (h.reachable (.genesis hg))).sound hE) hend
    obtain ⟨⟨released, hreleased, -, hcredit⟩, -⟩ := hpay v
    refine ⟨(htxs.exits hslash).2.1, unbonded, vested, released, hu, hv, hf, ?_, fun hne => ?_⟩
    · rw [repaidTo_append, repaid_eq hreleased, hreleased]
      rfl
    · unfold holdings at hcredit
      rw [if_neg hne, if_neg hne] at hcredit
      exact hcredit

end ChainState

namespace Sample

open ChainState

/-- The ledger after block 1, in which holder 7 withdrew most of its stake, and an empty block 21. -/
theorem exists_left : ∃ s history, Timeline (node []) (genesis 1000000000000000000) s history ∧
    lastHeight history = 21 ∧ ¬ Slashed (history.flatMap PastBlock.transactions) (address 7) ∧
      withdrawn history (address 7) = [⟨990000000000, 21⟩] := by
  have hrun : ((applyVerified (node []) payment 1 (genesis 1000000000000000000)).returns fun r =>
      (applyVerified (node []) partialExit 1 r.2).returns fun _ => true) = true := by
    decide +kernel
  obtain ⟨⟨⟨⟩, paid⟩, hpay, hrun⟩ := exists_of_returns hrun
  obtain ⟨⟨⟨⟩, mid⟩, hexit, -⟩ := exists_of_returns hrun
  have hreach : Reachable (node []) (genesis 1000000000000000000) := genesis_reachable _
  have htxs : Applies (node []) 1 (genesis 1000000000000000000) mid ([] ++ [payment] ++ [partialExit]) :=
    (Applies.none.next address_valid payment_verified hpay).next address_valid
      (rfl : partialExit.verifyForBlock (node []) (address 7) = ok ()) hexit
  obtain ⟨s₁, hclose, -⟩ := ((htxs.reachable hreach).sound rfl).endBlock (E := node [])
    (Or.inl rfl) address_valid 1
  have h₁ := (Timeline.start (g := genesis 1000000000000000000)).block (by decide) htxs
    address_valid hclose.returns
  obtain ⟨s₂₁, hclose', -⟩ := ((h₁.reachable hreach).sound rfl).endBlock (E := node [])
    (Or.inl rfl) address_valid 21
  have hlater : lastHeight ([] ++ [⟨1, [] ++ [payment] ++ [partialExit], mid⟩]) < 21 := by
    rw [lastHeight_append]
    exact UInt64.lt_iff_toNat_lt.mpr (by decide : 1 < 21)
  have hentry : ([] ++ [payment] ++ [partialExit]).flatMap (exits 1 (address 7)) =
      [⟨990000000000, 21⟩] := by decide
  refine ⟨s₂₁, _, h₁.block hlater .none address_valid hclose'.returns, lastHeight_append _ _, ?_, ?_⟩
  · rintro ⟨tx, hmem, hslash, -⟩
    have hkinds : ∀ tx ∈ [payment, partialExit], tx.transactionType ≠ .slash := by decide
    exact hkinds tx hmem hslash
  · rw [withdrawn_append, withdrawn_append, hentry]
    rfl

end Sample

namespace ChainState

/-- After block 21 the withdrawal is paid back. -/
theorem unbonding_exact_sample : ∃ s history,
    Timeline (Sample.node []) (Sample.genesis 1000000000000000000) s history ∧
      repaidTo history (Sample.address 7) = 990000000000 ∧ s.entriesOf (Sample.address 7) = [] := by
  obtain ⟨s, history, h, hlast, hclean, hentries⟩ := Sample.exists_left
  obtain ⟨hpaid, hleft, -⟩ := unbonding_exact rfl (Sample.genesis_state 1000000000000000000) h hclean
  rw [hlast, hentries] at hpaid hleft
  exact ⟨s, history, h, hpaid.trans (by decide), hleft.trans (by decide)⟩

end ChainState
