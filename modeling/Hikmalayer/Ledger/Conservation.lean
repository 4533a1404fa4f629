/-
# HKM conservation over whole runs

As long as the genesis supply and the emission fit in a word, every unit of HKM is
accounted for: balances and fee pot add up to the supply counter after every transaction,
supply and burned HKM add up to what was issued, and no saturating operation saturates,
which is to say that every reading of saturation accepts the same blocks with the same
states.  The emptiness of the pot between blocks needs no bound.
-/
import Mathlib.Tactic
import Hikmalayer.Ledger.Supply
import Hikmalayer.Model.Sample

open Outcome Exec OrderedMap

namespace ChainState

variable {E : Node} {s s' : ChainState} {tx : Transaction} {height : UInt64} {u : Unit} {n : ℕ}
  {validator : String}

/-! ## One transaction -/

/-- HKM is conserved, and `n` units were ever issued. -/
structure Issued (n : ℕ) (s : ChainState) : Prop where
  conserved : Conserved s
  total : s.totalSupply.toNat + s.burned.toNat = n

/-- A computation after which `n` units are issued, the same in every reading. -/
structure Issues (x : Node → StateAction) (E : Node) (n : ℕ) (s s' : ChainState) : Prop where
  issued : Issued n s'
  returns : ∀ m, x (E.reading m) s = ok ((), s')

theorem Exact.issues {x : Node → StateAction} (h : Exact x E s s') (hi : Issued n s) :
    Issues x E n s s' :=
  ⟨⟨h.conserved, by rw [h.supply, h.burned]; exact hi.total⟩, h.returns⟩

/-- A guarded branch conserves HKM when its effects do.  Its checks may rely on the effects
having returned. -/
theorem guarded_exact {α : Type} (checks : Node → ChainState → Outcome String α)
    {sender : α → String} {nonce : UInt64} (effects : Node → α → StateAction)
    (h : guarded (checks E) sender nonce (effects E) s = ok (u, s'))
    (hchecks : ∀ a, checks E s = ok a → effects E a (s.setNonce (sender a) nonce) = ok (u, s') →
      ∀ m, checks (E.reading m) s = ok a)
    (heffects : ∀ a, checks E s = ok a → effects E a (s.setNonce (sender a) nonce) = ok (u, s') →
      Exact (fun E => effects E a) E (s.setNonce (sender a) nonce) s') :
    Exact (fun E => guarded (checks E) sender nonce (effects E)) E s s' := by
  obtain ⟨a, ha, hn, he⟩ := guarded_eq_ok.mp h
  have hx := heffects a ha he
  exact ⟨hx.conserved, hx.supply, hx.burned,
    fun m => guarded_eq_ok.mpr ⟨a, hchecks a ha he m, hn, hx.returns m⟩⟩

/-- The stake that a successful registration results in fits in a word. -/
theorem stakeChecks_reading (hs : Sound s) (hc : Conserved s) {r : StakeRequest}
    (hv : isValidAddress r.sender = true) (h : stakeChecks E tx s = ok r)
    (he : stakeEffects E tx r (s.setNonce r.sender tx.nonce) = ok (u, s')) (m : Word.Saturation) :
    stakeChecks (E.reading m) tx s = ok r := by
  obtain ⟨rest, balance, pot, stake, pq, hrest, -, -, -, -⟩ := stakeEffects_ok he
  rw [setNonce_balances] at hrest
  have hback := hs.staking
  have hbonded := stakeAt_le_bondedTotal s.stakers r.sender
  have hroom := valueAt_add_le_sumOf s.balances (ne_stakingPool hv)
  have hlt := hc.sumOf_lt
  unfold StakingBacked at hback
  simp only [stakeChecks, Outcome.bind_eq_ok, okOr_eq_ok, ensure_eq_ok, plain_eq_ok, pure_eq,
    ok.injEq] at h ⊢
  obtain ⟨sender, hsender, key, hkey, vrf, hvrf, _, hallow, resulting, hres, _, hmin, rfl⟩ := h
  refine ⟨sender, hsender, key, hkey, vrf, hvrf, (), hallow, resulting, ?_, (), hmin, rfl⟩
  have hcur : ((s.stakers[sender]?.map StakeInfo.stake).getD 0).toNat = stakeAt s.stakers sender := by
    unfold stakeAt share
    cases s.stakers[sender]? <;> rfl
  have hfit : ((s.stakers[sender]?.map StakeInfo.stake).getD 0).toNat + tx.amount.toNat < 2 ^ 64 := by
    rw [hcur]
    change stakeAt s.stakers sender ≤ _ at hbonded
    change rest.toNat + _ = (valueAt s.balances sender).toNat at hrest
    change (valueAt s.balances sender).toNat + _ ≤ _ at hroom
    omega
  rw [Word.Saturation.add_of_lt _ hfit] at hres ⊢
  exact hres

/-- A reward is issued and paid exactly while the issued units fit in a word. -/
theorem applyReward_issues (hi : Issued n s) (hlt : n + tx.amount.toNat < 2 ^ 64)
    (h : applyReward E tx s = ok (u, s')) :
    Issues (fun E => applyReward E tx) E (n + tx.amount.toNat) s s' := by
  simp only [applyReward, Exec.bind_eq_ok] at h
  obtain ⟨_, s₁, h₁, h₂⟩ := h
  obtain ⟨balance, hb, rfl⟩ := credit_eq_ok.mp h₁
  simp only [update_eq_ok, Outcome.bind_eq_ok, plain_eq_ok, pure_eq, ok.injEq] at h₂
  obtain ⟨total, ht, rfl⟩ := h₂
  obtain ⟨hc, htotal⟩ := hi
  have hle := valueAt_le_sumOf s.balances tx.recipient
  have hsum := sumOf_insert s.balances tx.recipient balance
  unfold Conserved at hc
  have hfit₁ : (valueAt s.balances tx.recipient).toNat + tx.amount.toNat < 2 ^ 64 := by omega
  have hfit₂ : s.totalSupply.toNat + tx.amount.toNat < 2 ^ 64 := by omega
  have hb' := Word.Saturation.toNat_of_add hb hfit₁
  have ht' : total.toNat = s.totalSupply.toNat + _ := Word.Saturation.toNat_of_add ht hfit₂
  refine ⟨⟨?_, ?_⟩, fun m => ?_⟩
  · change sumOf (s.balances.insert tx.recipient balance) + s.feePot.toNat = total.toNat
    omega
  · change total.toNat + s.burned.toNat = _
    omega
  · rw [Word.Saturation.add_of_lt _ hfit₁] at hb
    change E.saturation.add s.totalSupply _ = _ at ht
    rw [Word.Saturation.add_of_lt _ hfit₂] at ht
    simp only [applyReward, Exec.bind_eq_ok, update_eq_ok, Outcome.bind_eq_ok, plain_eq_ok,
      pure_eq, ok.injEq]
    refine ⟨(), _, credit_eq_ok.mpr ⟨balance, ?_, rfl⟩, total, ?_, rfl⟩
    · rw [Word.Saturation.add_of_lt _ hfit₁, hb]
    · change (E.reading m).saturation.add s.totalSupply _ = _
      rw [Word.Saturation.add_of_lt _ hfit₂, ht]

/-- A slash moves HKM from the supply to the burned counter, exactly. -/
theorem applySlash_issues (hi : Issued n s) (hlt : n < 2 ^ 64)
    (h : applySlash E tx height s = ok (u, s')) :
    Issues (fun E => applySlash E tx height) E n s s' := by
  unfold applySlash at h
  obtain ⟨r, _, hread, he⟩ := Exec.bind_eq_ok.mp h
  obtain ⟨hr, rfl⟩ := read_eq_ok.mp hread
  unfold slashEffects at he
  obtain ⟨_, s₁, h₁, he⟩ := Exec.bind_eq_ok.mp he
  obtain ⟨_, s₂, h₂, htail⟩ := Exec.bind_eq_ok.mp he
  obtain ⟨pool, hpool, rfl⟩ := debit_eq_ok.mp h₁
  have hsub := h₂
  simp only [update_eq_ok, Outcome.bind_eq_ok, plain_eq_ok, pure_eq, ok.injEq] at hsub
  obtain ⟨burned, hb, total, ht, rfl⟩ := hsub
  obtain ⟨hc, htotal⟩ := hi
  have hle := valueAt_le_sumOf s.balances stakingPoolAccount
  have hsum := sumOf_insert s.balances stakingPoolAccount pool
  unfold Conserved at hc
  have hfit₁ : s.burned.toNat + r.slashed.toNat < 2 ^ 64 := by omega
  have hfit₂ : r.slashed.toNat ≤ s.totalSupply.toNat := by omega
  have hb' : burned.toNat = s.burned.toNat + _ := Word.Saturation.toNat_of_add hb hfit₁
  have ht' : total.toNat + _ = s.totalSupply.toNat := Word.Saturation.toNat_of_sub ht hfit₂
  have hframe : s'.balances = s.balances.insert stakingPoolAccount pool ∧
      s'.feePot = s.feePot ∧ s'.totalSupply = total ∧ s'.burned = burned := by
    simp only [Exec.bind_eq_ok, read_eq_ok, plain_eq_ok, setStake_eq_ok, modify_apply, ok.injEq,
      Prod.mk.injEq] at htail
    obtain ⟨stake, _, ⟨-, rfl⟩, _, _, ⟨info, -, rfl⟩, remaining, _, ⟨-, rfl⟩, _, s₃, h₃, -, rfl⟩ :=
      htail
    rw [slashUnbonding, update_eq_ok] at h₃
    split at h₃
    · rw [ok.injEq] at h₃
      subst h₃
      exact ⟨rfl, rfl, rfl, rfl⟩
    · split at h₃
      · rw [ok.injEq] at h₃
        subst h₃
        exact ⟨rfl, rfl, rfl, rfl⟩
      · obtain ⟨entries, -, h₃⟩ := Outcome.bind_eq_ok.mp h₃
        rw [pure_eq, ok.injEq] at h₃
        subst h₃
        exact ⟨rfl, rfl, rfl, rfl⟩
  obtain ⟨hbal, hpot, htot, hburn⟩ := hframe
  refine ⟨⟨?_, ?_⟩, fun m => ?_⟩
  · rw [Conserved, hbal, hpot, htot]
    omega
  · rw [htot, hburn]
    omega
  · change E.saturation.add s.burned _ = _ at hb
    change E.saturation.sub s.totalSupply _ = _ at ht
    rw [Word.Saturation.add_of_lt _ hfit₁] at hb
    rw [Word.Saturation.sub_of_le _ hfit₂] at ht
    have h₂' : Exec.update (fun s : ChainState => (do
        let burned ← plain ((E.reading m).saturation.add s.burned r.slashed)
        let totalSupply ← plain ((E.reading m).saturation.sub s.totalSupply r.slashed)
        return s.setSupply totalSupply burned : Outcome String ChainState)) (s.setBalance stakingPoolAccount pool) =
          ok ((), (s.setBalance stakingPoolAccount pool).setSupply total burned) := by
      simp only [update_eq_ok, Outcome.bind_eq_ok, plain_eq_ok, pure_eq, ok.injEq]
      refine ⟨burned, ?_, total, ?_, rfl⟩
      · rw [setBalance_burned, Word.Saturation.add_of_lt _ hfit₁, hb]
      · rw [setBalance_totalSupply, Word.Saturation.sub_of_le _ hfit₂, ht]
    unfold applySlash
    rw [Exec.bind_of_ok hread]
    unfold slashEffects
    rw [Exec.bind_of_ok h₁, Exec.bind_of_ok h₂']
    exact htail

/-- What a transaction issues. -/
def minted (tx : Transaction) : ℕ :=
  if tx.transactionType = .reward then tx.amount.toNat else 0

theorem Exact.branch {x : Node → StateAction} (hx : Exact x E s s') (hi : Issued n s)
    (hb : ∀ E, applyBranch E tx height = x E) (hr : tx.transactionType ≠ .reward) :
    Issues (fun E => applyBranch E tx height) E (n + minted tx) s s' := by
  simp only [hb, minted, if_neg hr, Nat.add_zero]
  exact hx.issues hi

theorem applyCertificate_exact (hc : Conserved s) (h : applyCertificate tx s = ok (u, s')) :
    Exact (fun _ => applyCertificate tx) E s s' := by
  rcases applyCertificate_ok h with rfl | ⟨action, issuer, record, -, -, -, rfl⟩
  · exact ⟨hc, rfl, rfl, fun _ => h⟩
  · exact ⟨hc, rfl, rfl, fun _ => h⟩

/-- A branch that returns issues what its transaction mints, in every reading. -/
theorem applyBranch_issues (hs : Sound s) (hi : Issued n s) (hlt : n + minted tx < 2 ^ 64)
    (hver : tx.verifyForBlock E validator = ok ())
    (h : applyBranch E tx height s = ok (u, s')) :
    Issues (fun E => applyBranch E tx height) E (n + minted tx) s s' := by
  have hsender := Transaction.sender_valid hver
  have hc := hi.conserved
  cases ht : tx.transactionType <;> simp only [applyBranch, ht] at h
  case transfer =>
    refine Exact.branch (guarded_exact (fun _ => transferChecks tx) (fun E => transferEffects E tx)
      h (fun _ ha _ _ => ha) fun a _ he => transferEffects_exact hc he) hi
      (fun E => by simp only [applyBranch, ht, applyTransfer]) (by simp [ht])
  case reward =>
    have hb : ∀ E, applyBranch E tx height = applyReward E tx := fun E => by
      simp only [applyBranch, ht]
    simp only [minted, ht, if_true] at hlt ⊢
    simp only [hb]
    exact applyReward_issues hi hlt h
  case certificate =>
    exact Exact.branch (applyCertificate_exact hc h) hi
      (fun E => by simp only [applyBranch, ht]) (by simp [ht])
  case stake =>
    refine Exact.branch (guarded_exact (fun E => stakeChecks E tx) (fun E => stakeEffects E tx)
      h (fun r hr he => stakeChecks_reading hs hc ?_ hr he)
      fun a _ he => stakeEffects_exact hc he) hi
      (fun E => by simp only [applyBranch, ht, applyStake]) (by simp [ht])
    exact hsender (by simp [ht]) (by simp [ht]) _ (stakeChecks_ok hr).1
  case withdraw =>
    exact Exact.branch (guarded_exact (fun E => withdrawChecks E tx)
      (fun E => withdrawEffects E tx height) h (fun _ ha _ _ => ha)
      fun a _ he => withdrawEffects_exact hc he) hi
      (fun E => by simp only [applyBranch, ht, applyWithdraw]) (by simp [ht])
  case slash =>
    have hb : ∀ E, applyBranch E tx height = applySlash E tx height := fun E => by
      simp only [applyBranch, ht]
    have hm : minted tx = 0 := by simp [minted, ht]
    rw [hm, Nat.add_zero] at hlt ⊢
    simp only [hb]
    exact applySlash_issues hi hlt h
  case vest =>
    exact Exact.branch (guarded_exact (fun _ => vestChecks tx) (fun E => vestEffects E tx height)
      h (fun _ ha _ _ => ha) fun a _ he => vestEffects_exact hc he) hi
      (fun E => by simp only [applyBranch, ht, applyVest]) (by simp [ht])
  case tokenCreate =>
    exact Exact.branch (guarded_exact (fun E => tokenCreateChecks E tx)
      (fun E => tokenCreateEffects E tx height) h (fun _ ha _ _ => ha)
      fun a _ he => tokenCreateEffects_exact hc he) hi
      (fun E => by simp only [applyBranch, ht, applyTokenCreate]) (by simp [ht])
  case tokenTransfer =>
    exact Exact.branch (guarded_exact (fun _ => tokenTransferChecks tx)
      (fun E => tokenTransferEffects E tx) h (fun _ ha _ _ => ha)
      fun a _ he => tokenTransferEffects_exact hc he) hi
      (fun E => by simp only [applyBranch, ht, applyTokenTransfer]) (by simp [ht])
  case tokenBurn =>
    exact Exact.branch (guarded_exact (fun _ => tokenBurnChecks tx)
      (fun E => tokenBurnEffects E tx) h (fun _ ha _ _ => ha)
      fun a _ he => tokenBurnEffects_exact hc (hs.tokens _) he) hi
      (fun E => by simp only [applyBranch, ht, applyTokenBurn]) (by simp [ht])
  case addLiquidity =>
    exact Exact.branch (guarded_exact (fun _ => addLiquidityChecks tx) addLiquidityEffects
      h (fun _ ha _ _ => ha) fun a _ he => addLiquidityEffects_exact hc he) hi
      (fun E => by simp only [applyBranch, ht, applyAddLiquidity]) (by simp [ht])
  case removeLiquidity =>
    exact Exact.branch (guarded_exact (fun _ => removeLiquidityChecks tx) removeLiquidityEffects
      h (fun _ ha _ _ => ha)
      fun a _ he => removeLiquidityEffects_exact hc (hs.holders_lt _) he) hi
      (fun E => by simp only [applyBranch, ht, applyRemoveLiquidity]) (by simp [ht])
  case swap =>
    exact Exact.branch (guarded_exact (fun _ => swapChecks tx) swapEffects
      h (fun _ ha _ _ => ha) fun a _ he => swapEffects_exact hc (hs.holders_lt _) he) hi
      (fun E => by simp only [applyBranch, ht, applySwap]) (by simp [ht])

/-- A verified transaction that applies issues what it mints, in every reading. -/
theorem applyVerified_issues (hs : Sound s) (hi : Issued n s) (hlt : n + minted tx < 2 ^ 64)
    (hver : tx.verifyForBlock E validator = ok ())
    (h : applyVerified E tx height s = ok (u, s')) :
    Issues (fun E => applyVerified E tx height) E (n + minted tx) s s' := by
  unfold applyVerified at h
  obtain ⟨_, _, h₁, h⟩ := Exec.bind_eq_ok.mp h
  obtain ⟨_, _, h₂, h⟩ := Exec.bind_eq_ok.mp h
  obtain ⟨-, rfl⟩ := read_eq_ok.mp h₁
  obtain ⟨-, rfl⟩ := read_eq_ok.mp h₂
  have hx := applyBranch_issues hs hi hlt hver h
  refine ⟨hx.issued, fun m => ?_⟩
  unfold applyVerified
  rw [Exec.bind_of_ok h₁, Exec.bind_of_ok h₂]
  exact hx.returns m

/-! ## The transactions of a block -/

/-- In a block every reward is the scheduled one. -/
theorem minted_eq_rewards {index : UInt64}
    (h : tx.transactionType = .reward → tx.amount = blockReward index) :
    minted tx = rewardsOf tx * (blockReward index).toNat := by
  unfold minted rewardsOf
  split
  · rename_i hr
    rw [h hr, Nat.one_mul]
  · rw [Nat.zero_mul]

/-- Executing transactions with at most one reward among them issues that reward. -/
theorem executeTransactions_issued {index : UInt64} {txs : List String} {base : ℕ}
    (hv : isValidAddress validator = true)
    (hbase : base + (blockReward index).toNat < 2 ^ 64) :
    ∀ {s s' : ChainState} {n n' : ℕ}, Sound s → Issued (base + n * (blockReward index).toNat) s →
      executeTransactions E validator index s n txs = ok (s', n') → n' ≤ 1 →
      Issued (base + n' * (blockReward index).toNat) s' ∧
        ∀ m, executeTransactions (E.reading m) validator index s n txs = ok (s', n') := by
  induction txs with
  | nil =>
    intro s s' n n' _ hi h _
    have h' := h
    rw [executeTransactions, ok.injEq, Prod.mk.injEq] at h'
    exact ⟨h'.1 ▸ h'.2 ▸ hi, fun _ => h⟩
  | cons txStr rest ih =>
    intro s s' n n' hs hi h hn
    obtain ⟨mid, tx, h₁, h₂⟩ := executeTransactions_cons_eq_ok.mp h
    obtain ⟨hp, hver, ha, hr⟩ := executeTransaction_eq_ok.mp h₁
    have hcount := (executeTransactions_count h₂).trans hn
    have hmint := minted_eq_rewards hr
    have hmul : (n + rewardsOf tx) * (blockReward index).toNat ≤ (blockReward index).toNat := by
      calc (n + rewardsOf tx) * (blockReward index).toNat
          ≤ 1 * (blockReward index).toNat := Nat.mul_le_mul_right _ hcount
        _ = (blockReward index).toNat := Nat.one_mul _
    have hsum : base + n * (blockReward index).toNat + minted tx =
        base + (n + rewardsOf tx) * (blockReward index).toNat := by
      rw [hmint, Nat.add_mul, Nat.add_assoc]
    have hx := applyVerified_issues hs hi (by omega) hver ha
    have hi' : Issued (base + (n + rewardsOf tx) * (blockReward index).toNat) mid :=
      hsum ▸ hx.issued
    obtain ⟨hissued, hrest⟩ := ih (hs.applyVerified hv hver ha) hi' h₂ hn
    refine ⟨hissued, fun m => executeTransactions_cons_eq_ok.mpr ⟨mid, tx, ?_, hrest m⟩⟩
    exact executeTransaction_eq_ok.mpr ⟨hp, hver, hx.returns m, hr⟩

/-! ## Whole blocks -/

/-- An accepted block issues its scheduled reward, in every reading, and leaves no fee
behind; after each of its transactions HKM is conserved. -/
theorem validateBlockAt_issued (hs : Sound s) (hi : Issued n s) {block : Block}
    {place : Position} (hlt : n + (blockReward block.index).toNat < 2 ^ 64)
    (h : validateBlockAt E block place s = ok s') :
    Issued (n + (blockReward block.index).toNat) s' ∧
      (∀ m, validateBlockAt (E.reading m) block place s = ok s') ∧
      ∀ k, ∃ mid count, executeTransactions E (block.validator.getD "") block.index s 0
        (block.transactions.take k) = ok (mid, count) ∧ Conserved mid := by
  simp only [validateBlockAt, Outcome.bind_eq_ok, ensure_eq_ok] at h
  obtain ⟨_, hplace, validator, hprod, _, hmerkle, _, hpow, he⟩ := h
  obtain ⟨hval, hm⟩ := checkProducer_staker hprod
  have hv := hs.addressed.staker validator hm
  obtain ⟨mid, htx, hend, hroot⟩ := executeBlock_eq_ok.mp he
  have hi₀ : Issued (n + 0 * (blockReward block.index).toNat) s := by
    rw [Nat.zero_mul, Nat.add_zero]
    exact hi
  have hexec := executeTransactions_issued hv hlt hs hi₀ htx le_rfl
  rw [Nat.one_mul] at hexec
  obtain ⟨himid, hreading⟩ := hexec
  have hsound : Sound mid := by
    refine executeTransactions_induct (P := fun t _ => Sound t) ?_ hs htx
    intro t t' _ _ tx ht h₁
    obtain ⟨-, hver, ha, -⟩ := executeTransaction_eq_ok.mp h₁
    exact ht.applyVerified hv hver ha
  obtain ⟨hclose, -⟩ := hsound.endBlock_ok (Or.inr himid.conserved) hv hend
  refine ⟨⟨hclose.conserved himid.conserved, ?_⟩, fun m => ?_, fun k => ?_⟩
  · rw [hclose.kept.totalSupply, hclose.kept.burned]
    exact himid.total
  · simp only [validateBlockAt, Outcome.bind_eq_ok, ensure_eq_ok]
    refine ⟨(), hplace, validator, hprod, (), hmerkle, (), hpow, ?_⟩
    exact executeBlock_eq_ok.mpr
      ⟨mid, hreading m, hclose.exact himid.conserved (E.reading m), hroot⟩
  · rw [hval, Option.getD_some]
    rw [← List.take_append_drop k block.transactions] at htx
    obtain ⟨t, count, h₁, h₂⟩ := (executeTransactions_append _ _).mp htx
    have hc := executeTransactions_count h₂
    exact ⟨t, count, h₁, (executeTransactions_issued hv hlt hs hi₀ h₁ hc).1.conserved⟩

/-! ## Runs of blocks -/

/-- The blocks accepted after a genesis of the given supply, and the state they lead to. -/
inductive Accepted (E : Node) (supply : UInt64) : ChainState → List Block → Prop
  | genesis {s : ChainState} (h : GenesisState E supply s) : Accepted E supply s []
  | block {s s' : ChainState} {blocks : List Block} {block : Block} {place : Position}
      (h : Accepted E supply s blocks) (hb : validateBlockAt E block place s = ok s') :
      Accepted E supply s' (blocks ++ [block])

/-- What the schedule emits over some blocks. -/
def emission (blocks : List Block) : ℕ := (blocks.map fun b => (blockReward b.index).toNat).sum

theorem emission_append (blocks : List Block) (block : Block) :
    emission (blocks ++ [block]) = emission blocks + (blockReward block.index).toNat := by
  simp [emission]

theorem Accepted.reachable (hE : E.saturation = .clamp) {supply : UInt64} {blocks : List Block}
    (h : Accepted E supply s blocks) : Reachable E s := by
  induction h with
  | genesis h => exact .genesis h
  | block h hb ih => exact ih.validateBlockAt hE hb

/-- Between blocks the fee pot is empty. -/
theorem Accepted.feePot (hE : E.saturation = .clamp) {supply : UInt64} {blocks : List Block}
    (h : Accepted E supply s blocks) : s.feePot = 0 := by
  cases h with
  | genesis h => exact h.fresh.feePot
  | block h hb =>
    obtain ⟨validator, -, hm, he⟩ := validateBlockAt_ok hb
    have hr := h.reachable hE
    have hv := (hr.sound hE).addressed.staker validator hm
    obtain ⟨mid, htx, hend, -⟩ := executeBlock_eq_ok.mp he
    exact (((hr.executeTransactions hv htx).sound hE).endBlock_ok (Or.inl hE) hv hend).2

/-- What has been issued after a run of blocks. -/
theorem Accepted.issued (hE : E.saturation = .clamp) {supply : UInt64} {blocks : List Block}
    (h : Accepted E supply s blocks) (hlt : supply.toNat + emission blocks < 2 ^ 64) :
    Issued (supply.toNat + emission blocks) s := by
  induction h with
  | genesis h =>
    have hf := h.fresh
    refine ⟨hf.conserved, ?_⟩
    rw [hf.totalSupply, hf.burned]
    rfl
  | block h hb ih =>
    rw [emission_append, ← Nat.add_assoc] at hlt ⊢
    exact (validateBlockAt_issued ((h.reachable hE).sound hE) (ih (by omega)) hlt hb).1

/-- HKM conservation.  Between blocks the fee pot is empty; while the genesis supply and the
emission fit in a word, balances add up to the supply, supply and burned HKM to what was
issued, and so do balances and pot after every transaction of the next accepted block, which
every reading of saturation accepts with the same state. -/
theorem supply_conserved (hE : E.saturation = .clamp) {supply : UInt64} {blocks : List Block}
    (h : Accepted E supply s blocks) :
    s.feePot = 0 ∧
      (supply.toNat + emission blocks < 2 ^ 64 →
        sumOf s.balances = s.totalSupply.toNat ∧
        s.totalSupply.toNat + s.burned.toNat = supply.toNat + emission blocks) ∧
      ∀ block place s', validateBlockAt E block place s = ok s' →
        supply.toNat + emission (blocks ++ [block]) < 2 ^ 64 →
        (∀ m, validateBlockAt (E.reading m) block place s = ok s') ∧
        ∀ k, ∃ mid count, executeTransactions E (block.validator.getD "") block.index s 0
            (block.transactions.take k) = ok (mid, count) ∧
          sumOf mid.balances + mid.feePot.toNat = mid.totalSupply.toNat := by
  have hpot := h.feePot hE
  refine ⟨hpot, fun hlt => ?_, fun block place s' hb hlt => ?_⟩
  · have hi := h.issued hE hlt
    refine ⟨?_, hi.total⟩
    have hc := hi.conserved
    rw [Conserved, hpot, UInt64.toNat_zero, Nat.add_zero] at hc
    exact hc
  · rw [emission_append, ← Nat.add_assoc] at hlt
    exact (validateBlockAt_issued ((h.reachable hE).sound hE) (h.issued hE (by omega)) hlt hb).2

/-- One block on a genesis of 1,000,000,000 HKM. -/
theorem supply_conserved_sample :
    ∃ s, Accepted (Sample.node [Sample.reward]) 1000000000000000 s
        [Sample.firstBlock [Sample.reward] 7 (Sample.genesis 1000000000000000) ["reward"]] ∧
      s.feePot = 0 ∧ sumOf s.balances = s.totalSupply.toNat ∧
      s.totalSupply.toNat + s.burned.toNat = 1000003700000000 := by
  have hexec : (executeBlock (Sample.node [Sample.reward]) (Sample.address 7)
      (Sample.firstBlock [Sample.reward] 7 (Sample.genesis 1000000000000000) ["reward"])
      (Sample.genesis 1000000000000000)).returns (fun _ => true) = true := by decide +kernel
  obtain ⟨s, hs, -⟩ := exists_of_returns hexec
  have hacc := Accepted.block
    (.genesis (.built defaultChainId (Sample.address 7) _ _ [] Sample.address_valid))
    (Sample.validateBlockAt_firstBlock (by decide) hs)
  obtain ⟨hpot, hbalanced, -⟩ := supply_conserved rfl hacc
  obtain ⟨hsum, htotal⟩ := hbalanced (by decide +kernel)
  exact ⟨s, hacc, hpot, hsum, htotal.trans (by decide +kernel)⟩

/-- At the limit of the word the supply counter stops while the reward is still paid, so the
bound on what was issued is needed. -/
theorem supply_unbalanced_at_limit :
    ∃ s, Accepted (Sample.node [Sample.reward]) Word.max64 s
        [Sample.firstBlock [Sample.reward] 7 (Sample.genesis Word.max64) ["reward"]] ∧
      sumOf s.balances ≠ s.totalSupply.toNat := by
  have hexec : (executeBlock (Sample.node [Sample.reward]) (Sample.address 7)
      (Sample.firstBlock [Sample.reward] 7 (Sample.genesis Word.max64) ["reward"])
      (Sample.genesis Word.max64)).returns
        (fun s => decide (sumOf s.balances ≠ s.totalSupply.toNat)) = true := by decide +kernel
  obtain ⟨s, hs, hne⟩ := exists_of_returns hexec
  have hacc := Accepted.block
    (.genesis (.built defaultChainId (Sample.address 7) _ _ [] Sample.address_valid))
    (Sample.validateBlockAt_firstBlock (by decide) hs)
  exact ⟨s, hacc, of_decide_eq_true hne⟩

end ChainState
