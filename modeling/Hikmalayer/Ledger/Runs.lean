/-
# Runs of the ledger

The states a node can reach: from a genesis, by applying transactions that were verified
for a block and by closing blocks.  The producer of a block is a registered validator, so
its address is well formed.  `Accepted` is the coarser view: whole blocks that passed
`validate_block_at`; each is a run of the finer steps.
-/
import Mathlib.Tactic
import Hikmalayer.Ledger.Genesis
import Hikmalayer.Model.Chain

open Outcome Exec OrderedMap

namespace ChainState

variable {E : Node} {s s' : ChainState} {supply : UInt64}

/-! ## Steps -/

/-- One step of the ledger, in a block produced by a well-formed address. -/
inductive Step (E : Node) : ChainState → ChainState → Prop
  | apply {s s' : ChainState} {tx : Transaction} {height : UInt64} {validator : String}
      (hv : isValidAddress validator = true) (hver : tx.verifyForBlock E validator = ok ())
      (h : applyVerified E tx height s = ok ((), s')) : Step E s s'
  | close {s s' : ChainState} {height : UInt64} {validator : String}
      (hv : isValidAddress validator = true)
      (h : endBlock E height validator s = ok ((), s')) : Step E s s'

/-- The states reachable from a genesis. -/
inductive Reachable (E : Node) : ChainState → Prop
  | genesis {supply : UInt64} {s : ChainState} (h : GenesisState E supply s) : Reachable E s
  | step {s s' : ChainState} (hr : Reachable E s) (h : Step E s s') : Reachable E s'

/-- A step of the clamping node keeps the invariant. -/
theorem Step.sound (hE : E.saturation = .clamp) (h : Step E s s') (hs : Sound s) : Sound s' := by
  cases h with
  | apply hv hver h => exact hs.applyVerified hv hver h
  | close hv h => exact (hs.endBlock_ok (Or.inl hE) hv h).1.sound

/-- Every reachable state satisfies the invariant. -/
theorem Reachable.sound (hE : E.saturation = .clamp) (h : Reachable E s) : Sound s := by
  induction h with
  | genesis h => exact h.fresh.sound
  | step hr h ih => exact h.sound hE ih

/-! ## The transactions of a block -/

/-- What executing one transaction of a block says. -/
theorem executeTransaction_eq_ok {validator txStr : String} {index : UInt64} {tx : Transaction} :
    executeTransaction E validator index s txStr = ok (s', tx) ↔
      E.parseTx txStr = some tx ∧ tx.verifyForBlock E validator = ok () ∧
      applyVerified E tx index s = ok ((), s') ∧
      (tx.transactionType = .reward → tx.amount = blockReward index) := by
  simp only [executeTransaction, Outcome.bind_eq_ok, okOr_eq_ok, mapErr_eq_ok, finalState_eq_ok,
    ensure_eq_ok, pure_eq, ok.injEq, Prod.mk.injEq]
  constructor
  · rintro ⟨tx, hp, _, hv, _, ha, _, hr, rfl, rfl⟩
    exact ⟨hp, hv, ha, hr⟩
  · rintro ⟨hp, hv, ha, hr⟩
    exact ⟨tx, hp, (), hv, s', ha, (), hr, rfl, rfl⟩

/-- How many rewards a transaction is. -/
def rewardsOf (tx : Transaction) : ℕ := if tx.transactionType = .reward then 1 else 0

theorem executeTransactions_cons_eq_ok {validator txStr : String} {index : UInt64}
    {count count' : ℕ} {rest : List String} :
    executeTransactions E validator index s count (txStr :: rest) = ok (s', count') ↔
      ∃ mid tx, executeTransaction E validator index s txStr = ok (mid, tx) ∧
        executeTransactions E validator index mid (count + rewardsOf tx) rest =
          ok (s', count') := by
  simp only [executeTransactions, Outcome.bind_eq_ok, Prod.exists, rewardsOf]
  refine exists_congr fun mid => exists_congr fun tx => and_congr_right fun _ => ?_
  split <;> rfl

/-- What holds of the state and the reward count, and is kept by each transaction of a
block, holds after all of them. -/
theorem executeTransactions_induct {validator : String} {index : UInt64}
    {P : ChainState → ℕ → Prop}
    (hstep : ∀ t t' n txStr tx, P t n → executeTransaction E validator index t txStr = ok (t', tx) →
      P t' (n + rewardsOf tx)) {txs : List String} :
    ∀ {s s' : ChainState} {n n' : ℕ}, P s n →
      executeTransactions E validator index s n txs = ok (s', n') → P s' n' := by
  induction txs with
  | nil =>
    intro s s' n n' hs h
    rw [executeTransactions, ok.injEq, Prod.mk.injEq] at h
    exact h.1 ▸ h.2 ▸ hs
  | cons txStr rest ih =>
    intro s s' n n' hs h
    obtain ⟨mid, tx, h₁, h₂⟩ := executeTransactions_cons_eq_ok.mp h
    exact ih (hstep s mid n txStr tx hs h₁) h₂

/-- Executing transactions one after another. -/
theorem executeTransactions_append {validator : String} {index : UInt64} (l₁ l₂ : List String) :
    ∀ {s : ChainState} {n : ℕ} {r : ChainState × ℕ},
      executeTransactions E validator index s n (l₁ ++ l₂) = ok r ↔
        ∃ mid k, executeTransactions E validator index s n l₁ = ok (mid, k) ∧
          executeTransactions E validator index mid k l₂ = ok r := by
  induction l₁ with
  | nil =>
    intro s n r
    constructor
    · exact fun h => ⟨s, n, rfl, h⟩
    · rintro ⟨mid, k, h, h'⟩
      rw [executeTransactions, ok.injEq, Prod.mk.injEq] at h
      rw [List.nil_append, h.1, h.2]
      exact h'
  | cons txStr rest ih =>
    intro s n r
    obtain ⟨s', n'⟩ := r
    rw [List.cons_append, executeTransactions_cons_eq_ok]
    constructor
    · rintro ⟨t, tx, h₁, h₂⟩
      obtain ⟨mid, k, h₃, h₄⟩ := ih.mp h₂
      exact ⟨mid, k, executeTransactions_cons_eq_ok.mpr ⟨t, tx, h₁, h₃⟩, h₄⟩
    · rintro ⟨mid, k, h₁, h₂⟩
      obtain ⟨t, tx, h₃, h₄⟩ := executeTransactions_cons_eq_ok.mp h₁
      exact ⟨t, tx, h₃, ih.mpr ⟨mid, k, h₄, h₂⟩⟩

/-- The count of rewards only grows. -/
theorem executeTransactions_count {validator : String} {index : UInt64} {txs : List String}
    {n n' : ℕ} (h : executeTransactions E validator index s n txs = ok (s', n')) : n ≤ n' := by
  refine executeTransactions_induct (P := fun _ k => n ≤ k) ?_ le_rfl h
  intro _ _ k _ tx hk _
  exact hk.trans (Nat.le_add_right k _)

/-- Executing a block: its transactions, one reward, the housekeeping, the state root. -/
theorem executeBlock_eq_ok {validator : String} {block : Block} :
    executeBlock E validator block s = ok s' ↔
      ∃ mid, executeTransactions E validator block.index s 0 block.transactions = ok (mid, 1) ∧
        endBlock E block.index validator mid = ok ((), s') ∧ s'.stateRoot E = block.stateRoot := by
  simp only [executeBlock, Outcome.bind_eq_ok, Prod.exists, ensure_eq_ok, mapErr_eq_ok,
    finalState_eq_ok, pure_eq, ok.injEq]
  constructor
  · rintro ⟨mid, n, he, _, rfl, t, hend, _, hroot, rfl⟩
    exact ⟨mid, he, hend, hroot⟩
  · rintro ⟨mid, he, hend, hroot⟩
    exact ⟨mid, 1, he, (), rfl, s', hend, (), hroot, rfl⟩

/-! ## Accepted blocks -/

/-- An accepted producer is a registered staker. -/
theorem checkProducer_staker {block : Block} {place : Position} {validator : String}
    (h : checkProducer E block place s = ok validator) :
    block.validator = some validator ∧ validator ∈ s.stakers := by
  simp only [checkProducer, Outcome.bind_eq_ok, ensure_eq_ok, plain_eq_ok, okOr_eq_ok, pure_eq,
    ok.injEq, Option.map_eq_some_iff] at h
  obtain ⟨_, -, _, -, v, hv, _, -, _, -, _, -, _, ⟨info, hi, -⟩, _, -, _, -, _, -, _, -, _, -, _,
    -, _, -, rfl⟩ := h
  exact ⟨hv, Std.ExtTreeMap.mem_iff_isSome_getElem?.mpr (by rw [hi]; rfl)⟩

/-- What an accepted block says: who produced it, and that it executes. -/
theorem validateBlockAt_ok {block : Block} {place : Position}
    (h : validateBlockAt E block place s = ok s') :
    ∃ validator, block.validator = some validator ∧ validator ∈ s.stakers ∧
      executeBlock E validator block s = ok s' := by
  simp only [validateBlockAt, Outcome.bind_eq_ok, ensure_eq_ok] at h
  obtain ⟨_, -, validator, hp, _, -, _, -, he⟩ := h
  obtain ⟨hv, hm⟩ := checkProducer_staker hp
  exact ⟨validator, hv, hm, he⟩

/-- The states after the transactions of a block. -/
theorem Reachable.executeTransactions {validator : String} {index : UInt64} {txs : List String}
    {n n' : ℕ} (hr : Reachable E s) (hv : isValidAddress validator = true)
    (h : executeTransactions E validator index s n txs = ok (s', n')) : Reachable E s' := by
  refine executeTransactions_induct (P := fun t _ => Reachable E t) ?_ hr h
  intro t t' n txStr tx ht h₁
  obtain ⟨-, hver, ha, -⟩ := executeTransaction_eq_ok.mp h₁
  exact ht.step (.apply hv hver ha)

/-- An accepted block leads to a reachable state. -/
theorem Reachable.validateBlockAt (hE : E.saturation = .clamp) {block : Block} {place : Position}
    (hr : Reachable E s) (h : validateBlockAt E block place s = ok s') : Reachable E s' := by
  obtain ⟨validator, -, hm, he⟩ := validateBlockAt_ok h
  have hv := (hr.sound hE).addressed.staker validator hm
  obtain ⟨mid, htx, hend, -⟩ := executeBlock_eq_ok.mp he
  exact (hr.executeTransactions hv htx).step (.close hv hend)

end ChainState
