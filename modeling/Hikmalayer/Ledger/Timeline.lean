/-
# The ledger over time

A run from a first state, block by block, with its history: the height of each block, what it
applied, and the state in which it was closed.  Heights increase; nothing else is asked of them.
-/
import Mathlib.Tactic
import Hikmalayer.Ledger.Runs

open Outcome Exec OrderedMap

namespace ChainState

variable {E : Node} {g s s' mid : ChainState} {height : UInt64} {txs : List Transaction}

/-! ## Histories -/

/-- Transactions that a block at a height applied one after another. -/
inductive Applies (E : Node) (height : UInt64) (s : ChainState) :
    ChainState → List Transaction → Prop
  | none : Applies E height s s []
  | next {t t' : ChainState} {txs : List Transaction} {tx : Transaction} {validator : String}
      (h : Applies E height s t txs) (hv : isValidAddress validator = true)
      (hver : tx.verifyForBlock E validator = ok ())
      (ha : applyVerified E tx height t = ok ((), t')) : Applies E height s t' (txs ++ [tx])

/-- What a run keeps of a block: its height, its transactions, and the state they led to. -/
structure PastBlock where
  height : UInt64
  transactions : List Transaction
  before : ChainState

/-- The height of the last block; before the first it is zero. -/
def lastHeight (history : List PastBlock) : UInt64 := (history.getLast?.map PastBlock.height).getD 0

@[simp] theorem lastHeight_append (history : List PastBlock) (b : PastBlock) :
    lastHeight (history ++ [b]) = b.height := by
  rw [lastHeight, List.getLast?_append, List.getLast?_singleton]
  rfl

/-- A run of blocks at increasing heights, from a first state. -/
inductive Timeline (E : Node) (g : ChainState) : ChainState → List PastBlock → Prop
  | start : Timeline E g g []
  | block {s mid s' : ChainState} {history : List PastBlock} {height : UInt64}
      {txs : List Transaction} {validator : String} (h : Timeline E g s history)
      (hlater : lastHeight history < height) (htxs : Applies E height s mid txs)
      (hv : isValidAddress validator = true)
      (hend : endBlock E height validator mid = ok ((), s')) :
      Timeline E g s' (history ++ [⟨height, txs, mid⟩])

theorem Applies.reachable (h : Applies E height s mid txs) (hr : Reachable E s) :
    Reachable E mid := by
  induction h with
  | none => exact hr
  | next _ hv hver ha ih => exact ih.step (.apply hv hver ha)

theorem Timeline.reachable {history : List PastBlock} (h : Timeline E g s history)
    (hg : Reachable E g) : Reachable E s := by
  induction h with
  | start => exact hg
  | block _ _ htxs hv hend ih => exact (htxs.reachable ih).step (.close hv hend)

/-! ## Accepted blocks -/

theorem Applies.append {t : ChainState} {more : List Transaction} (h : Applies E height s mid txs)
    (h' : Applies E height mid t more) : Applies E height s t (txs ++ more) := by
  induction h' with
  | none => rwa [List.append_nil]
  | next _ hv hver ha ih =>
    rw [← List.append_assoc]
    exact ih.next hv hver ha

/-- The transactions of a block that executes. -/
theorem applies_of_executeTransactions {validator : String} {texts : List String} {n n' : ℕ}
    (hv : isValidAddress validator = true)
    (h : executeTransactions E validator height s n texts = ok (s', n')) :
    Applies E height s s' (texts.filterMap E.parseTx) := by
  induction texts generalizing s n with
  | nil =>
    rw [executeTransactions, ok.injEq, Prod.mk.injEq] at h
    obtain ⟨rfl, -⟩ := h
    exact .none
  | cons text rest ih =>
    obtain ⟨t, tx, h₁, h₂⟩ := executeTransactions_cons_eq_ok.mp h
    obtain ⟨hparse, hver, ha, -⟩ := executeTransaction_eq_ok.mp h₁
    rw [List.filterMap_cons_some hparse]
    exact (Applies.none.next hv hver ha).append (ih h₂)

/-- An accepted block above the last height goes on with the run. -/
theorem Timeline.accepted (hE : E.saturation = .clamp) (hg : Reachable E g)
    {history : List PastBlock} (h : Timeline E g s history) {block : Block} {place : Position}
    (hlater : lastHeight history < block.index)
    (hb : validateBlockAt E block place s = ok s') : ∃ mid,
      Timeline E g s' (history ++ [⟨block.index, block.transactions.filterMap E.parseTx, mid⟩]) := by
  obtain ⟨validator, -, hm, he⟩ := validateBlockAt_ok hb
  obtain ⟨mid, htxs, hend, -⟩ := executeBlock_eq_ok.mp he
  have hv := ((h.reachable hg).sound hE).addressed.staker validator hm
  exact ⟨mid, h.block hlater (applies_of_executeTransactions hv htxs) hv hend⟩

end ChainState
