/-
# Which handlers can deadlock

Every handler takes the chain before the pool, but `mine_block` and `propose_block`, which take
the pool first.  A set of handlers that run side by side cannot deadlock exactly when none of
the two runs beside a handler that takes the chain first.
-/
import Mathlib.Tactic
import Hikmalayer.Model.Handlers

open Locks Locks.Prog

namespace Handler

/-! ## The order of each handler -/

/-- The handlers that wait for the chain while they hold the pool. -/
def PoolFirst (h : Handler) : Prop := h = mineBlock ∨ h = proposeBlock

/-- The handlers that wait for the pool while they hold the chain. -/
def ChainFirst (h : Handler) : Prop := h ≠ proposeBlock ∧ h ≠ gossip

/-- The order of the guards: the chain is outermost. -/
def chainRank : Mutex → ℕ
  | .chain => 0
  | .contracts => 1
  | .pendingTransactions => 2
  | .peers => 3
  | .governance => 4
  | .slashEvidence => 5
  | .metrics => 6
  | .peerBook => 7
  | .seenMessages => 8

/-- The order of `propose_block`: the pool is outermost. -/
def poolRank : Mutex → ℕ
  | .pendingTransactions => 0
  | .chain => 1
  | _ => 2

/-- Every handler but the two follows one order. -/
theorem chainRank_lt {h : Handler} (hh : ¬ h.PoolFirst) :
    ∀ e ∈ h.prog.waits [], ∀ l ∈ e.1, chainRank l < chainRank e.2 := by
  cases h with
  | mineBlock => exact absurd (.inl rfl) hh
  | proposeBlock => exact absurd (.inr rfl) hh
  | _ => decide

/-- `propose_block` and the gossip tasks follow another order. -/
theorem poolRank_lt {h : Handler} (hh : ¬ h.ChainFirst) :
    ∀ e ∈ h.prog.waits [], ∀ l ∈ e.1, poolRank l < poolRank e.2 := by
  cases h with
  | proposeBlock => decide
  | gossip => decide
  | _ => exact absurd ⟨by decide, by decide⟩ hh

/-- No handler waits for a mutex that it holds. -/
theorem no_relock (h : Handler) : ∀ e ∈ h.prog.waits [], e.2 ∉ e.1 := by
  cases h <;> decide

/-- A gossip task holds nothing when it waits. -/
theorem gossip_waits : ∀ e ∈ gossip.prog.waits [], e.1 = [] := by decide

/-! ## Up to the inner mutex -/

/-- What a handler that takes the pool first does before it waits for the chain. -/
theorem PoolFirst.trace {h : Handler} (hh : h.PoolFirst) :
    ∃ pre post, h.prog.Trace (pre ++ .acquire .chain :: post) ∧
      heldAfter [] pre = [.pendingTransactions] ∧
      ∀ e ∈ points [] pre, e.1 = [] ∧ (e.2 = .governance ∨ e.2 = .pendingTransactions) := by
  obtain rfl | rfl := hh
  · refine ⟨[.acquire .governance, .release .governance, .acquire .pendingTransactions],
      [.release .chain, .release .pendingTransactions], ?_, rfl, by decide⟩
    have htrace : Mutex.mineBlock.Trace _ := .seq (.holding .done) (.seq (.right
      (.seq (.holding (.holding .done)) (.seq (.left .done) .done))) .done)
    exact htrace
  · refine ⟨[.acquire .pendingTransactions], [.release .chain, .release .pendingTransactions],
      ?_, rfl, by decide⟩
    have htrace : Mutex.proposeBlock.Trace _ := .holding (.holding .done)
    exact htrace

/-- Where a handler that takes the chain first waits for the pool. -/
theorem ChainFirst.wait {h : Handler} (hh : h.ChainFirst) :
    ∃ held, (held, .pendingTransactions) ∈ h.prog.waits [] ∧
      .chain ∈ held ∧ .governance ∉ held := by
  cases h with
  | proposeBlock => exact absurd rfl hh.1
  | gossip => exact absurd rfl hh.2
  | prunePending => exact ⟨[.chain], by decide, by decide, by decide⟩
  | getAccountNonce => exact ⟨[.chain], by decide, by decide, by decide⟩
  | getBlockchainStats => exact ⟨[.chain], by decide, by decide, by decide⟩
  | acceptPeerBlock => exact ⟨[.chain], by decide, by decide, by decide⟩
  -- the others save the state
  | _ => exact ⟨[.contracts, .chain], by decide, by decide, by decide⟩

/-! ## Handlers side by side -/

variable {n : ℕ}

/-- The programs of some handlers. -/
def progs (handlers : Fin n → Handler) (i : Fin n) : Prog Mutex := (handlers i).prog

/-- One handler of each kind is enough. -/
theorem deadlock_of_both {handlers : Fin n → Handler} {i j : Fin n} (hij : i ≠ j)
    (hi : (handlers i).PoolFirst) (hj : (handlers j).ChainFirst) :
    ∃ c, Reaches (progs handlers) c ∧ Deadlocked c := by
  obtain ⟨pre, post, htrace, hheld, hpoints⟩ := hi.trace
  obtain ⟨held, hwait, hchain, hgovernance⟩ := hj.wait
  obtain ⟨ops, htrace', hpoint⟩ := exists_point _ hwait
  obtain ⟨pre', post', rfl, hheld'⟩ := split_of_mem_points hpoint
  have hpool : Mutex.pendingTransactions ∉ held := no_relock _ _ hwait
  refine deadlock_of_opposite (progs handlers) hij htrace htrace' ?_ ?_ ?_ ?_
  · rw [hheld']
    exact hchain
  · rw [hheld]
    exact List.mem_singleton_self _
  · intro e he
    obtain ⟨hnil, hwhich⟩ := hpoints e he
    rw [hnil, hheld']
    refine ⟨List.not_mem_nil, ?_⟩
    rcases hwhich with h | h
    · exact h ▸ hgovernance
    · exact h ▸ hpool
  · intro e he
    refine no_relock (handlers j) e (htrace'.points_subset [] ?_)
    rw [points_append]
    exact List.mem_append_left _ he

/-- Handlers that run side by side cannot deadlock exactly when no handler that takes the pool
first runs beside one that takes the chain first. -/
theorem deadlock_free_iff (handlers : Fin n → Handler) :
    (∀ c, Reaches (progs handlers) c → ¬ Deadlocked c) ↔
      ∀ i j, i ≠ j → (handlers i).PoolFirst → ¬ (handlers j).ChainFirst := by
  refine ⟨fun hfree i j hij hi hj => ?_, fun hapart c hc => ?_⟩
  · obtain ⟨c, hreach, hdead⟩ := deadlock_of_both hij hi hj
    exact hfree c hreach hdead
  by_cases hpool : ∃ i, (handlers i).PoolFirst
  · obtain ⟨i, hi⟩ := hpool
    by_cases hboth : (handlers i).ChainFirst
    · -- a single `mine_block`, and gossip tasks
      refine not_deadlocked_of_single hc i (fun j hj => ?_) (no_relock _)
      have hj₁ := hapart i j hj.symm hi
      have hj₂ : ¬ (handlers j).PoolFirst := fun h => hapart j i hj h hboth
      have hgossip : handlers j = gossip := by
        simp only [ChainFirst, PoolFirst, not_and_or, not_or, not_not] at hj₁ hj₂
        tauto
      rw [progs, hgossip]
      exact gossip_waits
    · -- `propose_block` and gossip tasks
      refine not_deadlocked_of_rank hc (fun j => poolRank_lt ?_)
      by_cases hj : j = i
      · exact hj ▸ hboth
      · exact hapart i j (Ne.symm hj) hi
  · exact not_deadlocked_of_rank hc (fun i => chainRank_lt fun hi => hpool ⟨i, hi⟩)

/-- `mine_block` holds the pool and waits for the chain, `queue_transaction` holds the chain and
waits for the pool. -/
theorem mine_and_queue_deadlock :
    ∃ c, Reaches (progs ![mineBlock, queueTransaction]) c ∧ Deadlocked c :=
  deadlock_of_both (i := 0) (j := 1) (by decide) (.inl rfl) ⟨by decide, by decide⟩

end Handler
