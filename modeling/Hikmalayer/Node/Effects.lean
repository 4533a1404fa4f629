/-
# What an action changes

One inversion for the state of the node after an action.  The invariants of the node are proved
from it and from those of `Node.Turns`, without looking at the handlers again.
-/
import Mathlib.Tactic
import Hikmalayer.Node.Chains

open Outcome

namespace Settings

variable {cfg : Settings} {i : Surroundings} {s : AppState} {a b : ServerAction} {turn : ServerTurn}
  {e : P2PEnvelope} {o : Output}

/-! ## The state -/

/-- The state that an action leaves. -/
inductive Effect (cfg : Settings) (i : Surroundings) (s : AppState) : ServerAction → AppState → Prop
  | unchanged (a : ServerAction) : Effect cfg i s a s
  | peers (a : ServerAction) (peers : List String) : Effect cfg i s a { s with peers := peers }
  | governed (a : ServerAction) (depth : UInt64) : Effect cfg i s a { s with finalityDepth := depth }
  | certified (id issuedTo : String) :
    Effect cfg i s (.begin (.issueCertificate true id issuedTo)) { s with
      pendingTransactions := s.pendingTransactions ++ [.newCertificate i.id i.stamp issuedTo] }
  | penalized (e : P2PEnvelope) (hnode : ¬ blank e.nodeId) : Effect cfg i s (.penalizePeer e)
    { s with peerBook := (s.peerBook.recordBad e.nodeId i.now.time).2 }
  | rewarded (e : P2PEnvelope) :
    Effect cfg i s (.rewardPeer e) { s with peerBook := s.peerBook.recordGood e.nodeId }
  | seen (e : P2PEnvelope) (hnew : (s.seenMessages.insert e.messageId).1 = true) :
    Effect cfg i s (.replay e)
      { s with seenMessages := (s.seenMessages.insert e.messageId).2 }
  | gossiped (e : P2PEnvelope) (tx : Transaction) (hadmits : (do
        let nextHeight ← s.chain.nextIndex
        s.chain.state.admits cfg.node s.pendingTransactions nextHeight tx) = ok ()) :
    Effect cfg i s (.admitGossip e tx)
      { s with pendingTransactions := s.pendingTransactions ++ [tx] }
  | admitted (tx : Transaction) (hroom : s.pendingTransactions.length < maxPendingTxs)
    (hnew : ∀ queued ∈ s.pendingTransactions, queued.id ≠ tx.id)
    (hadmits : s.chain.state.admits cfg.node s.pendingTransactions
      (UInt64.ofNat s.chain.blocks.length) tx = ok ()) :
    Effect cfg i s (.enqueue tx)
      { s with pendingTransactions := s.pendingTransactions ++ [tx] }
  | pruned (accepted : List Block) : Effect cfg i s (.prunePending accepted) { s with
      pendingTransactions := s.pendingTransactions.filter
        (s.chain.state.stillPending (includedIds cfg.node accepted)) }
  | saved : Effect cfg i s .persistState { s with disk := some s.snapshot }
  | appended (a : ServerAction) (block : Block) (depth : UInt64) (chain : Blockchain)
    (happend : Blockchain.appendFinal cfg.node i.now.time depth s.chain block = ok chain) :
    Effect cfg i s a { s with chain := chain }
  | mined (key : LocalValidatorKey) (plan : Blockchain.MinePlan) (built block : Block)
    (depth : UInt64) (chain : Blockchain) (pending : List Transaction)
    (hfinish : Blockchain.finishMine cfg.node key plan built depth i.now.time s.chain
      s.pendingTransactions = ok (block, chain, pending))
    (hheld : chain.blocks.length < 2 ^ 63) :
    Effect cfg i s (.finishMine key plan built depth)
      { s with
        chain := chain
        pendingTransactions := pending }
  | fetched (a : ServerAction) (blocks accepted : List Block) (appended chain : Blockchain)
    (depth : UInt64) (diverged : Bool)
    (happend : Blockchain.appendAll cfg.node i.now.time [] s.chain blocks =
      ok (appended, accepted, diverged))
    (hfinal : chain = appended ∨
      (appended.applyFinality depth : Outcome String Blockchain) = ok chain) :
    Effect cfg i s a { s with chain := chain }
  | adopted (a : ServerAction) (remote chain : Blockchain) (depth : UInt64)
    (hadopt : Blockchain.adoptFinal cfg.node i.now.time depth s.chain remote = ok (some chain)) :
    Effect cfg i s a { s with chain := chain }

theorem runBegin_effect {request : Request} (h : runBegin cfg i s request = some turn) :
    Effect cfg i s (.begin request) turn.state := by
  cases request with
  | message authorized e =>
    rw [runBegin] at h
    split at h
    · cases h
      exact .unchanged _
    · rcases settle_eq_some.mp h with ⟨_, -, rfl⟩ | ⟨_, -, rfl⟩
      · exact .unchanged _
      · exact .unchanged _
  | receiveBlock authorized block =>
    rw [runBegin] at h
    split at h <;> cases h <;> exact .unchanged _
  | receiveBlocks authorized blocks =>
    rw [runBegin] at h
    split at h <;> cases h <;> exact .unchanged _
  | queueTransaction tx =>
    rw [runBegin] at h
    split at h
    · cases h
      exact .unchanged _
    · rcases settle_eq_some.mp h with ⟨_, -, rfl⟩ | ⟨_, -, rfl⟩
      · exact .unchanged _
      · exact .unchanged _
  | issueCertificate authorized id issuedTo =>
    rw [runBegin] at h
    split at h
    · cases h
      exact .unchanged _
    · next hauthorized =>
      rw [not_not] at hauthorized
      cases h
      rw [hauthorized]
      exact .certified id issuedTo
  | mineBlock =>
    rw [runBegin] at h
    split at h <;> cases h <;> exact .unchanged _
  | submitBlock block =>
    cases h
    exact .unchanged _
  | updateGovernance authorized slashPercent finalityDepth =>
    rw [runBegin] at h
    split_ifs at h <;> cases h
    · exact .unchanged _
    · exact .unchanged _
    · exact .governed _ finalityDepth
    · exact .unchanged _
  | learnPeers candidates =>
    cases h
    exact .peers _ _
  | catchUp target =>
    cases h
    exact .unchanged _

theorem runPayload_effect (h : runPayload cfg s e = some turn) :
    Effect cfg i s (.payload e) turn.state := by
  unfold runPayload at h
  split at h
  · cases h
    exact .unchanged _
  · split at h <;> cases h
    · exact .unchanged _
    · exact .peers _ _
  · split at h
    · cases h
      exact .unchanged _
    · rcases settle_eq_some.mp h with ⟨_, -, rfl⟩ | ⟨_, -, rfl⟩
      · split <;> exact .unchanged _
      · exact .unchanged _
  · cases h
    exact .unchanged _
  · cases h
    exact .unchanged _

theorem runFinishMine_effect {key : LocalValidatorKey} {plan : Blockchain.MinePlan} {built : Block}
    {depth : UInt64} (h : runFinishMine cfg i s key plan built depth = some turn) :
    Effect cfg i s (.finishMine key plan built depth) turn.state := by
  rcases settle_eq_some.mp h with ⟨⟨block, chain, pending, height⟩, hfinish, rfl⟩ | ⟨_, -, rfl⟩
  · simp only [Outcome.bind_eq_ok, mapErr_eq_ok, Blockchain.held_eq_ok, pure_eq, ok.injEq, Prod.mk.injEq]
      at hfinish
    obtain ⟨⟨block', chain', pending'⟩, hfinish, _, ⟨hheld, rfl⟩, _, -, rfl, rfl, rfl, -⟩ := hfinish
    exact .mined key plan built _ depth _ _ hfinish hheld
  · exact .unchanged _

theorem runAppendFetched_effect {target depth : UInt64} {batches : ℕ}
    (h : runAppendFetched cfg i s target depth batches = some turn) :
    Effect cfg i s (.appendFetched target depth batches) turn.state := by
  unfold runAppendFetched at h
  split at h
  · cases h
    exact .unchanged _
  · cases h
    exact .unchanged _
  next blocks _ _ =>
    rcases settle_eq_some.mp h with ⟨⟨chain, accepted, diverged⟩, happend, rfl⟩ | ⟨_, -, rfl⟩
    · simp only [Outcome.bind_eq_ok, pure_eq, ok.injEq, Prod.mk.injEq] at happend
      obtain ⟨⟨appended, accepted', diverged'⟩, happend, _, hfinal, rfl, rfl, rfl⟩ := happend
      refine .fetched _ blocks _ appended _ depth _ happend ?_
      rw [Blockchain.finalAfter] at hfinal
      split at hfinal
      · exact Or.inl (ok.inj hfinal).symm
      · exact Or.inr hfinal
    · exact .unchanged _

/-- The state after an action. -/
theorem run_effect (h : cfg.run i s a = some turn) : Effect cfg i s a turn.state := by
  cases a with
  | begin request => exact runBegin_effect h
  | penalizePeer e =>
    rw [run] at h
    split at h
    · cases h
      exact .unchanged _
    · next hnode =>
      cases h
      exact .penalized e hnode
  | rewardPeer e =>
    rw [run] at h
    split at h <;> cases h
    · exact .unchanged _
    · exact .rewarded e
  | gate e =>
    rw [run] at h
    split at h <;> cases h <;> exact .unchanged _
  | replay e =>
    rw [run] at h
    split at h
    · next hnew =>
      cases h
      exact .seen e hnew
    · cases h
      exact .unchanged _
  | payload e => exact runPayload_effect h
  | admitGossip e tx =>
    rcases settle_eq_some.mp h with ⟨_, hadmits, rfl⟩ | ⟨_, -, rfl⟩
    · exact .gossiped e tx hadmits
    · exact .unchanged _
  | acceptPeerBlock source block depth =>
    rcases settle_eq_some.mp h with ⟨chain, happend, rfl⟩ | ⟨_, -, rfl⟩
    · exact .appended _ block depth chain happend
    · exact .unchanged _
  | acceptPeerBlocks source blocks depth accepted =>
    cases blocks with
    | nil =>
      cases h
      exact .unchanged _
    | cons block rest =>
      rcases settle_eq_some.mp h with ⟨chain, happend, rfl⟩ | ⟨_, -, rfl⟩
      · exact .appended _ block depth chain happend
      · exact .unchanged _
  | prunePending accepted =>
    cases h
    exact .pruned accepted
  | persistState =>
    rw [run] at h
    split at h <;> cases h
    · exact .saved
    · exact .unchanged _
  | answer source response =>
    cases h
    exact .unchanged _
  | enqueue tx =>
    have h : runEnqueue cfg s tx = some turn := h
    unfold runEnqueue at h
    split at h
    · cases h
      exact .unchanged _
    · next hroom =>
      split at h
      · cases h
        exact .unchanged _
      · next hnew =>
        rcases settle_eq_some.mp h with ⟨_, hadmits, rfl⟩ | ⟨_, -, rfl⟩
        · refine .admitted tx (not_le.mp hroom) (fun queued hqueued hid => hnew ?_) hadmits
          exact List.any_eq_true.mpr ⟨queued, hqueued, decide_eq_true hid⟩
        · exact .unchanged _
  | gossipTransaction tx =>
    rw [run] at h
    split at h <;> cases h <;> exact .unchanged _
  | gossipBlock block =>
    cases h
    exact .unchanged _
  | planMine key depth =>
    rcases settle_eq_some.mp h with ⟨_, -, rfl⟩ | ⟨_, -, rfl⟩ <;> exact .unchanged _
  | buildMined key plan depth =>
    rcases settle_eq_some.mp h with ⟨_, -, rfl⟩ | ⟨_, -, rfl⟩ <;> exact .unchanged _
  | finishMine key plan built depth => exact runFinishMine_effect h
  | submit block depth =>
    rcases settle_eq_some.mp h with ⟨⟨chain, height⟩, happend, rfl⟩ | ⟨_, -, rfl⟩
    · simp only [Outcome.bind_eq_ok, pure_eq, ok.injEq, Prod.mk.injEq] at happend
      obtain ⟨_, happend, _, -, rfl, -⟩ := happend
      exact .appended _ block depth _ happend
    · exact .unchanged _
  | syncWithPeers =>
    rw [run] at h
    split at h <;> cases h <;> exact .unchanged _
  | readDepth peers =>
    cases h
    exact .unchanged _
  | adoptFrom peers depth =>
    cases peers with
    | zero =>
      cases h
      exact .unchanged _
    | succ peers =>
      have h : runAdoptFrom cfg i s depth (peers + 1) = some turn := h
      rw [runAdoptFrom] at h
      split at h
      · cases h
        exact .unchanged _
      · next remote _ =>
        rcases settle_eq_some.mp h with ⟨adopted, hadopt, rfl⟩ | ⟨_, -, rfl⟩
        · cases adopted with
          | some chain => exact .adopted _ remote chain depth hadopt
          | none => exact .unchanged _
        · exact .unchanged _
  | download target depth batches =>
    cases batches with
    | zero =>
      cases h
      exact .unchanged _
    | succ batches =>
      rcases settle_eq_some.mp h with ⟨_, -, rfl⟩ | ⟨_, -, rfl⟩ <;> exact .unchanged _
  | appendFetched target depth batches => exact runAppendFetched_effect h

end Settings
