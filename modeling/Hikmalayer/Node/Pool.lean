/-
# The pool

The pool of pending transactions is bounded and holds no id twice as long as a certificate or a
gossiped transaction comes in with room and a new id: the route for submitted transactions checks
both under the lock that it admits under, the other two ways in do not.
-/
import Mathlib.Tactic
import Hikmalayer.Node.Reputation

open Outcome

/-- At most as many transactions as the pool may hold, and no id twice. -/
structure SoundPool (pending : List Transaction) : Prop where
  bounded : pending.length ≤ maxPendingTxs
  nodup : (pending.map Transaction.id).Nodup

namespace SoundPool

variable {pending pending' : List Transaction} {tx : Transaction}

theorem nil : SoundPool [] := ⟨Nat.zero_le _, List.nodup_nil⟩

theorem sublist (h : SoundPool pending) (hsub : pending'.Sublist pending) : SoundPool pending' :=
  ⟨hsub.length_le.trans h.bounded, h.nodup.sublist (hsub.map _)⟩

/-- With room and a new id one more comes in. -/
theorem concat (h : SoundPool pending) (hroom : pending.length < maxPendingTxs)
    (hnew : ∀ queued ∈ pending, queued.id ≠ tx.id) : SoundPool (pending ++ [tx]) where
  bounded := by
    rw [List.length_append, List.length_singleton]
    exact hroom
  nodup := by
    rw [List.map_append, List.map_singleton, ← List.concat_eq_append]
    refine h.nodup.concat fun hmem => ?_
    obtain ⟨queued, hqueued, hid⟩ := List.mem_map.mp hmem
    exact hnew queued hqueued hid

end SoundPool

namespace Settings

variable {cfg : Settings} {c start : ServerConfig} {i : Surroundings} {s s' : AppState} {a : ServerAction}

/-- A certificate or an applicable gossiped transaction comes in only with room in the pool and a
new id. -/
structure RoomForAll (cfg : Settings) (c : ServerConfig) (event : ServerEvent) : Prop where
  certificate : ∀ k i id issuedTo rest, event = .run k i →
    c.handlers[k]? = some (.begin (.issueCertificate true id issuedTo) :: rest) →
    c.state.pendingTransactions.length < maxPendingTxs ∧
      ∀ queued ∈ c.state.pendingTransactions, queued.id ≠ i.id
  gossip : ∀ k i e tx rest, event = .run k i →
    c.handlers[k]? = some (.admitGossip e tx :: rest) →
    (do
      let nextHeight ← c.state.chain.nextIndex
      c.state.chain.state.admits cfg.node c.state.pendingTransactions nextHeight tx) = ok () →
    c.state.pendingTransactions.length < maxPendingTxs ∧
      ∀ queued ∈ c.state.pendingTransactions, queued.id ≠ tx.id

/-- The pool and the one on disk are sound. -/
structure SoundPools (s : AppState) : Prop where
  pool : SoundPool s.pendingTransactions
  disk : ∀ snapshot, s.disk = some snapshot → SoundPool snapshot.pendingTransactions

theorem SoundPools.after {k : ℕ} {rest : List ServerAction} {turn : ServerTurn}
    (h : SoundPools c.state) (hallowed : RoomForAll cfg c (.run k i))
    (htop : c.handlers[k]? = some (a :: rest)) (hrun : cfg.run i c.state a = some turn) :
    SoundPools turn.state := by
  have heffect := run_effect hrun
  generalize turn.state = after at heffect
  cases heffect with
  | certified id issuedTo =>
    obtain ⟨hroom, hnew⟩ := hallowed.certificate k i id issuedTo rest rfl htop
    exact ⟨h.pool.concat hroom hnew, h.disk⟩
  | gossiped e tx hadmits =>
    obtain ⟨hroom, hnew⟩ := hallowed.gossip k i e tx rest rfl htop hadmits
    exact ⟨h.pool.concat hroom hnew, h.disk⟩
  | admitted tx hroom hnew => exact ⟨h.pool.concat hroom hnew, h.disk⟩
  | pruned accepted => exact ⟨h.pool.sublist List.filter_sublist, h.disk⟩
  | saved => exact ⟨h.pool, fun snapshot hsnapshot => Option.some.inj hsnapshot ▸ h.pool⟩
  | mined key plan built block depth chain pending hfinish =>
    obtain ⟨_, -, -, -, -, rfl⟩ := Blockchain.finishMine_eq_ok hfinish
    exact ⟨h.pool.sublist List.filter_sublist, h.disk⟩
  | _ => exact ⟨h.pool, h.disk⟩

/-- The pool stays bounded and duplicate free in every run in which certificates and gossiped
transactions come in only with room and a new id. -/
theorem pool_sound_of_room (hstarts : cfg.Starts start)
    (hstart : SoundPool start.state.pendingTransactions)
    (h : cfg.Runs (RoomForAll cfg) start c) :
    SoundPool c.state.pendingTransactions := by
  suffices hpools : SoundPools c.state from hpools.pool
  refine System.Reaches.invariant h (P := fun c => SoundPools c.state) ⟨hstart, fun snapshot hsnapshot => ?_⟩ ?_
  · obtain ⟨disk, state, hboot, rfl⟩ := hstarts
    obtain ⟨_, _, -, -, rfl⟩ := boot_eq_some hboot
    subst hsnapshot
    exact hstart
  · intro c c' event _ ih hallowed hstep
    rcases System.step_cases hstep with ⟨actions, rfl, rfl⟩ |
      ⟨k, i, a, rest, turn, rfl, htop, hrun, rfl⟩ | ⟨state, rfl, hboot, rfl⟩
    · exact ih
    · exact ih.after hallowed.2 htop hrun
    · obtain ⟨_, _, -, -, rfl⟩ := boot_eq_some hboot
      refine ⟨?_, ih.disk⟩
      cases hdisk : c.state.disk with
      | none => exact .nil
      | some snapshot => exact ih.disk snapshot hdisk

end Settings

/-! ## A gossiped transaction -/

namespace Settings

variable {cfg : Settings} {Allowed : ServerConfig → ServerEvent → Prop} {start c : ServerConfig}
  {i : Surroundings}

/-- A gossiped transaction that verifies is taken, unless one is queued under its id. -/
theorem run_take {s : AppState} {e : P2PEnvelope} {tx : Transaction}
    (hpayload : e.payload = .transaction tx)
    (hnew : ∀ queued ∈ s.pendingTransactions, queued.id ≠ tx.id)
    (hverify : tx.verifyForBlock cfg.node "__queue__" = ok ())
    (hkind : tx.transactionType ≠ .reward) :
    cfg.run i s (.payload e) = some ⟨s, [.admitGossip e tx], [], []⟩ := by
  have hany : (s.pendingTransactions.any fun queued => queued.id = tx.id) = false := by
    rw [List.any_eq_false]
    exact fun queued hqueued => by simpa using hnew queued hqueued
  rw [run, runPayload, hpayload]
  simp only [hany, hverify, settle, hkind, ne_eq, not_false_eq_true, if_true]
  rfl

/-- A gossiped transaction that applies on top of the pool is queued. -/
theorem run_admitGossip {s : AppState} {e : P2PEnvelope} {tx : Transaction} {nextHeight : UInt64}
    (hnext : s.chain.nextIndex = (ok nextHeight : Outcome String UInt64))
    (hadmits : s.chain.state.admits cfg.node s.pendingTransactions nextHeight tx = ok ()) :
    cfg.run i s (.admitGossip e tx) =
      some ⟨{ s with pendingTransactions := s.pendingTransactions ++ [tx] },
        [.rewardPeer e, .persistState, .answer (.envelope e) (.success "Transaction queued")],
        [], []⟩ := by
  rw [run, runAdmitGossip]
  simp only [hnext, ok_bind, hadmits]
  rfl

/-- What is done for a gossiped transaction that is queued. -/
def gossipSteps (e : P2PEnvelope) (tx : Transaction) : List ServerAction :=
  [.begin (.message true e), .gate e, .replay e, .payload e, .admitGossip e tx, .rewardPeer e,
    .persistState, .answer (.envelope e) (.success "Transaction queued")]

/-- A gossiped transaction that applies on top of the pool is queued, at one go. -/
theorem Runs.gossip {e : P2PEnvelope} {tx : Transaction} {nextHeight : UInt64}
    (h : cfg.Runs Allowed start c) (hpayload : e.payload = .transaction tx)
    (hvalid : e.validateWithIdentity cfg.node maxEnvelopeSkew cfg.requireIdentity i.now.time = ok ())
    (haccepted : c.state.peerBook.isAccepted e.nodeId i.now.time = true)
    (hunseen : e.messageId ∉ c.state.seenMessages.seen)
    (hnew : ∀ queued ∈ c.state.pendingTransactions, queued.id ≠ tx.id)
    (hverify : tx.verifyForBlock cfg.node "__queue__" = ok ()) (hkind : tx.transactionType ≠ .reward)
    (hnext : c.state.chain.nextIndex = (ok nextHeight : Outcome String UInt64))
    (hadmits : c.state.chain.state.admits cfg.node c.state.pendingTransactions nextHeight tx = ok ())
    (hstored : i.stored = false)
    (harrive : Allowed c (.arrive [.begin (.message true e)]))
    (hallowed : ∀ (c' : ServerConfig) (a : ServerAction) (rest : List ServerAction), a ∈ gossipSteps e tx →
      (a = .admitGossip e tx → c'.state.chain = c.state.chain ∧
        c'.state.pendingTransactions = c.state.pendingTransactions) →
      Allowed { c' with handlers := c'.handlers ++ [a :: rest] } (.run c'.handlers.length i)) :
    cfg.Runs Allowed start ⟨{ c.state with
        seenMessages := (c.state.seenMessages.insert e.messageId).2
        pendingTransactions := c.state.pendingTransactions ++ [tx]
        peerBook := c.state.peerBook.recordGood e.nodeId },
      c.handlers ++ [[]],
      c.said ++ [.received e, .answered (.envelope e) (.success "Transaction queued")],
      c.inputs ++ List.replicate 8 i⟩ := by
  have hnode : ¬ blank e.nodeId := (P2PEnvelope.validateWithIdentity_eq_ok.mp hvalid).2.1
  have hreward : ∀ s : AppState, cfg.run i s (.rewardPeer e) =
      some ⟨{ s with peerBook := s.peerBook.recordGood e.nodeId }, [], [], []⟩ := by
    intro s
    rw [run, if_neg hnode]
    rfl
  have hpersist : ∀ s : AppState, cfg.run i s .persistState = some ⟨s, [], [], []⟩ := by
    intro s
    rw [run, hstored]
    rfl
  have hanswer : ∀ s : AppState, cfg.run i s
      (.answer (.envelope e) (.success "Transaction queued")) =
        some ⟨s, [], [], [.answered (.envelope e) (.success "Transaction queued")]⟩ := fun _ => rfl
  have hserved := h.serve harrive (served_cons (run_look hvalid) (hallowed _ _ _ (by simp [gossipSteps]) (by simp))
    (served_cons (run_gate haccepted) (hallowed _ _ _ (by simp [gossipSteps]) (by simp))
      (served_cons (run_replay hunseen) (hallowed _ _ _ (by simp [gossipSteps]) (by simp))
        (served_cons (run_take hpayload hnew hverify hkind) (hallowed _ _ _ (by simp [gossipSteps]) (by simp))
          (served_cons (run_admitGossip hnext hadmits) (hallowed _ _ _ (by simp [gossipSteps]) (by simp))
            (served_cons (hreward _) (hallowed _ _ _ (by simp [gossipSteps]) (by simp))
              (served_cons (hpersist _) (hallowed _ _ _ (by simp [gossipSteps]) (by simp))
                (served_cons (hanswer _) (hallowed _ _ _ (by simp [gossipSteps]) (by simp))
                  (.nil _)))))))))
  simpa using hserved

end Settings

/-! ## Anchors -/

/-- A certificate without sender and credential, for a network. -/
structure Transaction.Anchor (chainId : String) (tx : Transaction) : Prop where
  kind : tx.transactionType = .certificate
  amount : tx.amount = 0
  sender : tx.sender = none
  credential : tx.credential = none
  chainId : tx.chainId = chainId

namespace Transaction.Anchor

variable {E : Node} {tx : Transaction} {s : ChainState} {pending : List Transaction}
  {height : UInt64}

theorem verifyForBlock {E : Env} {chainId validator : String} (h : tx.Anchor chainId) :
    tx.verifyForBlock E validator = ok () := by
  unfold Transaction.verifyForBlock
  simp only [h.kind, h.amount, h.credential, ensure_pos, ok_bind]
  rfl

/-- An anchor applies and changes nothing. -/
theorem applyVerified (h : tx.Anchor s.chainId) :
    ChainState.applyVerified E tx height s = ok ((), s) := by
  have hscope : s.verifyChainScope tx = ok () := by
    rw [ChainState.verifyChainScope, h.kind, h.chainId, ensure_pos rfl]
    split <;> rfl
  have hpolicy : s.verifySignaturePolicy tx = ok () := by
    rw [ChainState.verifySignaturePolicy, h.sender]
    split_ifs <;> rfl
  have hbranch : ChainState.applyBranch E tx height = pure () := by
    rw [ChainState.applyBranch, h.kind]
    show ChainState.applyCertificate tx = pure ()
    rw [ChainState.applyCertificate, h.credential]
  simp only [ChainState.applyVerified, Exec.bind_eq_ok, Exec.read_eq_ok, hbranch]
  exact ⟨(), s, ⟨hscope, rfl⟩, (), s, ⟨hpolicy, rfl⟩, rfl⟩

theorem projectPendingState (h : ∀ queued ∈ pending, queued.Anchor s.chainId) :
    ChainState.projectPendingState E height s pending = ok s := by
  induction pending with
  | nil => rfl
  | cons queued rest ih =>
    rw [ChainState.projectPendingState, (h queued List.mem_cons_self).applyVerified]
    exact ih fun queued' hqueued => h queued' (List.mem_cons_of_mem _ hqueued)

/-- An anchor is admitted on top of anchors. -/
theorem admits (h : tx.Anchor s.chainId) (hpending : ∀ queued ∈ pending, queued.Anchor s.chainId) :
    s.admits E pending height tx = ok () := by
  rw [ChainState.admits, projectPendingState hpending, ok_bind, Exec.finalState, h.applyVerified]
  rfl

end Transaction.Anchor

/-! ## A flood of anchors -/

namespace PeerBook

/-- A node without a ban is accepted when the list of permitted nodes is empty. -/
theorem isAccepted_of_unbanned {book : PeerBook} {n : String} {now : DateTime}
    (hlist : book.allowList = ∅) (h : (book.entry n).bannedUntil = 0) :
    book.isAccepted n now = true := by
  unfold isAccepted
  unfold entry at h
  rw [if_neg (by rw [hlist]; simp)]
  cases hrecord : book.peers[n]? with
  | none => rfl
  | some record =>
    rw [hrecord] at h
    have hzero : record.bannedUntil = 0 := h
    simp [hzero]

end PeerBook

namespace Sample

/-- An anchor with the `n`-th id of a flood. -/
def note (n : ℕ) : Transaction :=
  { Transaction.newCertificate (floodId n) morning "" with chainId := defaultChainId }

theorem note_anchor (n : ℕ) : (note n).Anchor defaultChainId := ⟨rfl, rfl, rfl, rfl, rfl⟩

/-- The envelope that carries it. -/
def noteEnvelope (n : ℕ) : P2PEnvelope := .new "" (floodId n) morning (.transaction (note n))

/-- Holder 8 has gossiped `n` anchors, and all are in the pool. -/
structure Anchored (Allowed : ServerConfig → ServerEvent → Prop) (n : ℕ) (c : ServerConfig) :
    Prop where
  runs : (settings []).Runs Allowed (firstConfig []) c
  chain : c.state.chain = root [] 1000000000000000000
  pool : c.state.pendingTransactions = (List.range n).map note
  seen : ∀ m ∈ c.state.seenMessages.seen, ∃ k < n, m = floodId k
  allowList : c.state.peerBook.allowList = ∅
  unbanned : (c.state.peerBook.entry (address 8)).bannedUntil = 0

theorem Anchored.new {Allowed : ServerConfig → ServerEvent → Prop} {n : ℕ} {c : ServerConfig}
    (h : Anchored Allowed n c) : ∀ queued ∈ c.state.pendingTransactions, queued.id ≠ (note n).id := by
  rw [h.pool]
  intro queued hqueued hid
  obtain ⟨k, hk, rfl⟩ := List.mem_map.mp hqueued
  exact absurd (floodId_injective hid) (List.mem_range.mp hk).ne

/-- One more is queued, where its steps are allowed. -/
theorem Anchored.next {Allowed : ServerConfig → ServerEvent → Prop} {n : ℕ} {c : ServerConfig}
    (h : Anchored Allowed n c)
    (harrive : ∀ request, Allowed c (.arrive [.begin request]))
    (hallowed : ∀ (c' : ServerConfig) (a : ServerAction) (rest : List ServerAction),
      a ∈ Settings.gossipSteps (sealEnvelope [] 8 (noteEnvelope n)) (note n) →
      (a = .admitGossip (sealEnvelope [] 8 (noteEnvelope n)) (note n) →
        c'.state.chain = c.state.chain ∧
          c'.state.pendingTransactions = c.state.pendingTransactions) →
      Allowed { c' with handlers := c'.handlers ++ [a :: rest] }
        (.run c'.handlers.length quietMorning)) :
    ∃ c', Anchored Allowed (n + 1) c' := by
  have hchainId : c.state.chain.state.chainId = defaultChainId := by rw [h.chain]; rfl
  have hunseen : floodId n ∉ c.state.seenMessages.seen := by
    intro hmem
    obtain ⟨k, hk, heq⟩ := h.seen _ hmem
    exact absurd (floodId_injective heq) hk.ne'
  have hpool : ∀ queued ∈ c.state.pendingTransactions, ∃ k < n, queued = note k := by
    rw [h.pool]
    intro queued hqueued
    obtain ⟨k, hk, rfl⟩ := List.mem_map.mp hqueued
    exact ⟨k, List.mem_range.mp hk, rfl⟩
  have hadmits : c.state.chain.state.admits (node []) c.state.pendingTransactions 1 (note n) =
      ok () := by
    refine Transaction.Anchor.admits (hchainId ▸ note_anchor n) fun queued hqueued => ?_
    obtain ⟨k, -, rfl⟩ := hpool queued hqueued
    exact hchainId ▸ note_anchor k
  have hkind : (note n).transactionType ≠ .reward := by
    rw [(note_anchor n).kind]
    decide
  have hnext : (c.state.chain.nextIndex : Outcome String UInt64) = ok 1 := by
    rw [h.chain]
    rfl
  have hruns := h.runs.gossip (i := quietMorning) (e := sealEnvelope [] 8 (noteEnvelope n))
    rfl (validate_sealEnvelope [] 8 (e := noteEnvelope n) rfl (floodId_written n) rfl)
    (PeerBook.isAccepted_of_unbanned h.allowList h.unbanned) hunseen h.new
    (note_anchor n).verifyForBlock hkind hnext hadmits rfl (harrive _) hallowed
  refine ⟨_, hruns, h.chain, ?_, fun m hm => ?_, h.allowList, ?_⟩
  · show c.state.pendingTransactions ++ [note n] = _
    rw [h.pool, List.range_succ, List.map_append, List.map_singleton]
  · rcases SeenMessageCache.mem_of_mem_insert hm with rfl | hm
    · exact ⟨n, Nat.lt_succ_self n, rfl⟩
    · obtain ⟨k, hk, rfl⟩ := h.seen m hm
      exact ⟨k, hk.trans (Nat.lt_succ_self n), rfl⟩
  · show ((c.state.peerBook.recordGood (address 8)).entry (address 8)).bannedUntil = 0
    rw [PeerBook.entry_recordGood, if_pos rfl, PeerRecord.praised_bannedUntil]
    exact h.unbanned

theorem anchored_zero (Allowed : ServerConfig → ServerEvent → Prop) :
    Anchored Allowed 0 (firstConfig []) := by
  refine ⟨runs_firstConfig, rfl, rfl, fun m hm => absurd hm (Finset.notMem_empty m), rfl, ?_⟩
  show ((PeerBook.withAllowList ∅).entry (address 8)).bannedUntil = 0
  rw [PeerBook.entry_withAllowList]
  rfl

theorem exists_anchored (n : ℕ) : ∃ c, Anchored Settings.Unrestricted n c := by
  induction n with
  | zero => exact ⟨firstConfig [], anchored_zero _⟩
  | succ n ih =>
    obtain ⟨c, hc⟩ := ih
    exact hc.next (fun _ => trivial) fun _ _ _ _ _ => trivial

end Sample

namespace Settings

/-- A gossiped anchor is in the pool, and the pool is sound. -/
theorem pool_sound_sample : ∃ c : ServerConfig, c.state.pendingTransactions = [Sample.note 0] ∧
    SoundPool c.state.pendingTransactions := by
  have hfirst : Sample.Anchored (RoomForAll (Sample.settings [])) 0 (Sample.firstConfig []) :=
    Sample.anchored_zero _
  have harrive : ∀ request, RoomForAll (Sample.settings []) (Sample.firstConfig [])
      (.arrive [.begin request]) := fun request =>
    ⟨fun _ _ _ _ _ hevent => (by cases hevent), fun _ _ _ _ _ hevent => (by cases hevent)⟩
  have hnext := hfirst.next harrive fun c' a rest ha hpool => ?_
  · obtain ⟨c, hc⟩ := hnext
    exact ⟨c, hc.pool, pool_sound_of_room (Sample.starts_firstConfig []) .nil hc.runs⟩
  · constructor
    · intro k i id issuedTo rest' hevent htop
      cases hevent
      rw [List.getElem?_concat_length, Option.some.injEq, List.cons.injEq] at htop
      rw [htop.1] at ha
      simp [gossipSteps] at ha
    · intro k i e tx rest' hevent htop _
      cases hevent
      rw [List.getElem?_concat_length, Option.some.injEq, List.cons.injEq] at htop
      rw [htop.1] at ha hpool
      simp only [gossipSteps, List.mem_cons, ServerAction.admitGossip.injEq, List.not_mem_nil, or_false,
        reduceCtorEq, false_or] at ha
      obtain ⟨rfl, rfl⟩ := ha
      have hempty : c'.state.pendingTransactions = [] := (hpool rfl).2
      show c'.state.pendingTransactions.length < maxPendingTxs ∧ _
      rw [hempty]
      exact ⟨by decide, fun queued hqueued => absurd hqueued List.not_mem_nil⟩

/-- A peer that gossips 1001 anchors overruns the pool of a node that has just come up. -/
theorem pool_overrun : ∃ c : ServerConfig,
    (Sample.settings []).Starts (Sample.firstConfig []) ∧
    (Sample.firstConfig []).state.pendingTransactions = [] ∧
    (Sample.settings []).Runs Unrestricted (Sample.firstConfig []) c ∧
    ¬ SoundPool c.state.pendingTransactions := by
  obtain ⟨c, hc⟩ := Sample.exists_anchored 1001
  refine ⟨c, Sample.starts_firstConfig [], rfl, hc.runs, fun hsound => ?_⟩
  have hbounded := hsound.bounded
  rw [hc.pool, List.length_map, List.length_range] at hbounded
  exact absurd hbounded (by decide)

end Settings
