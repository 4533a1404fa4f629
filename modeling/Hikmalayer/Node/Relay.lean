/-
# Relayed transactions

What a node gossips it has admitted to its own pool, so that it stands on its own wherever it
arrives.  Whether it applies there is another matter: the receiver charges the sender for what
comes late, or does not apply on top of the receiver's pool and tip, and only for that.
-/
import Mathlib.Tactic
import Hikmalayer.Node.Inclusion

open Outcome

/-! ## The sender -/

/-- A transaction that verifies and is no reward. -/
structure Transaction.Sendable (E : Env) (tx : Transaction) : Prop where
  verified : tx.verifyForBlock E "__queue__" = ok ()
  kind : tx.transactionType ≠ .reward

namespace Settings

variable {cfg sender receiver : Settings} {Allowed : ServerConfig → ServerEvent → Prop}
  {c : ServerConfig} {i : Surroundings} {e : P2PEnvelope} {tx : Transaction} {p : P2PPayload}

/-- What goes out: an unsigned envelope, a signed one, or a greeting where signing fails. -/
theorem finalize_cases (cfg : Settings) (i : Surroundings) (p : P2PPayload) :
    (cfg.nodeKey = none ∧ cfg.finalize i p = .new cfg.nodeId i.id i.now.time p) ∨
    (∃ key, cfg.nodeKey = some key ∧
      (P2PEnvelope.new cfg.nodeId i.id i.now.time p).signed cfg.node key = ok (cfg.finalize i p)) ∨
    cfg.finalize i p = .new cfg.nodeId i.id i.now.time .ping := by
  unfold finalize
  cases cfg.nodeKey with
  | none => exact Or.inl ⟨rfl, rfl⟩
  | some key =>
    dsimp only
    cases hsigned : (P2PEnvelope.new cfg.nodeId i.id i.now.time p).signed cfg.node key with
    | ok sealed => exact Or.inr (Or.inl ⟨key, rfl, hsigned⟩)
    | err _ => exact Or.inr (Or.inr rfl)
    | panicked => exact Or.inr (Or.inr rfl)

/-- What is sent carries the payload, or greets. -/
theorem finalize_payload : (sender.finalize i p).payload = p ∨
    (sender.finalize i p).payload = .ping := by
  rcases sender.finalize_cases i p with ⟨-, heq⟩ | ⟨key, -, hsigned⟩ | heq
  · exact Or.inl (by rw [heq]; rfl)
  · obtain ⟨_, _, _, -, -, -, heq⟩ := P2PEnvelope.signed_eq_ok.mp hsigned
    exact Or.inl (by rw [heq]; rfl)
  · exact Or.inr (by rw [heq]; rfl)

/-- The sender signs for a receiver that asks for identities, with a key that works. -/
structure Identified (sender receiver : Settings) : Prop where
  network : sender.node.toEnv = receiver.node.toEnv
  signs : receiver.requireIdentity = true → sender.nodeKey ≠ none
  sound : ∀ key, sender.nodeKey = some key → key.Sound receiver.node

/-- What an identified sender sends is valid at the receiver while it is fresh. -/
theorem Identified.valid (h : Identified sender receiver) {now : DateTime} (hp : p ≠ .ping)
    (hpayload : (sender.finalize i p).payload = p) (hnode : ¬ blank (sender.finalize i p).nodeId)
    (hfresh : (sender.finalize i p).Fresh maxEnvelopeSkew now) :
    (sender.finalize i p).validateWithIdentity receiver.node maxEnvelopeSkew
      receiver.requireIdentity now = ok () := by
  have hid : ¬ blank i.id := by
    rw [i.id_written]
    simp
  rcases sender.finalize_cases i p with ⟨hkey, heq⟩ | ⟨key, hkey, hsigned⟩ | heq
  · rw [heq] at hnode hfresh ⊢
    refine P2PEnvelope.validateWithIdentity_eq_ok.mpr ⟨rfl, hnode, hid, hfresh, fun hidentity => ?_⟩
    rcases hidentity with hrequired | hsignature
    · exact absurd hkey (h.signs hrequired)
    · exact absurd rfl hsignature
  · rw [h.network] at hsigned
    have hverify := P2PEnvelope.verifyIdentity_signed (h.sound key hkey) hsigned
    obtain ⟨_, _, _, -, -, -, heq⟩ := P2PEnvelope.signed_eq_ok.mp hsigned
    rw [heq] at hnode hfresh hverify ⊢
    exact P2PEnvelope.validateWithIdentity_eq_ok.mpr
      ⟨rfl, hnode, hid, hfresh, fun _ => hverify⟩
  · rw [heq] at hpayload
    exact absurd hpayload.symm hp

/-- The transactions that a node is about to gossip, or has sent, are sendable. -/
structure SendsOwn (cfg : Settings) (c : ServerConfig) : Prop where
  admitted : ∀ tx, System.Pending c (.enqueue tx) → tx.Sendable cfg.node
  gossiped : ∀ tx, System.Pending c (.gossipTransaction tx) → tx.Sendable cfg.node
  sent : ∀ e targets tx, .sent e targets ∈ c.said → e.payload = .transaction tx →
    tx.Sendable cfg.node ∧ ∃ i, e = cfg.finalize i (.transaction tx)

theorem Reachable.sendsOwn (h : cfg.Reachable Allowed c) : SendsOwn cfg c := by
  refine h.invariant (P := SendsOwn cfg) ?_ ?_
  · rintro c ⟨disk, state, -, rfl⟩
    have hnone : ∀ {a : ServerAction}, ¬ System.Pending (⟨state, [], [], []⟩ : ServerConfig) a :=
      fun ⟨_, hactions, _⟩ => absurd hactions List.not_mem_nil
    exact ⟨fun _ h => absurd h hnone, fun _ h => absurd h hnone,
      fun _ _ _ h => absurd h List.not_mem_nil⟩
  · intro c c' event _ ih hrequested _ hstep
    constructor
    · intro tx hpending
      rcases System.pending_step hstep hpending with hpending | ⟨actions, rfl, hmem⟩ |
        ⟨k, i, a, rest, turn, rfl, htop, hrun, hadds⟩
      · exact ih.admitted tx hpending
      · obtain ⟨request, rfl⟩ := hrequested
        simp at hmem
      · cases run_follows hrun hadds with
        | enqueue tx hkind hverify => exact ⟨hverify, hkind⟩
        | sync a b hb => simp at hb
    · intro tx hpending
      rcases System.pending_step hstep hpending with hpending | ⟨actions, rfl, hmem⟩ |
        ⟨k, i, a, rest, turn, rfl, htop, hrun, hadds⟩
      · exact ih.gossiped tx hpending
      · obtain ⟨request, rfl⟩ := hrequested
        simp at hmem
      · cases run_follows hrun hadds with
        | gossipTransaction tx hadmits => exact ih.admitted tx (System.pending_top htop)
        | sync a b hb => simp at hb
    · intro e targets tx hsent hpayload
      rcases System.mem_said_step hstep hsent with hsent | ⟨k, i, a, rest, turn, -, htop, hrun, ho⟩
      · exact ih.sent e targets tx hsent hpayload
      · cases run_words hrun ho with
        | transaction tx' =>
          rcases (finalize_payload : (cfg.finalize i (.transaction tx')).payload = _ ∨ _) with hp | hp
          · rw [hp] at hpayload
            cases hpayload
            exact ⟨ih.gossiped tx (System.pending_top htop), i, rfl⟩
          · rw [hp] at hpayload
            cases hpayload
        | block block =>
          rcases (finalize_payload : (cfg.finalize i (.block block)).payload = _ ∨ _) with hp | hp
          · rw [hp] at hpayload
            cases hpayload
          · rw [hp] at hpayload
            cases hpayload

/-- A transaction that the sender has gossiped in some run. -/
def Relayed (sender : Settings) (e : P2PEnvelope) : Prop :=
  ∃ c targets tx, sender.Reachable Unrestricted c ∧ .sent e targets ∈ c.said ∧
    e.payload = .transaction tx

/-! ## The receiver -/

/-- What the sender has gossiped is fresh when it is looked at, and applies when it is admitted. -/
structure Timely (receiver sender : Settings) (c : ServerConfig) (event : ServerEvent) : Prop where
  fresh : ∀ k i e rest, event = .run k i →
    c.handlers[k]? = some (.begin (.message true e) :: rest) → sender.Relayed e →
    e.Fresh maxEnvelopeSkew i.now.time
  applies : ∀ k i e tx rest, event = .run k i →
    c.handlers[k]? = some (.admitGossip e tx :: rest) → sender.Relayed e →
    (do
      let nextHeight ← c.state.chain.nextIndex
      c.state.chain.state.admits receiver.node c.state.pendingTransactions nextHeight tx) = ok ()

/-- The receiver has not charged anything that the sender has gossiped, and bans nobody who is
charged for nothing else. -/
structure SparesRelay (sender : Settings) (c : ServerConfig) : Prop where
  penalties : ∀ e, sender.Relayed e → .penalized e ∉ c.said
  unbanned : ∀ n, (∀ e, .penalized e ∈ c.said → e.nodeId = n → sender.Relayed e) →
    (c.state.peerBook.entry n).bannedUntil = 0

/-- No penalty for the envelope is under way. -/
structure Spared (e : P2PEnvelope) (c : ServerConfig) : Prop where
  penalty : ¬ System.Pending c (.penalizePeer e)
  block : ∀ block depth, ¬ System.Pending c (.acceptPeerBlock (.envelope e) block depth)
  said : .penalized e ∉ c.said

theorem Spared.next {c' : ServerConfig} {event : ServerEvent}
    (h : Spared e c) (hidentified : Identified sender receiver) (he : sender.Relayed e)
    (hnode : ¬ blank e.nodeId) (hrequested : Requested event)
    (hallowed : Timely receiver sender c event) (hstep : receiver.server.step c event = some c') :
    Spared e c' := by
  obtain ⟨c₀, targets, tx, hsender, hsent, hpayload⟩ := id he
  obtain ⟨hsendable, i₀, hfinal⟩ := hsender.sendsOwn.sent e targets tx hsent hpayload
  constructor
  · intro hpending
    rcases System.pending_step hstep hpending with hpending | ⟨actions, rfl, hmem⟩ |
      ⟨k, i, a, rest, turn, rfl, htop, hrun, hadds⟩
    · exact h.penalty hpending
    · obtain ⟨request, rfl⟩ := hrequested
      simp at hmem
    · cases run_follows hrun hadds with
      | refused e message hrefused =>
        have hfresh := hallowed.fresh k i e rest rfl htop he
        subst hfinal
        rw [hidentified.valid (by simp) hpayload hnode hfresh] at hrefused
        cases hrefused
      | invalid e tx' hpayload' hinvalid =>
        cases hpayload.symm.trans hpayload'
        rw [← hidentified.network] at hinvalid
        rcases hinvalid with hinvalid | hreward
        · exact hinvalid hsendable.verified
        · exact hsendable.kind hreward
      | inapplicable e tx' message hrefused =>
        rw [hallowed.applies k i e tx' rest rfl htop he] at hrefused
        cases hrefused
      | blamed e block depth message hrefused hblame =>
        exact h.block block depth (System.pending_top htop)
      | sync a b hb => simp at hb
  · intro block depth hpending
    rcases System.pending_step hstep hpending with hpending | ⟨actions, rfl, hmem⟩ |
      ⟨k, i, a, rest, turn, rfl, htop, hrun, hadds⟩
    · exact h.block block depth hpending
    · obtain ⟨request, rfl⟩ := hrequested
      simp at hmem
    · cases run_follows hrun hadds with
      | accept a source block depth hsource =>
        cases hpayload.symm.trans (hsource e rfl).2
      | sync a b hb => simp at hb
  · intro hsaid
    rcases System.mem_said_step hstep hsaid with hsaid | ⟨k, i, a, rest, turn, -, htop, hrun, ho⟩
    · exact h.said hsaid
    · cases run_words hrun ho with
      | penalized e hnode => exact h.penalty (System.pending_top htop)

/-- Only a node that names itself is charged. -/
theorem Reachable.penalized_named (h : cfg.Reachable Allowed c) :
    ∀ e, .penalized e ∈ c.said → ¬ blank e.nodeId := by
  refine h.invariant (P := fun c => ∀ e, .penalized e ∈ c.said → ¬ blank e.nodeId) ?_ ?_
  · rintro c ⟨disk, state, -, rfl⟩ e hsaid
    exact absurd hsaid List.not_mem_nil
  · intro c c' event _ ih _ _ hstep e hsaid
    rcases System.mem_said_step hstep hsaid with hsaid | ⟨k, i, a, rest, turn, -, -, hrun, ho⟩
    · exact ih e hsaid
    · cases run_words hrun ho with
      | penalized e hnode => exact hnode

/-- Honest relaying is not punished in a run in which what is relayed comes in time and applies. -/
theorem relay_spared_of_timely (hidentified : Identified sender receiver)
    (h : receiver.Reachable (Timely receiver sender) c) : SparesRelay sender c := by
  have hpenalties : ∀ e, sender.Relayed e → .penalized e ∉ c.said := by
    intro e he hsaid
    refine (h.invariant (P := Spared e) ?_ ?_).said hsaid
    · rintro c ⟨disk, state, -, rfl⟩
      have hnone : ∀ {a : ServerAction}, ¬ System.Pending (⟨state, [], [], []⟩ : ServerConfig) a :=
        fun ⟨_, hactions, _⟩ => absurd hactions List.not_mem_nil
      exact ⟨hnone, fun _ _ => hnone, List.not_mem_nil⟩
    · exact fun c c' event _ ih hrequested hallowed hstep =>
        ih.next hidentified he (h.penalized_named e hsaid) hrequested hallowed hstep
  refine ⟨hpenalties, fun n hn => (h.counted.unharmed ?_).2⟩
  rw [List.countP_eq_zero]
  intro o ho hcharged
  cases o with
  | penalized e =>
    have hnode : e.nodeId = n := of_decide_eq_true hcharged
    exact hpenalties e (hn e ho hnode) ho
  | _ => cases hcharged

end Settings

/-! ## A submitted transaction -/

namespace Settings

variable {cfg : Settings} {start c : ServerConfig} {i : Surroundings} {tx : Transaction}

/-- A submitted transaction that applies on top of the pool is queued and gossiped, at one go. -/
theorem Runs.submitted (h : cfg.Runs Unrestricted start c) (hkind : tx.transactionType ≠ .reward)
    (hchainId : c.state.chain.state.chainId = tx.chainId)
    (hverify : tx.verifyForBlock cfg.node "__queue__" = ok ())
    (hroom : c.state.pendingTransactions.length < maxPendingTxs)
    (hnew : ∀ queued ∈ c.state.pendingTransactions, queued.id ≠ tx.id)
    (hadmits : c.state.chain.state.admits cfg.node c.state.pendingTransactions
      (UInt64.ofNat c.state.chain.blocks.length) tx = ok ())
    (hstored : i.stored = false) (hpeers : c.state.peers ≠ []) :
    cfg.Runs Unrestricted start ⟨{ c.state with
        pendingTransactions := c.state.pendingTransactions ++ [tx] },
      c.handlers ++ [[]],
      c.said ++ [.submitted tx .queued, .sent (cfg.finalize i (.transaction tx)) c.state.peers],
      c.inputs ++ [i, i, i, i]⟩ := by
  have hbegin : cfg.run i c.state (.begin (.queueTransaction tx)) =
      some ⟨c.state, [.enqueue tx], [], []⟩ := by
    have hstamped : { tx with chainId := c.state.chain.state.chainId } = tx := by rw [hchainId]
    rw [run, runBegin, if_neg hkind]
    simp only [hstamped, hverify]
    rfl
  have hadm : cfg.run i c.state (.enqueue tx) = some ⟨{ c.state with
      pendingTransactions := c.state.pendingTransactions ++ [tx] },
      [.persistState, .gossipTransaction tx], [], [.submitted tx .queued]⟩ := by
    have hany : ¬ (c.state.pendingTransactions.any fun queued => queued.id = tx.id) = true := by
      rw [List.any_eq_true]
      rintro ⟨queued, hqueued, hid⟩
      exact hnew queued hqueued (of_decide_eq_true hid)
    rw [run, runEnqueue, if_neg (not_le.mpr hroom), if_neg hany, hadmits]
    rfl
  have hpersist : ∀ s : AppState, cfg.run i s .persistState = some ⟨s, [], [], []⟩ := by
    intro s
    rw [run, hstored]
    rfl
  have hgossip : ∀ s : AppState, s.peers ≠ [] → cfg.run i s (.gossipTransaction tx) =
      some ⟨s, [], [], [.sent (cfg.finalize i (.transaction tx)) s.peers]⟩ := by
    intro s hs
    rw [run, if_neg hs]
    rfl
  have hserved := h.serve trivial (served_cons hbegin trivial (served_cons hadm trivial
    (served_cons (hpersist _) trivial (served_cons (hgossip _ hpeers) trivial (.nil _)))))
  simpa using hserved

/-- A gossiped transaction that does not apply on top of the pool is charged, at one go. -/
theorem Runs.inapplicable {e : P2PEnvelope} {nextHeight : UInt64} {message : String}
    (h : cfg.Runs Unrestricted start c) (hpayload : e.payload = .transaction tx)
    (hvalid : e.validateWithIdentity cfg.node maxEnvelopeSkew cfg.requireIdentity i.now.time = ok ())
    (haccepted : c.state.peerBook.isAccepted e.nodeId i.now.time = true)
    (hunseen : e.messageId ∉ c.state.seenMessages.seen)
    (hnew : ∀ queued ∈ c.state.pendingTransactions, queued.id ≠ tx.id)
    (hverify : tx.verifyForBlock cfg.node "__queue__" = ok ()) (hkind : tx.transactionType ≠ .reward)
    (hnext : c.state.chain.nextIndex = (ok nextHeight : Outcome String UInt64))
    (hrefused : c.state.chain.state.admits cfg.node c.state.pendingTransactions nextHeight tx =
      err message) :
    cfg.Runs Unrestricted start ⟨{ c.state with
        seenMessages := (c.state.seenMessages.insert e.messageId).2
        peerBook := (c.state.peerBook.recordBad e.nodeId i.now.time).2 },
      c.handlers ++ [[]],
      c.said ++ [.received e, .penalized e, .answered (.envelope e)
        (.error "Gossiped transaction not applicable")],
      c.inputs ++ List.replicate 7 i⟩ := by
  have hnode : ¬ blank e.nodeId := (P2PEnvelope.validateWithIdentity_eq_ok.mp hvalid).2.1
  have hadm : ∀ cache : SeenMessageCache,
      cfg.run i { c.state with seenMessages := cache } (.admitGossip e tx) =
        some ⟨{ c.state with seenMessages := cache }, [.penalizePeer e, .answer (.envelope e)
          (.error "Gossiped transaction not applicable")], [], []⟩ := by
    intro cache
    rw [run, runAdmitGossip]
    simp only [hnext, ok_bind, hrefused]
    rfl
  have hanswer : ∀ s : AppState, cfg.run i s
      (.answer (.envelope e) (.error "Gossiped transaction not applicable")) =
        some ⟨s, [], [], [.answered (.envelope e)
          (.error "Gossiped transaction not applicable")]⟩ := fun _ => rfl
  have hserved := h.serve trivial (served_cons (run_look hvalid) trivial
    (served_cons (run_gate haccepted) trivial
      (served_cons (run_replay (i := i) hunseen) trivial
        (served_cons (run_take (i := i) hpayload hnew hverify hkind) trivial
          (served_cons (hadm _) trivial
            (served_cons (run_penalizePeer (i := i) hnode) trivial
              (served_cons (hanswer _) trivial (.nil _))))))))
  simpa using hserved

end Settings

/-! ## Out of order -/

namespace Sample

/-- Holder 8 runs a node with its key, and knows a peer. -/
def sender : Settings :=
  { settings [] with
    nodeKey := some (nodeKey 8)
    bootnodes := ["receiver"] }

def senderState : AppState := { firstState [] with peers := ["receiver"] }

theorem boot_sender : sender.boot none = some senderState :=
  Settings.boot_none (Blockchain.derived_genesis newWithGenesisOnChain_root) (applyFinality_root [])

theorem sender_identified : Settings.Identified sender (settings []) where
  network := rfl
  signs _ := by simp [sender]
  sound key hkey := by
    cases hkey
    exact nodeKey_sound [] 8

/-- A quiet morning with the `n`-th id of a flood. -/
def morningWith (n : ℕ) : Surroundings :=
  { quietMorning with
    id := floodId n
    id_written := Bool.eq_false_iff.mpr (floodId_written n) }

/-- The envelope in which the sender gossips a transaction. -/
def relayEnvelope (n : ℕ) (tx : Transaction) : P2PEnvelope :=
  sealEnvelope [] 8 (.new "node" (floodId n) morning (.transaction tx))

theorem finalize_sender (n : ℕ) (tx : Transaction) :
    sender.finalize (morningWith n) (.transaction tx) = relayEnvelope n tx := by
  have hkey : sender.nodeKey = some (nodeKey 8) := rfl
  have hsigned : (P2PEnvelope.new sender.nodeId (morningWith n).id (morningWith n).now.time
      (.transaction tx)).signed sender.node (nodeKey 8) = ok (relayEnvelope n tx) :=
    signed_nodeKey [] 8 (.new "node" (floodId n) morning (.transaction tx))
  unfold Settings.finalize
  simp only [hkey, hsigned]

/-- The sender has gossiped two transactions of holder 7, the second with the second nonce. -/
theorem both_relayed : sender.Relayed (relayEnvelope 1 payment) ∧
    sender.Relayed (relayEnvelope 2 partialExit) := by
  have hstarts : sender.Starts ⟨senderState, [], [], []⟩ := ⟨none, senderState, boot_sender, rfl⟩
  have hpayment : payment.transactionType ≠ .reward := by decide
  have hexit : partialExit.transactionType ≠ .reward := by decide
  have hsecond : ((genesis 1000000000000000000).admits (node []) [payment] 1 partialExit).returns
      (fun _ => true) = true := by decide +kernel
  obtain ⟨_, hsecond, -⟩ := exists_of_returns hsecond
  have hids : ∀ queued ∈ [payment], queued.id ≠ partialExit.id := by
    intro queued hqueued
    rw [List.mem_singleton.mp hqueued]
    decide +kernel
  have hstart : sender.Runs Settings.Unrestricted ⟨senderState, [], [], []⟩
    ⟨senderState, [], [], []⟩ := .start
  have hfirst := hstart.submitted (i := morningWith 1) hpayment rfl payment_verified
    (by decide) (fun queued hqueued => absurd hqueued List.not_mem_nil)
    (payment_admits fun queued hqueued => absurd hqueued List.not_mem_nil) rfl (by simp [senderState])
  have hboth := hfirst.submitted (i := morningWith 2) hexit rfl rfl (by decide) hids hsecond rfl
    (by simp [senderState])
  rw [finalize_sender, finalize_sender] at hboth
  refine ⟨⟨_, ["receiver"], payment, ⟨_, hstarts, hboth⟩, ?_, rfl⟩,
    ⟨_, ["receiver"], partialExit, ⟨_, hstarts, hboth⟩, ?_, rfl⟩⟩
  · simp [senderState]
  · simp [senderState]

theorem accepted_firstConfig : (firstConfig []).state.peerBook.isAccepted (address 8)
    quietMorning.now.time = true := by
  refine PeerBook.isAccepted_of_unbanned rfl ?_
  show ((PeerBook.withAllowList ∅).entry (address 8)).bannedUntil = 0
  rw [PeerBook.entry_withAllowList]
  rfl

theorem validate_relayEnvelope (n : ℕ) (tx : Transaction) :
    (relayEnvelope n tx).validateWithIdentity (env []) maxEnvelopeSkew true morning = ok () :=
  validate_sealEnvelope [] 8 (e := .new "node" (floodId n) morning (.transaction tx)) rfl
    (floodId_written n) rfl

end Sample

namespace Settings

/-- A payment that comes in order is queued, and its sender is spared. -/
theorem relay_spared_sample : ∃ c : ServerConfig,
    Sample.sender.Relayed (Sample.relayEnvelope 1 Sample.payment) ∧
    .received (Sample.relayEnvelope 1 Sample.payment) ∈ c.said ∧
    c.state.pendingTransactions = [Sample.payment] ∧ SparesRelay Sample.sender c := by
  have hadmits : (Sample.genesis 1000000000000000000).admits (Sample.node []) [] 1
      Sample.payment = ok () :=
    Sample.payment_admits fun queued hqueued => absurd hqueued List.not_mem_nil
  have hfirst : (Sample.settings []).Runs (Timely (Sample.settings []) Sample.sender)
      (Sample.firstConfig []) (Sample.firstConfig []) := .start
  have hruns := hfirst.gossip (i := Sample.quietMorning) rfl
    (Sample.validate_relayEnvelope 1 Sample.payment) Sample.accepted_firstConfig
    (Finset.notMem_empty _) (fun queued hqueued => absurd hqueued List.not_mem_nil)
    Sample.payment_verified (by decide) rfl hadmits rfl
    ⟨fun _ _ _ _ hevent => (by cases hevent), fun _ _ _ _ _ hevent => (by cases hevent)⟩
    fun c' a rest ha hstate => ?_
  · exact ⟨_, Sample.both_relayed.1, by simp, rfl, relay_spared_of_timely
      Sample.sender_identified (Sample.reachable_of_runs hruns)⟩
  · constructor
    · intro k i e rest' hevent htop _
      cases hevent
      rw [List.getElem?_concat_length, Option.some.injEq, List.cons.injEq] at htop
      rw [htop.1] at ha
      simp only [gossipSteps, List.mem_cons, ServerAction.begin.injEq, Request.message.injEq, true_and,
        List.not_mem_nil, or_false, reduceCtorEq] at ha
      rw [ha]
      show (Sample.morning.numSecondsSince Sample.morning).natAbs ≤ maxEnvelopeSkew
      decide
    · intro k i e tx rest' hevent htop _
      cases hevent
      rw [List.getElem?_concat_length, Option.some.injEq, List.cons.injEq] at htop
      rw [htop.1] at ha hstate
      simp only [gossipSteps, List.mem_cons, ServerAction.admitGossip.injEq, List.not_mem_nil, or_false,
        reduceCtorEq, false_or] at ha
      obtain ⟨rfl, rfl⟩ := ha
      obtain ⟨hchain, hpool⟩ := hstate rfl
      show (do
        let nextHeight ← c'.state.chain.nextIndex
        c'.state.chain.state.admits (Sample.node []) c'.state.pendingTransactions nextHeight
          Sample.payment) = ok ()
      rw [hchain, hpool]
      exact hadmits

/-- A withdrawal that its sender has admitted on top of a payment is charged to it by a node on the
same chain that the payment has not reached. -/
theorem relay_punished : ∃ c : ServerConfig,
    Identified Sample.sender (Sample.settings []) ∧
    Sample.sender.initialChain = (Sample.settings []).initialChain ∧
    Sample.sender.Relayed (Sample.relayEnvelope 2 Sample.partialExit) ∧
    (Sample.settings []).Reachable Unrestricted c ∧
    ¬ SparesRelay Sample.sender c := by
  have hfirst : (Sample.settings []).Runs Unrestricted (Sample.firstConfig [])
    (Sample.firstConfig []) := .start
  have hrefused : ((Sample.genesis 1000000000000000000).admits (Sample.node []) [] 1
      Sample.partialExit).refuses (fun _ => true) = true := by decide +kernel
  obtain ⟨message, hrefused, -⟩ := exists_of_refuses hrefused
  have hvalid : (Sample.relayEnvelope 2 Sample.partialExit).validateWithIdentity
      (Sample.settings []).node maxEnvelopeSkew (Sample.settings []).requireIdentity
      Sample.quietMorning.now.time = ok () := Sample.validate_relayEnvelope 2 Sample.partialExit
  have hruns := hfirst.inapplicable rfl hvalid Sample.accepted_firstConfig
    (Finset.notMem_empty _) (fun queued hqueued => absurd hqueued List.not_mem_nil) rfl
    (by decide) rfl hrefused
  refine ⟨_, Sample.sender_identified, rfl, Sample.both_relayed.2,
    Sample.reachable_of_runs hruns, fun hspares => ?_⟩
  exact hspares.penalties _ Sample.both_relayed.2 (by simp)

end Settings
