/-
# How a transaction leaves the pool

Pending transactions are told apart by their ids, and an id is whatever the transaction says.  As
long as no other transaction comes in or is accepted under the id of a transaction, it leaves the
pool only when it is in a block or its nonce is used up, and is never taken for queued when it is
not.  A peer that borrows the id keeps it out.
-/
import Mathlib.Tactic
import Hikmalayer.Node.Pool
import Hikmalayer.Ledger.Window

open Outcome ServerTurn

/-- A block carries a transaction: one of its texts is the transaction's, or reads as it. -/
def Block.Includes (E : Env) (block : Block) (tx : Transaction) : Prop :=
  ∃ text ∈ block.transactions, text = E.txJson tx ∨ E.parseTx text = some tx

/-- A transaction is in a block of the chain, or its nonce is used up. -/
def Blockchain.Spent (E : Env) (chain : Blockchain) (tx : Transaction) : Prop :=
  (∃ block ∈ chain.blocks, block.Includes E tx) ∨
    ∃ sender, tx.sender = some sender ∧ 0 < tx.nonce ∧ tx.nonce ≤ chain.state.nonceOf sender

/-- What pruning removes is in an accepted block under its id, or has its nonce used up. -/
theorem ChainState.stillPending_eq_false {state : ChainState} {ids : List String}
    {tx : Transaction} (h : state.stillPending ids tx = false) : tx.id ∈ ids ∨
      ∃ sender, tx.sender = some sender ∧ 0 < tx.nonce ∧ tx.nonce ≤ state.nonceOf sender := by
  unfold stillPending at h
  split at h
  · next hid => exact Or.inl hid
  · split at h
    · next sender hsender =>
      split at h
      · next hnonce =>
        exact Or.inr ⟨sender, hsender, hnonce, UInt64.not_lt.mp (of_decide_eq_false h)⟩
      · cases h
    · cases h

/-- An included id is the id of a transaction that a block reads as. -/
theorem exists_of_mem_includedIds {E : Env} {blocks : List Block} {id : String}
    (h : id ∈ includedIds E blocks) : ∃ block ∈ blocks, ∃ text ∈ block.transactions, ∃ other,
      E.parseTx text = some other ∧ other.id = id := by
  obtain ⟨text, htext, hid⟩ := List.mem_filterMap.mp h
  obtain ⟨block, hblock, htext⟩ := List.mem_flatMap.mp htext
  obtain ⟨other, hother, hid⟩ := Option.map_eq_some_iff.mp hid
  exact ⟨block, hblock, text, htext, other, hother, hid⟩

namespace Settings

variable {cfg : Settings} {Allowed : ServerConfig → ServerEvent → Prop} {c c' start : ServerConfig}
  {tx : Transaction} {i : Surroundings} {s s' : AppState} {a : ServerAction}

/-! ## Ids that no other transaction has -/

/-- Nothing else comes in under the id of `tx`, nothing else is pruned under it, and a restart
finds `tx` on disk when it is in the pool. -/
structure Unborrowed (cfg : Settings) (tx : Transaction) (c : ServerConfig) (event : ServerEvent) :
    Prop where
  certificate : ∀ k i id issuedTo rest, event = .run k i →
    c.handlers[k]? = some (.begin (.issueCertificate true id issuedTo) :: rest) → i.id ≠ tx.id
  gossip : ∀ k i e other rest, event = .run k i →
    c.handlers[k]? = some (.admitGossip e other :: rest) →
    (do
      let nextHeight ← c.state.chain.nextIndex
      c.state.chain.state.admits cfg.node c.state.pendingTransactions nextHeight other) = ok () →
    other.id = tx.id → other = tx
  submission : ∀ k i other rest, event = .run k i →
    c.handlers[k]? = some (.enqueue other :: rest) →
    c.state.chain.state.admits cfg.node c.state.pendingTransactions
      (UInt64.ofNat c.state.chain.blocks.length) other = ok () →
    other.id = tx.id → other = tx
  pruning : ∀ k i accepted rest, event = .run k i →
    c.handlers[k]? = some (.prunePending accepted :: rest) → tx ∈ c.state.pendingTransactions →
    ∀ block ∈ accepted, ∀ text ∈ block.transactions, ∀ other,
      cfg.node.parseTx text = some other → other.id = tx.id → other = tx
  restart : event = .restart → tx ∈ c.state.pendingTransactions →
    ∃ snapshot, c.state.disk = some snapshot ∧ tx ∈ snapshot.pendingTransactions

/-- An action that may run next answers that `tx` is queued already. -/
def AnswersQueued (cfg : Settings) (tx : Transaction) (c : ServerConfig) : Prop :=
  ∃ (k : ℕ) (i : Surroundings) (a : ServerAction) (rest : List ServerAction) (turn : ServerTurn),
    c.handlers[k]? = some (a :: rest) ∧ cfg.run i c.state a = some turn ∧
    ((∃ e, a = .payload e ∧ e.payload = .transaction tx ∧
      .answered (.envelope e) (.success "Transaction already queued") ∈ turn.words) ∨
    a = .enqueue tx ∧ .submitted tx .alreadyQueued ∈ turn.words)

/-- A pending transaction has left the pool only by a block that carries it or with its nonce, and
is answered as queued only when it is. -/
structure LiveKept (cfg : Settings) (Allowed : ServerConfig → ServerEvent → Prop)
    (start : ServerConfig) (tx : Transaction) (c : ServerConfig) : Prop where
  stays : ∀ c₀, cfg.Runs Allowed start c₀ → cfg.Runs Allowed c₀ c →
    tx ∈ c₀.state.pendingTransactions → tx ∈ c.state.pendingTransactions ∨
      ∃ c₁, cfg.Runs Allowed start c₁ ∧ cfg.Runs Allowed c₁ c ∧
        c₁.state.chain.Spent cfg.node tx
  truthful : cfg.AnswersQueued tx c → tx ∈ c.state.pendingTransactions

/-! ## What is known of the pool and of the blocks under way -/

/-- Under the id of `tx` the pool holds `tx`. -/
def Owns (tx : Transaction) (pending : List Transaction) : Prop :=
  ∀ queued ∈ pending, queued.id = tx.id → queued = tx

theorem Owns.sublist {pending pending' : List Transaction} (h : Owns tx pending)
    (hsub : pending'.Sublist pending) : Owns tx pending' :=
  fun queued hqueued => h queued (hsub.subset hqueued)

theorem Owns.concat {pending : List Transaction} {other : Transaction} (h : Owns tx pending)
    (hother : other.id = tx.id → other = tx) : Owns tx (pending ++ [other]) := by
  intro queued hqueued
  rcases List.mem_append.mp hqueued with hqueued | hqueued
  · exact h queued hqueued
  · rw [List.mem_singleton.mp hqueued]
    exact hother

/-- The pools, what is to be pruned, and the plans and blocks of the miner are about `tx` when they
bear its id. -/
structure Traced (cfg : Settings) (Allowed : ServerConfig → ServerEvent → Prop)
    (start : ServerConfig) (tx : Transaction) (c : ServerConfig) : Prop where
  pool : Owns tx c.state.pendingTransactions
  disk : ∀ snapshot, c.state.disk = some snapshot → Owns tx snapshot.pendingTransactions
  pruning : ∀ accepted, System.Pending c (.prunePending accepted) → ∀ block ∈ accepted,
    ∃ c₁, cfg.Runs Allowed start c₁ ∧ cfg.Runs Allowed c₁ c ∧ block ∈ c₁.state.chain.blocks
  planned : ∀ key plan depth, System.Pending c (.buildMined key plan depth) →
    tx.id ∈ plan.plan.includedIds → cfg.node.txJson tx ∈ plan.plan.transactions
  built : ∀ key plan built depth, System.Pending c (.finishMine key plan built depth) →
    tx.id ∈ plan.plan.includedIds → cfg.node.txJson tx ∈ built.transactions

/-- The pools after an action. -/
theorem Traced.pools {k : ℕ} {rest : List ServerAction} {turn : ServerTurn}
    (h : Traced cfg Allowed start tx c) (hallowed : Unborrowed cfg tx c (.run k i))
    (htop : c.handlers[k]? = some (a :: rest)) (hrun : cfg.run i c.state a = some turn) :
    Owns tx turn.state.pendingTransactions ∧
      ∀ snapshot, turn.state.disk = some snapshot → Owns tx snapshot.pendingTransactions := by
  have heffect := run_effect hrun
  generalize turn.state = after at heffect
  cases heffect with
  | certified id issuedTo =>
    refine ⟨h.pool.concat fun hid => absurd hid ?_, h.disk⟩
    exact hallowed.certificate k i id issuedTo rest rfl htop
  | gossiped e other hadmits =>
    exact ⟨h.pool.concat (hallowed.gossip k i e other rest rfl htop hadmits), h.disk⟩
  | admitted other hroom hnew hadmits =>
    exact ⟨h.pool.concat (hallowed.submission k i other rest rfl htop hadmits), h.disk⟩
  | pruned accepted => exact ⟨h.pool.sublist List.filter_sublist, h.disk⟩
  | saved => exact ⟨h.pool, fun snapshot hsnapshot => Option.some.inj hsnapshot ▸ h.pool⟩
  | mined key plan built block depth chain pending hfinish =>
    obtain ⟨_, -, -, -, -, rfl⟩ := Blockchain.finishMine_eq_ok hfinish
    exact ⟨h.pool.sublist List.filter_sublist, h.disk⟩
  | _ => exact ⟨h.pool, h.disk⟩

/-- The plans and the blocks of the miner after an event. -/
theorem Traced.plans {event : ServerEvent} (h : Traced cfg Allowed start tx c)
    (hrequested : Requested event) (hstep : cfg.server.step c event = some c') :
    (∀ key plan depth, System.Pending c' (.buildMined key plan depth) →
      tx.id ∈ plan.plan.includedIds → cfg.node.txJson tx ∈ plan.plan.transactions) ∧
    ∀ key plan built depth, System.Pending c' (.finishMine key plan built depth) →
      tx.id ∈ plan.plan.includedIds → cfg.node.txJson tx ∈ built.transactions := by
  constructor
  · intro key plan depth hpending hid
    rcases System.pending_step hstep hpending with hpending | ⟨actions, rfl, hmem⟩ |
      ⟨k, i, a, rest, turn, rfl, htop, hrun, hadds⟩
    · exact h.planned key plan depth hpending hid
    · obtain ⟨request, rfl⟩ := hrequested
      simp at hmem
    · obtain ⟨kept, reward, hkept, htexts, hids⟩ :=
        Blockchain.planMine_kept (run_follows hrun hadds).of_buildMined
      rw [hids] at hid
      obtain ⟨queued, hqueued, hid⟩ := List.mem_map.mp hid
      rw [htexts, ← h.pool queued (hkept queued hqueued) hid]
      exact List.mem_map_of_mem (List.mem_append_left _ hqueued)
  · intro key plan built depth hpending hid
    rcases System.pending_step hstep hpending with hpending | ⟨actions, rfl, hmem⟩ |
      ⟨k, i, a, rest, turn, rfl, htop, hrun, hadds⟩
    · exact h.built key plan built depth hpending hid
    · obtain ⟨request, rfl⟩ := hrequested
      simp at hmem
    · obtain ⟨rfl, hbuild⟩ := (run_follows hrun hadds).of_finishMine
      rw [(Blockchain.MinePlan.build_ok hbuild).1.transactions]
      exact h.planned key plan depth (System.pending_top htop) hid

/-- The run to a configuration goes on by an allowed event. -/
theorem Runs.next {event : ServerEvent} (h : cfg.Runs Allowed start c)
    (hrequested : Requested event) (hallowed : Allowed c event)
    (hstep : cfg.server.step c event = some c') : cfg.Runs Allowed start c' :=
  System.Reaches.step h ⟨hrequested, hallowed⟩ hstep

theorem Runs.traced (hstarts : cfg.Starts start)
    (hstart : Owns tx start.state.pendingTransactions)
    (h : cfg.Runs (Unborrowed cfg tx) start c) : Traced cfg (Unborrowed cfg tx) start tx c := by
  refine System.Reaches.invariant h (P := Traced cfg (Unborrowed cfg tx) start tx) ?_ ?_
  · obtain ⟨disk, state, hboot, rfl⟩ := hstarts
    have hnone : ∀ {a : ServerAction}, ¬ System.Pending (⟨state, [], [], []⟩ : ServerConfig) a :=
      fun ⟨_, hactions, _⟩ => absurd hactions List.not_mem_nil
    refine ⟨hstart, fun snapshot hsnapshot => ?_, fun _ h => absurd h hnone,
      fun _ _ _ h => absurd h hnone, fun _ _ _ _ h => absurd h hnone⟩
    obtain ⟨_, _, -, -, rfl⟩ := boot_eq_some hboot
    subst hsnapshot
    exact hstart
  · intro c c' event hc ih ⟨hrequested, hallowed⟩ hstep
    have hmore : ∀ {c₁ : ServerConfig}, cfg.Runs (Unborrowed cfg tx) c₁ c →
        cfg.Runs (Unborrowed cfg tx) c₁ c' := fun h₁ => h₁.next hrequested hallowed hstep
    have hpruning : ∀ accepted, System.Pending c' (.prunePending accepted) → ∀ block ∈ accepted,
        ∃ c₁, cfg.Runs (Unborrowed cfg tx) start c₁ ∧ cfg.Runs (Unborrowed cfg tx) c₁ c' ∧
          block ∈ c₁.state.chain.blocks := by
      intro accepted hpending block hblock
      rcases System.pending_step hstep hpending with hpending | ⟨actions, rfl, hmem⟩ |
        ⟨k, i, a, rest, turn, rfl, htop, hrun, hadds⟩
      · obtain ⟨c₁, hstart₁, h₁, hmem⟩ := ih.pruning accepted hpending block hblock
        exact ⟨c₁, hstart₁, hmore h₁, hmem⟩
      · obtain ⟨request, rfl⟩ := hrequested
        simp at hmem
      · refine ⟨c', hmore hc, .start, ?_⟩
        rw [System.step_run hstep htop hrun]
        exact (run_follows hrun hadds).of_prunePending block hblock
    obtain ⟨hplanned, hbuilt⟩ := ih.plans hrequested hstep
    suffices hpools : Owns tx c'.state.pendingTransactions ∧
        ∀ snapshot, c'.state.disk = some snapshot → Owns tx snapshot.pendingTransactions from
      ⟨hpools.1, hpools.2, hpruning, hplanned, hbuilt⟩
    rcases System.step_cases hstep with ⟨actions, rfl, rfl⟩ |
      ⟨k, i, a, rest, turn, rfl, htop, hrun, rfl⟩ | ⟨state, rfl, hboot, rfl⟩
    · exact ⟨ih.pool, ih.disk⟩
    · exact ih.pools hallowed htop hrun
    · obtain ⟨_, _, -, -, rfl⟩ := boot_eq_some hboot
      refine ⟨?_, ih.disk⟩
      cases hdisk : c.state.disk with
      | none => exact fun queued hqueued => absurd hqueued List.not_mem_nil
      | some snapshot => exact ih.disk snapshot hdisk

/-! ## Leaving the pool -/

/-- An action takes `tx` out of the pool only when it is in a block that has been accepted, or its
nonce is used up. -/
theorem Traced.leaves {k : ℕ} {rest : List ServerAction} {turn : ServerTurn}
    (h : Traced cfg Allowed start tx c) (hallowed : Unborrowed cfg tx c (.run k i))
    (hc : cfg.Runs Allowed start c) (htop : c.handlers[k]? = some (a :: rest))
    (hrun : cfg.run i c.state a = some turn) (htx : tx ∈ c.state.pendingTransactions) :
    tx ∈ turn.state.pendingTransactions ∨ turn.state.chain.Spent cfg.node tx ∨
      ∃ c₁, cfg.Runs Allowed start c₁ ∧ cfg.Runs Allowed c₁ c ∧
        c₁.state.chain.Spent cfg.node tx := by
  have heffect := run_effect hrun
  generalize turn.state = after at heffect
  cases heffect with
  | certified id issuedTo => exact Or.inl (List.mem_append_left _ htx)
  | gossiped e other hadmits => exact Or.inl (List.mem_append_left _ htx)
  | admitted other hroom hnew hadmits => exact Or.inl (List.mem_append_left _ htx)
  | pruned accepted =>
    cases hstill : c.state.chain.state.stillPending (includedIds cfg.node accepted) tx with
    | true => exact Or.inl (List.mem_filter.mpr ⟨htx, hstill⟩)
    | false =>
      refine Or.inr (Or.inr ?_)
      rcases ChainState.stillPending_eq_false hstill with hid | hnonce
      · obtain ⟨block, hblock, text, htext, other, hother, hid⟩ := exists_of_mem_includedIds hid
        rw [hallowed.pruning k i accepted rest rfl htop htx block hblock text htext other hother
          hid] at hother
        obtain ⟨c₁, hstart₁, h₁, hmem⟩ :=
          h.pruning accepted (System.pending_top htop) block hblock
        exact ⟨c₁, hstart₁, h₁, Or.inl ⟨block, hmem, text, htext, Or.inr hother⟩⟩
      · exact ⟨c, hc, .start, Or.inr hnonce⟩
  | mined key plan built block depth chain pending hfinish =>
    by_cases hid : tx.id ∈ plan.plan.includedIds
    · refine Or.inr (Or.inl (Or.inl ⟨block, ?_, _, ?_, Or.inl rfl⟩))
      · show block ∈ chain.blocks
        rw [Blockchain.finishMine_blocks hfinish]
        exact List.mem_append_right _ (List.mem_singleton_self block)
      · obtain ⟨_, -, hseal, -, -, -⟩ := Blockchain.finishMine_eq_ok hfinish
        obtain ⟨_, _, _, _, rfl⟩ := Blockchain.sealMined_fields hseal
        exact h.built key plan built depth (System.pending_top htop) hid
    · obtain ⟨_, -, -, -, -, rfl⟩ := Blockchain.finishMine_eq_ok hfinish
      exact Or.inl (List.mem_filter.mpr ⟨htx, decide_eq_true hid⟩)
  | _ => exact Or.inl htx

/-- What is answered as queued is in the pool. -/
theorem Owns.mem_of_answersQueued (h : Owns tx c.state.pendingTransactions)
    (hanswers : cfg.AnswersQueued tx c) : tx ∈ c.state.pendingTransactions := by
  have hqueued : (c.state.pendingTransactions.any fun queued => queued.id = tx.id) = true →
      tx ∈ c.state.pendingTransactions := by
    intro hany
    obtain ⟨queued, hqueued, hid⟩ := List.any_eq_true.mp hany
    rwa [h queued hqueued (of_decide_eq_true hid)] at hqueued
  obtain ⟨k, i, a, rest, turn, -, hrun, ⟨e, rfl, hpayload, hword⟩ | ⟨rfl, hword⟩⟩ := hanswers
  · rw [run, runPayload, hpayload] at hrun
    dsimp only at hrun
    split at hrun
    · next hany => exact hqueued hany
    · rcases settle_eq_some.mp hrun with ⟨_, -, rfl⟩ | ⟨_, -, rfl⟩
      · split at hword <;> exact absurd hword mem_words_goOn
      · exact absurd hword mem_words_goOn
  · rw [run, runEnqueue] at hrun
    split at hrun
    · cases hrun
      simp at hword
    · split at hrun
      · next hany => exact hqueued hany
      · rcases settle_eq_some.mp hrun with ⟨_, -, rfl⟩ | ⟨_, -, rfl⟩ <;> simp at hword

/-- No live transaction is dropped in a run in which no other transaction bears its id. -/
theorem live_kept_of_unborrowed (hstarts : cfg.Starts start)
    (hstart : ∀ queued ∈ start.state.pendingTransactions, queued.id = tx.id → queued = tx)
    (h : cfg.Runs (Unborrowed cfg tx) start c) :
    LiveKept cfg (Unborrowed cfg tx) start tx c := by
  refine ⟨fun c₀ h₀ hrun htx => ?_, (h.traced hstarts hstart).pool.mem_of_answersQueued⟩
  refine System.Reaches.invariant hrun (P := fun c => tx ∈ c.state.pendingTransactions ∨
    ∃ c₁, cfg.Runs (Unborrowed cfg tx) start c₁ ∧ cfg.Runs (Unborrowed cfg tx) c₁ c ∧
      c₁.state.chain.Spent cfg.node tx) (Or.inl htx) ?_
  intro c c' event hc ih ⟨hrequested, hallowed⟩ hstep
  have hmore : ∀ {c₁ : ServerConfig}, cfg.Runs (Unborrowed cfg tx) c₁ c →
      cfg.Runs (Unborrowed cfg tx) c₁ c' := fun h₁ => h₁.next hrequested hallowed hstep
  have hstart' : cfg.Runs (Unborrowed cfg tx) start c := System.Reaches.trans h₀ hc
  rcases ih with htx | ⟨c₁, hstart₁, h₁, hspent⟩
  · rcases System.step_cases hstep with ⟨actions, rfl, rfl⟩ |
      ⟨k, i, a, rest, turn, rfl, htop, hrun, rfl⟩ | ⟨state, rfl, hboot, rfl⟩
    · exact Or.inl htx
    · rcases (hstart'.traced hstarts hstart).leaves hallowed hstart' htop hrun htx with
        htx | hspent | ⟨c₁, hstart₁, h₁, hspent⟩
      · exact Or.inl htx
      · exact Or.inr ⟨_, hmore hstart', .start, hspent⟩
      · exact Or.inr ⟨c₁, hstart₁, hmore h₁, hspent⟩
    · obtain ⟨snapshot, hdisk, htx⟩ := hallowed.restart rfl htx
      obtain ⟨_, _, -, -, rfl⟩ := boot_eq_some hboot
      refine Or.inl ?_
      show tx ∈ (c.state.disk.map AppSnapshot.pendingTransactions).getD []
      rw [hdisk]
      exact htx
  · exact Or.inr ⟨c₁, hstart₁, hmore h₁, hspent⟩

end Settings

/-! ## A borrowed id -/

namespace Sample

/-- Holder 7's payment applies to the first state of the chain, on top of anchors. -/
theorem payment_admits {pending : List Transaction}
    (h : ∀ queued ∈ pending, queued.Anchor defaultChainId) :
    (genesis 1000000000000000000).admits (node []) pending 1 payment = ok () := by
  have happlies : (Exec.finalState (ChainState.applyVerified (node []) payment 1)
      (genesis 1000000000000000000) : Outcome String ChainState).returns (fun _ => true) = true := by
    decide +kernel
  obtain ⟨s, hs, -⟩ := Outcome.exists_of_returns happlies
  rw [ChainState.admits, Transaction.Anchor.projectPendingState h, ok_bind, hs]
  rfl

/-- An anchor under the id of holder 7's payment. -/
def borrower : Transaction := { note 0 with id := payment.id }

theorem borrower_anchor : borrower.Anchor defaultChainId := ⟨rfl, rfl, rfl, rfl, rfl⟩

/-- The envelope that carries it. -/
def borrowerEnvelope : P2PEnvelope := .new "" (floodId 0) morning (.transaction borrower)

/-- Holder 8 has gossiped the anchor to a node that has just come up. -/
theorem exists_borrowed : ∃ c : ServerConfig,
    (settings []).Runs Settings.Unrestricted (firstConfig []) c ∧ c.handlers = [[]] ∧
      c.state.chain = root [] 1000000000000000000 ∧ c.state.pendingTransactions = [borrower] := by
  have hnone : ∀ queued ∈ (firstConfig []).state.pendingTransactions, queued.id ≠ borrower.id :=
    fun queued hqueued => absurd hqueued List.not_mem_nil
  have haccepted : (firstConfig []).state.peerBook.isAccepted (address 8)
      quietMorning.now.time = true := by
    refine PeerBook.isAccepted_of_unbanned rfl ?_
    show ((PeerBook.withAllowList ∅).entry (address 8)).bannedUntil = 0
    rw [PeerBook.entry_withAllowList]
    rfl
  have hkind : borrower.transactionType ≠ .reward := by
    rw [borrower_anchor.kind]
    decide
  have hadmits : (genesis 1000000000000000000).admits (node []) [] 1 borrower = ok () :=
    borrower_anchor.admits fun queued hqueued => absurd hqueued List.not_mem_nil
  have hfirst : (settings []).Runs Settings.Unrestricted (firstConfig []) (firstConfig []) :=
    runs_firstConfig
  have hruns := hfirst.gossip (i := quietMorning)
    (e := sealEnvelope [] 8 borrowerEnvelope) rfl
    (validate_sealEnvelope [] 8 (e := borrowerEnvelope) rfl (floodId_written 0) rfl) haccepted
    (Finset.notMem_empty _) hnone borrower_anchor.verifyForBlock hkind rfl hadmits rfl trivial
    fun _ _ _ _ _ => trivial
  exact ⟨_, hruns, rfl, rfl, rfl⟩

end Sample

namespace Settings

/-- A pending anchor is kept. -/
theorem live_kept_sample : ∃ c : ServerConfig, c.state.pendingTransactions = [Sample.note 0] ∧
    LiveKept (Sample.settings []) (Unborrowed (Sample.settings []) (Sample.note 0))
      (Sample.firstConfig []) (Sample.note 0) c := by
  have hfirst : Sample.Anchored (Unborrowed (Sample.settings []) (Sample.note 0)) 0
      (Sample.firstConfig []) := Sample.anchored_zero _
  have harrive : ∀ request, Unborrowed (Sample.settings []) (Sample.note 0)
      (Sample.firstConfig []) (.arrive [.begin request]) := fun request =>
    ⟨fun _ _ _ _ _ hevent => (by cases hevent), fun _ _ _ _ _ hevent => (by cases hevent),
      fun _ _ _ _ hevent => (by cases hevent), fun _ _ _ _ hevent => (by cases hevent),
      fun hevent => (by cases hevent)⟩
  have hnext := hfirst.next harrive fun c' a rest ha _ => ?_
  · obtain ⟨c, hc⟩ := hnext
    exact ⟨c, hc.pool, live_kept_of_unborrowed (Sample.starts_firstConfig [])
      (fun queued hqueued => absurd hqueued List.not_mem_nil) hc.runs⟩
  · have htop : ∀ {k : ℕ} {i : Surroundings} {b : ServerAction} {rest' : List ServerAction},
        (.run c'.handlers.length Sample.quietMorning : ServerEvent) = .run k i →
        (c'.handlers ++ [a :: rest])[k]? = some (b :: rest') →
        b ∈ gossipSteps (Sample.sealEnvelope [] 8 (Sample.noteEnvelope 0)) (Sample.note 0) := by
      intro k i b rest' hevent htop
      cases hevent
      rw [List.getElem?_concat_length, Option.some.injEq, List.cons.injEq] at htop
      exact htop.1 ▸ ha
    constructor
    · intro k i id issuedTo rest' hevent hstack
      have hmem := htop hevent hstack
      simp [gossipSteps] at hmem
    · intro k i e other rest' hevent hstack _ _
      have hmem := htop hevent hstack
      simp only [gossipSteps, List.mem_cons, ServerAction.admitGossip.injEq, List.not_mem_nil, or_false,
        reduceCtorEq, false_or] at hmem
      exact hmem.2
    · intro k i other rest' hevent hstack _ _
      have hmem := htop hevent hstack
      simp [gossipSteps] at hmem
    · intro k i accepted rest' hevent hstack
      have hmem := htop hevent hstack
      simp [gossipSteps] at hmem
    · intro hevent
      cases hevent

/-- Holder 7's payment applies and is answered as queued already, though only an anchor under its
id is in the pool. -/
theorem live_dropped : ∃ c : ServerConfig,
    (Sample.settings []).Starts (Sample.firstConfig []) ∧
    (Sample.firstConfig []).state.pendingTransactions = [] ∧
    (Sample.settings []).Runs Unrestricted (Sample.firstConfig []) c ∧
    Sample.payment.verifyForBlock (Sample.settings []).node "__queue__" = ok () ∧
    c.state.chain.state.admits (Sample.settings []).node c.state.pendingTransactions
      (UInt64.ofNat c.state.chain.blocks.length) Sample.payment = ok () ∧
    ¬ LiveKept (Sample.settings []) Unrestricted (Sample.firstConfig []) Sample.payment c := by
  obtain ⟨c, hruns, hhandlers, hchain, hpool⟩ := Sample.exists_borrowed
  have hrequested : Requested (.arrive [.begin (.queueTransaction Sample.payment)]) := ⟨_, rfl⟩
  have harrived := hruns.next hrequested trivial rfl
  have hbegin : (Sample.settings []).run Sample.quietMorning c.state
      (.begin (.queueTransaction Sample.payment)) =
        some ⟨c.state, [.enqueue Sample.payment], [], []⟩ := by
    have hkind : Sample.payment.transactionType ≠ .reward := by decide
    have hstamped : { Sample.payment with chainId := c.state.chain.state.chainId } =
        Sample.payment := by
      rw [hchain]
      rfl
    rw [run, runBegin, if_neg hkind]
    simp only [hstamped]
    rw [show Sample.payment.verifyForBlock (Sample.settings []).node.toEnv "__queue__" = ok () from
      Sample.payment_verified]
    rfl
  have hqueued : (Sample.settings []).server.step
      { c with handlers := c.handlers ++ [[.begin (.queueTransaction Sample.payment)]] }
      (.run 1 Sample.quietMorning) = some ⟨c.state, [[], [.enqueue Sample.payment]], c.said ++ [],
        c.inputs ++ [Sample.quietMorning]⟩ := by
    simp [System.step, server, hhandlers, hbegin, System.after]
  have hrun : Requested (.run 1 Sample.quietMorning) := trivial
  have hall := harrived.next hrun trivial hqueued
  refine ⟨_, Sample.starts_firstConfig [], rfl, hall, Sample.payment_verified, ?_, fun hkept => ?_⟩
  · show c.state.chain.state.admits _ c.state.pendingTransactions
      (UInt64.ofNat c.state.chain.blocks.length) Sample.payment = ok ()
    rw [hpool, hchain]
    refine Sample.payment_admits fun queued hqueued => ?_
    rw [List.mem_singleton.mp hqueued]
    exact Sample.borrower_anchor
  · have hmem : Sample.payment ∈ c.state.pendingTransactions := by
      refine hkept.truthful ⟨1, Sample.quietMorning, .enqueue Sample.payment, [],
        ⟨c.state, [], [], [.submitted Sample.payment .alreadyQueued]⟩, rfl, ?_, Or.inr ⟨rfl, ?_⟩⟩
      · show (Sample.settings []).run Sample.quietMorning c.state (.enqueue Sample.payment) = _
        have hroom : ¬ maxPendingTxs ≤ c.state.pendingTransactions.length := by
          rw [hpool]
          decide
        have hany : (c.state.pendingTransactions.any fun queued =>
            queued.id = Sample.payment.id) = true := by
          rw [hpool]
          exact List.any_eq_true.mpr ⟨_, List.mem_singleton_self _, decide_eq_true rfl⟩
        rw [run, runEnqueue, if_neg hroom, if_pos hany]
        rfl
      · exact List.mem_singleton_self _
    rw [hpool, List.mem_singleton] at hmem
    have hkinds := congrArg Transaction.transactionType hmem
    exact absurd hkinds (by decide)

end Settings
