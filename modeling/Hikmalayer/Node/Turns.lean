/-
# What an action adds and says

Inversions for the actions that an action adds, to its own handler or to a new one, and for what
it says; from them, what holds of the envelopes that are under way in a run.
-/
import Mathlib.Tactic
import Hikmalayer.Node.Effects

open Outcome

/-! ## What concerns an envelope -/

/-- The envelope that an action is about, once it has been looked at. -/
def ServerAction.envelope : ServerAction → Option P2PEnvelope
  | .penalizePeer e => some e
  | .rewardPeer e => some e
  | .gate e => some e
  | .replay e => some e
  | .payload e => some e
  | .admitGossip e _ => some e
  | .acceptPeerBlock (.envelope e) _ _ => some e
  | .acceptPeerBlocks (.envelope e) _ _ _ => some e
  | _ => none

/-- The envelope that is counted or punished. -/
def Output.envelope : Output → Option P2PEnvelope
  | .received e => some e
  | .penalized e => some e
  | _ => none

open ServerTurn

namespace ServerTurn

variable {s : AppState} {b : ServerAction} {o : Output}

@[simp] theorem adds_goOn {next : List ServerAction} : (goOn s next).Adds b ↔ b ∈ next := by
  simp [goOn, System.Turn.Adds]

@[simp] theorem adds_finish {words : List Output} : ¬ (finish s words).Adds b := by
  simp [finish, System.Turn.Adds]

@[simp] theorem mem_words_goOn {next : List ServerAction} : o ∉ (goOn s next).words :=
  List.not_mem_nil

@[simp] theorem mem_words_finish {words : List Output} : o ∈ (finish s words).words ↔ o ∈ words :=
  Iff.rfl

end ServerTurn

namespace Settings

variable {cfg : Settings} {i : Surroundings} {s : AppState} {a b : ServerAction} {turn : ServerTurn}
  {e : P2PEnvelope} {o : Output}

/-! ## What comes next -/

/-- An action comes after another, in its handler or in one that it starts; `after` is the state
between them. -/
inductive Follows (cfg : Settings) (i : Surroundings) (s after : AppState) :
    ServerAction → ServerAction → Prop
  | gate (e : P2PEnvelope) (hvalid : e.validateWithIdentity cfg.node maxEnvelopeSkew
      cfg.requireIdentity i.now.time = ok ()) :
    Follows cfg i s after (.begin (.message true e)) (.gate e)
  | refused (e : P2PEnvelope) (message : String) (hrefused : e.validateWithIdentity cfg.node
      maxEnvelopeSkew cfg.requireIdentity i.now.time = err message) :
    Follows cfg i s after (.begin (.message true e)) (.penalizePeer e)
  | enqueue (tx : Transaction) (hkind : tx.transactionType ≠ .reward)
      (hverify : Transaction.verifyForBlock cfg.node
        { tx with chainId := s.chain.state.chainId } "__queue__" = ok ()) :
    Follows cfg i s after (.begin (.queueTransaction tx)) (.enqueue { tx with
      chainId := s.chain.state.chainId })
  | replay (e : P2PEnvelope) (haccepted : s.peerBook.isAccepted e.nodeId i.now.time = true) :
    Follows cfg i s after (.gate e) (.replay e)
  | payload (e : P2PEnvelope) : Follows cfg i s after (.replay e) (.payload e)
  | gossiped (e : P2PEnvelope) (tx : Transaction) (hpayload : e.payload = .transaction tx)
      (hnew : ∀ queued ∈ s.pendingTransactions, queued.id ≠ tx.id)
      (hverify : tx.verifyForBlock cfg.node "__queue__" = ok ())
      (hkind : tx.transactionType ≠ .reward) :
    Follows cfg i s after (.payload e) (.admitGossip e tx)
  | invalid (e : P2PEnvelope) (tx : Transaction) (hpayload : e.payload = .transaction tx)
      (hinvalid : tx.verifyForBlock cfg.node "__queue__" ≠ ok () ∨ tx.transactionType = .reward) :
    Follows cfg i s after (.payload e) (.penalizePeer e)
  | useful (e : P2PEnvelope) (tx : Transaction) :
    Follows cfg i s after (.admitGossip e tx) (.rewardPeer e)
  | inapplicable (e : P2PEnvelope) (tx : Transaction) (message : String)
      (hrefused : (do
        let nextHeight ← s.chain.nextIndex
        s.chain.state.admits cfg.node s.pendingTransactions nextHeight tx) = err message) :
    Follows cfg i s after (.admitGossip e tx) (.penalizePeer e)
  | accept (a : ServerAction) (source : Source) (block : Block) (depth : UInt64)
      (hsource : ∀ e, source = .envelope e → a = .payload e ∧ e.payload = .block block) :
    Follows cfg i s after a (.acceptPeerBlock source block depth)
  | credited (e : P2PEnvelope) (block : Block) (depth : UInt64) :
    Follows cfg i s after (.acceptPeerBlock (.envelope e) block depth) (.rewardPeer e)
  | blamed (e : P2PEnvelope) (block : Block) (depth : UInt64) (message : String)
      (hrefused : Blockchain.appendFinal cfg.node i.now.time depth s.chain block = err message)
      (hblame : containsText message "chain tip" = false) :
    Follows cfg i s after (.acceptPeerBlock (.envelope e) block depth) (.penalizePeer e)
  | acceptAll (a : ServerAction) (source : Source) (blocks : List Block) (depth : UInt64) (accepted : ℕ)
      (hsource : ∀ e, source = .envelope e → a.envelope = some e) :
    Follows cfg i s after a (.acceptPeerBlocks source blocks depth accepted)
  | prune (a : ServerAction) (accepted : List Block)
      (hheld : ∀ block ∈ accepted, block ∈ after.chain.blocks) :
    Follows cfg i s after a (.prunePending accepted)
  | persist (a : ServerAction) : Follows cfg i s after a .persistState
  | answer (a : ServerAction) (source : Source) (response : ApiResponse) :
    Follows cfg i s after a (.answer source response)
  | gossipTransaction (tx : Transaction) (hadmits : s.chain.state.admits cfg.node
      s.pendingTransactions (UInt64.ofNat s.chain.blocks.length) tx = ok ()) :
    Follows cfg i s after (.enqueue tx) (.gossipTransaction tx)
  | gossipMined (key : LocalValidatorKey) (plan : Blockchain.MinePlan) (built block : Block)
      (depth : UInt64) (pending : List Transaction)
      (hfinish : Blockchain.finishMine cfg.node key plan built depth i.now.time s.chain
        s.pendingTransactions = ok (block, after.chain, pending)) :
    Follows cfg i s after (.finishMine key plan built depth) (.gossipBlock block)
  | gossipSubmitted (block : Block) (depth : UInt64)
      (happend : Blockchain.appendFinal cfg.node i.now.time depth s.chain block = ok after.chain) :
    Follows cfg i s after (.submit block depth) (.gossipBlock block)
  | planMine (key : LocalValidatorKey) (depth : UInt64) (hkey : cfg.validatorKey = some key) :
    Follows cfg i s after (.begin .mineBlock) (.planMine key depth)
  | buildMined (key : LocalValidatorKey) (plan : Blockchain.MinePlan) (depth : UInt64)
      (hplan : Blockchain.planMine cfg.node key s.chain s.pendingTransactions i.now.time i.id
        i.stamp = ok plan) :
    Follows cfg i s after (.planMine key depth) (.buildMined key plan depth)
  | finishMine (key : LocalValidatorKey) (plan : Blockchain.MinePlan) (built : Block)
      (depth : UInt64) (hbuild : plan.build cfg.node i.now.time = ok built) :
    Follows cfg i s after (.buildMined key plan depth) (.finishMine key plan built depth)
  | submit (block : Block) (depth : UInt64) :
    Follows cfg i s after (.begin (.submitBlock block)) (.submit block depth)
  | sync (a b : ServerAction) (hb : b = .syncWithPeers ∨ (∃ peers, b = .readDepth peers) ∨
      (∃ peers depth, b = .adoptFrom peers depth) ∨
      (∃ target depth batches, b = .download target depth batches) ∨
      ∃ target depth batches, b = .appendFetched target depth batches) :
    Follows cfg i s after a b

theorem refusedBlock_follows {message : String} {actions : List ServerAction} {after : AppState}
    (hactions : actions ∈ refusedBlock message) (hb : b ∈ actions) : Follows cfg i s after a b := by
  unfold refusedBlock at hactions
  split at hactions
  · rw [List.mem_singleton.mp hactions, List.mem_singleton] at hb
    exact .sync a b (Or.inl hb)
  · exact absurd hactions List.not_mem_nil

theorem endBatch_follows {source : Source} {accepted : ℕ} {after : AppState}
    (hb : b ∈ endBatch source accepted) : Follows cfg i s after a b := by
  unfold endBatch at hb
  rcases List.mem_append.mp hb with hb | hb
  · split at hb
    · rw [List.mem_singleton.mp hb]
      exact .persist a
    · exact absurd hb List.not_mem_nil
  · rw [List.mem_singleton.mp hb]
    exact .answer a _ _

theorem runBegin_follows {request : Request} (h : runBegin cfg i s request = some turn)
    (hb : turn.Adds b) : Follows cfg i s turn.state (.begin request) b := by
  cases request with
  | message authorized e =>
    rw [runBegin] at h
    split at h
    · cases h
      exact absurd hb adds_finish
    · next hauthorized =>
      rw [not_not] at hauthorized
      rw [hauthorized]
      rcases settle_eq_some.mp h with ⟨_, hvalid, rfl⟩ | ⟨message, hrefused, rfl⟩
      · rw [adds_goOn, List.mem_singleton] at hb
        rw [hb]
        exact .gate e hvalid
      · simp only [adds_goOn, List.mem_cons, List.not_mem_nil, or_false] at hb
        rcases hb with rfl | rfl
        · exact .refused e message hrefused
        · exact .answer _ _ _
  | receiveBlock authorized block =>
    rw [runBegin] at h
    split at h <;> cases h
    · exact absurd hb adds_finish
    · rw [adds_goOn, List.mem_singleton] at hb
      rw [hb]
      exact .accept _ .route block _ fun _ h => by cases h
  | receiveBlocks authorized blocks =>
    rw [runBegin] at h
    split at h <;> cases h
    · exact absurd hb adds_finish
    · rw [adds_goOn, List.mem_singleton] at hb
      rw [hb]
      exact .acceptAll _ .route blocks _ 0 fun _ h => by cases h
  | queueTransaction tx =>
    rw [runBegin] at h
    split at h
    · cases h
      exact absurd hb adds_finish
    · next hkind =>
      rcases settle_eq_some.mp h with ⟨_, hverify, rfl⟩ | ⟨_, -, rfl⟩
      · rw [adds_goOn, List.mem_singleton] at hb
        rw [hb]
        exact .enqueue tx hkind hverify
      · exact absurd hb adds_finish
  | issueCertificate authorized id issuedTo =>
    rw [runBegin] at h
    split at h <;> cases h
    · exact absurd hb adds_finish
    · simp only [adds_goOn, List.mem_cons, List.not_mem_nil, or_false] at hb
      rcases hb with rfl | rfl
      · exact .persist _
      · exact .answer _ _ _
  | mineBlock =>
    rw [runBegin] at h
    split at h
    · cases h
      exact absurd hb adds_finish
    · next key hkey =>
      cases h
      rw [adds_goOn, List.mem_singleton] at hb
      rw [hb]
      exact .planMine key _ hkey
  | submitBlock block =>
    cases h
    rw [adds_goOn, List.mem_singleton] at hb
    rw [hb]
    exact .submit block _
  | updateGovernance authorized slashPercent finalityDepth =>
    rw [runBegin] at h
    split_ifs at h <;> cases h
    · exact absurd hb adds_finish
    · exact absurd hb adds_finish
    · simp only [adds_goOn, List.mem_cons, List.not_mem_nil, or_false] at hb
      rcases hb with rfl | rfl
      · exact .persist _
      · exact .answer _ _ _
    · exact absurd hb adds_finish
  | learnPeers candidates =>
    cases h
    exact absurd hb adds_finish
  | catchUp target =>
    cases h
    rw [adds_goOn, List.mem_singleton] at hb
    exact .sync _ b (Or.inr (Or.inr (Or.inr (Or.inl ⟨_, _, _, hb⟩))))

theorem runPayload_follows (h : runPayload cfg s e = some turn) (hb : turn.Adds b) :
    Follows cfg i s turn.state (.payload e) b := by
  have hinvalid : ∀ {tx : Transaction} {after : AppState}, e.payload = .transaction tx →
      (tx.verifyForBlock cfg.node "__queue__" ≠ ok () ∨ tx.transactionType = .reward) →
      (invalidGossip s e).Adds b → Follows cfg i s after (.payload e) b := by
    intro tx after hpayload hinvalid hb
    simp only [invalidGossip, adds_goOn, List.mem_cons, List.not_mem_nil, or_false] at hb
    rcases hb with rfl | rfl
    · exact .invalid e tx hpayload hinvalid
    · exact .answer _ _ _
  unfold runPayload at h
  split at h
  · cases h
    exact absurd hb adds_finish
  · split at h <;> cases h
    · exact absurd hb adds_finish
    · simp only [adds_goOn, List.mem_cons, List.not_mem_nil, or_false] at hb
      rcases hb with rfl | rfl
      · exact .persist _
      · exact .answer _ _ _
  next tx hpayload =>
    split at h
    · cases h
      exact absurd hb adds_finish
    · next hnew =>
      rcases settle_eq_some.mp h with ⟨_, hverify, rfl⟩ | ⟨_, hrefused, rfl⟩
      · split at hb
        · next hkind =>
          rw [adds_goOn, List.mem_singleton] at hb
          rw [hb]
          refine .gossiped e tx hpayload (fun queued hqueued hid => hnew ?_) hverify hkind
          exact List.any_eq_true.mpr ⟨queued, hqueued, decide_eq_true hid⟩
        · next hkind =>
          rw [not_not] at hkind
          exact hinvalid hpayload (Or.inr hkind) hb
      · exact hinvalid hpayload (Or.inl (by rw [hrefused]; exact fun h => nomatch h)) hb
  next block hpayload =>
    cases h
    rw [adds_goOn, List.mem_singleton] at hb
    rw [hb]
    refine .accept _ _ block _ fun e' he => ?_
    cases he
    exact ⟨rfl, hpayload⟩
  · cases h
    rw [adds_goOn, List.mem_singleton] at hb
    rw [hb]
    refine .acceptAll _ _ _ _ 0 fun e' he => ?_
    cases he
    rfl

/-- An appended block is held. -/
theorem appended_held {chain chain' : Blockchain} {block : Block}
    (h : chain'.blocks = chain.blocks ++ [block]) : ∀ b ∈ [block], b ∈ chain'.blocks := by
  intro b hb
  rw [h]
  exact List.mem_append_right _ hb

theorem runAcceptPeerBlock_follows {source : Source} {block : Block} {depth : UInt64}
    (h : runAcceptPeerBlock cfg i s source block depth = some turn) (hb : turn.Adds b) :
    Follows cfg i s turn.state (.acceptPeerBlock source block depth) b := by
  rcases settle_eq_some.mp h with ⟨chain, happend, rfl⟩ | ⟨message, hrefused, rfl⟩
  · rw [adds_goOn, List.append_assoc, List.mem_append, List.mem_append] at hb
    rcases hb with hb | hb | hb
    · rw [List.mem_singleton.mp hb]
      exact .prune _ _ (appended_held (Blockchain.appendFinal_blocks happend))
    · cases source with
      | envelope e =>
        rw [creditFor, List.mem_singleton] at hb
        rw [hb]
        exact .credited e block depth
      | route => exact absurd hb List.not_mem_nil
    · simp only [List.mem_cons, List.not_mem_nil, or_false] at hb
      rcases hb with rfl | rfl
      · exact .persist _
      · exact .answer _ _ _
  · rcases hb with hb | ⟨actions, hactions, hb⟩
    · rcases List.mem_append.mp hb with hb | hb
      · cases source with
        | envelope e =>
          unfold blameFor at hb
          dsimp only at hb
          split at hb
          · exact absurd hb List.not_mem_nil
          · next hblame =>
            rw [List.mem_singleton.mp hb]
            exact .blamed e block depth message hrefused (Bool.eq_false_iff.mpr hblame)
        | route => exact absurd hb List.not_mem_nil
      · rw [List.mem_singleton.mp hb]
        exact .answer _ _ _
    · exact refusedBlock_follows hactions hb

theorem runAcceptPeerBlocks_follows {source : Source} {blocks : List Block} {depth : UInt64}
    {accepted : ℕ} (h : runAcceptPeerBlocks cfg i s source depth accepted blocks = some turn)
    (hb : turn.Adds b) :
    Follows cfg i s turn.state (.acceptPeerBlocks source blocks depth accepted) b := by
  cases blocks with
  | nil =>
    cases h
    rw [adds_goOn] at hb
    exact endBatch_follows hb
  | cons block rest =>
    rcases settle_eq_some.mp h with ⟨chain, happend, rfl⟩ | ⟨message, -, rfl⟩
    · simp only [adds_goOn, List.mem_cons, List.not_mem_nil, or_false] at hb
      rcases hb with rfl | rfl
      · exact .prune _ _ (appended_held (Blockchain.appendFinal_blocks happend))
      · refine .acceptAll _ _ _ _ _ fun e he => ?_
        rw [he]
        rfl
    · rcases hb with hb | ⟨actions, hactions, hb⟩
      · exact endBatch_follows hb
      · exact refusedBlock_follows hactions hb

theorem runEnqueue_follows {tx : Transaction} (h : runEnqueue cfg s tx = some turn)
    (hb : turn.Adds b) : Follows cfg i s turn.state (.enqueue tx) b := by
  unfold runEnqueue at h
  split at h
  · cases h
    exact absurd hb adds_finish
  · split at h
    · cases h
      exact absurd hb adds_finish
    · rcases settle_eq_some.mp h with ⟨_, hadmits, rfl⟩ | ⟨_, -, rfl⟩
      · rcases hb with hb | ⟨_, hb, -⟩
        · simp only [List.mem_cons, List.not_mem_nil, or_false] at hb
          rcases hb with rfl | rfl
          · exact .persist _
          · exact .gossipTransaction tx hadmits
        · exact absurd hb List.not_mem_nil
      · exact absurd hb adds_finish

theorem runFinishMine_follows {key : LocalValidatorKey} {plan : Blockchain.MinePlan} {built : Block}
    {depth : UInt64} (h : runFinishMine cfg i s key plan built depth = some turn)
    (hb : turn.Adds b) : Follows cfg i s turn.state (.finishMine key plan built depth) b := by
  rcases settle_eq_some.mp h with ⟨⟨block, chain, pending, height⟩, hfinish, rfl⟩ | ⟨_, -, rfl⟩
  · simp only [Outcome.bind_eq_ok, mapErr_eq_ok, Blockchain.held_eq_ok, pure_eq, ok.injEq, Prod.mk.injEq]
      at hfinish
    obtain ⟨⟨block', chain', pending'⟩, hfinish, _, ⟨-, rfl⟩, _, -, rfl, rfl, rfl, -⟩ := hfinish
    rcases hb with hb | ⟨_, hb, -⟩
    · simp only [List.mem_cons, List.not_mem_nil, or_false] at hb
      rcases hb with rfl | rfl
      · exact .persist _
      · exact .gossipMined key plan built _ depth _ hfinish
    · exact absurd hb List.not_mem_nil
  · exact absurd hb adds_finish

theorem runSubmit_follows {block : Block} {depth : UInt64}
    (h : runSubmit cfg i s block depth = some turn) (hb : turn.Adds b) :
    Follows cfg i s turn.state (.submit block depth) b := by
  rcases settle_eq_some.mp h with ⟨⟨chain, height⟩, happend, rfl⟩ | ⟨_, -, rfl⟩
  · simp only [Outcome.bind_eq_ok, pure_eq, ok.injEq, Prod.mk.injEq] at happend
    obtain ⟨_, happend, _, -, rfl, -⟩ := happend
    rcases hb with hb | ⟨_, hb, -⟩
    · simp only [List.mem_cons, List.not_mem_nil, or_false] at hb
      rcases hb with rfl | rfl | rfl
      · exact .prune _ _ (appended_held (Blockchain.appendFinal_blocks happend))
      · exact .persist _
      · exact .gossipSubmitted block depth happend
    · exact absurd hb List.not_mem_nil
  · exact absurd hb adds_finish

theorem runAdoptFrom_follows {peers : ℕ} {depth : UInt64}
    (h : runAdoptFrom cfg i s depth peers = some turn) (hb : turn.Adds b) :
    Follows cfg i s turn.state (.adoptFrom peers depth) b := by
  have hnext : ∀ {peers' : ℕ} {after : AppState}, b = .adoptFrom peers' depth →
      Follows cfg i s after (.adoptFrom peers depth) b := fun h =>
    .sync _ b (Or.inr (Or.inr (Or.inl ⟨_, _, h⟩)))
  cases peers with
  | zero =>
    cases h
    rw [adds_goOn] at hb
    exact absurd hb List.not_mem_nil
  | succ peers =>
    rw [runAdoptFrom] at h
    split at h
    · cases h
      rw [adds_goOn, List.mem_singleton] at hb
      exact hnext hb
    · rcases settle_eq_some.mp h with ⟨adopted, -, rfl⟩ | ⟨_, -, rfl⟩
      · cases adopted with
        | some chain =>
          simp only [adds_goOn, List.mem_cons, List.not_mem_nil, or_false] at hb
          rcases hb with rfl | rfl | hb
          · exact .prune _ _ fun block hblock => absurd hblock List.not_mem_nil
          · exact .persist _
          · exact hnext hb
        | none =>
          rw [adds_goOn, List.mem_singleton] at hb
          exact hnext hb
      · rw [adds_goOn, List.mem_singleton] at hb
        exact hnext hb

theorem runAppendFetched_follows {target depth : UInt64} {batches : ℕ}
    (h : runAppendFetched cfg i s target depth batches = some turn) (hb : turn.Adds b) :
    Follows cfg i s turn.state (.appendFetched target depth batches) b := by
  unfold runAppendFetched at h
  split at h
  · cases h
    rw [adds_goOn] at hb
    exact absurd hb List.not_mem_nil
  · cases h
    rw [adds_goOn] at hb
    exact absurd hb List.not_mem_nil
  · rcases settle_eq_some.mp h with ⟨⟨chain, accepted, diverged⟩, happend, rfl⟩ | ⟨_, -, rfl⟩
    · simp only [Outcome.bind_eq_ok, pure_eq, ok.injEq, Prod.mk.injEq] at happend
      obtain ⟨⟨appended, accepted', diverged'⟩, happend, final, hfinal, rfl, rfl, rfl⟩ := happend
      obtain ⟨new, hnew, hblocks⟩ := Blockchain.appendAll_blocks happend
      rw [List.nil_append] at hnew
      subst hnew
      rw [adds_goOn] at hb
      rcases List.mem_append.mp hb with hb | hb
      · split at hb
        · exact absurd hb List.not_mem_nil
        · simp only [List.mem_cons, List.not_mem_nil, or_false] at hb
          rcases hb with rfl | rfl
          · refine .prune _ _ fun block hblock => ?_
            show block ∈ final.blocks
            rw [Blockchain.finalAfter_blocks hfinal, hblocks]
            exact List.mem_append_right _ hblock
          · exact .persist _
      · rw [List.mem_singleton] at hb
        split at hb
        · exact .sync _ b (Or.inr (Or.inr (Or.inl ⟨_, _, hb⟩)))
        · exact .sync _ b (Or.inr (Or.inr (Or.inr (Or.inl ⟨_, _, _, hb⟩))))
    · rw [adds_goOn] at hb
      exact absurd hb List.not_mem_nil

/-- Where the actions that an action adds come from. -/
theorem run_follows (h : cfg.run i s a = some turn) (hb : turn.Adds b) :
    Follows cfg i s turn.state a b := by
  cases a with
  | begin request => exact runBegin_follows h hb
  | penalizePeer e =>
    rw [run] at h
    split at h <;> cases h
    · exact absurd (adds_goOn.mp hb) List.not_mem_nil
    · exact absurd hb adds_finish
  | rewardPeer e =>
    rw [run] at h
    split at h <;> cases h
    · exact absurd (adds_goOn.mp hb) List.not_mem_nil
    · exact absurd hb adds_finish
  | gate e =>
    rw [run] at h
    split at h
    · next haccepted =>
      cases h
      rw [adds_goOn, List.mem_singleton] at hb
      rw [hb]
      exact .replay e haccepted
    · cases h
      exact absurd hb adds_finish
  | replay e =>
    rw [run] at h
    split at h <;> cases h
    · rcases hb with hb | ⟨_, hb, -⟩
      · rw [List.mem_singleton.mp hb]
        exact .payload e
      · exact absurd hb List.not_mem_nil
    · exact absurd hb adds_finish
  | payload e => exact runPayload_follows h hb
  | admitGossip e tx =>
    rcases settle_eq_some.mp h with ⟨_, -, rfl⟩ | ⟨message, hrefused, rfl⟩
    · simp only [adds_goOn, List.mem_cons, List.not_mem_nil, or_false] at hb
      rcases hb with rfl | rfl | rfl
      · exact .useful e tx
      · exact .persist _
      · exact .answer _ _ _
    · simp only [adds_goOn, List.mem_cons, List.not_mem_nil, or_false] at hb
      rcases hb with rfl | rfl
      · exact .inapplicable e tx message hrefused
      · exact .answer _ _ _
  | acceptPeerBlock source block depth => exact runAcceptPeerBlock_follows h hb
  | acceptPeerBlocks source blocks depth accepted => exact runAcceptPeerBlocks_follows h hb
  | prunePending accepted =>
    cases h
    exact absurd (adds_goOn.mp hb) List.not_mem_nil
  | persistState =>
    rw [run] at h
    split at h <;> cases h <;> exact absurd (adds_goOn.mp hb) List.not_mem_nil
  | answer source response =>
    cases h
    exact absurd hb adds_finish
  | enqueue tx => exact runEnqueue_follows h hb
  | gossipTransaction tx =>
    rw [run] at h
    split at h <;> cases h
    · exact absurd (adds_goOn.mp hb) List.not_mem_nil
    · exact absurd hb adds_finish
  | gossipBlock block =>
    cases h
    exact absurd hb adds_finish
  | planMine key depth =>
    rcases settle_eq_some.mp h with ⟨plan, hplan, rfl⟩ | ⟨_, -, rfl⟩
    · rw [adds_goOn, List.mem_singleton] at hb
      rw [hb]
      exact .buildMined key plan depth hplan
    · exact absurd hb adds_finish
  | buildMined key plan depth =>
    rcases settle_eq_some.mp h with ⟨built, hbuild, rfl⟩ | ⟨_, -, rfl⟩
    · rw [adds_goOn, List.mem_singleton] at hb
      rw [hb]
      exact .finishMine key plan built depth hbuild
    · exact absurd hb adds_finish
  | finishMine key plan built depth => exact runFinishMine_follows h hb
  | submit block depth => exact runSubmit_follows h hb
  | syncWithPeers =>
    rw [run] at h
    split at h <;> cases h
    · exact absurd (adds_goOn.mp hb) List.not_mem_nil
    · rw [adds_goOn, List.mem_singleton] at hb
      exact .sync _ b (Or.inr (Or.inl ⟨_, hb⟩))
  | readDepth peers =>
    cases h
    rw [adds_goOn, List.mem_singleton] at hb
    exact .sync _ b (Or.inr (Or.inr (Or.inl ⟨_, _, hb⟩)))
  | adoptFrom peers depth => exact runAdoptFrom_follows h hb
  | download target depth batches =>
    cases batches with
    | zero =>
      cases h
      exact absurd (adds_goOn.mp hb) List.not_mem_nil
    | succ batches =>
      rcases settle_eq_some.mp h with ⟨next, -, rfl⟩ | ⟨_, -, rfl⟩
      · rw [adds_goOn] at hb
        split at hb
        · exact absurd hb List.not_mem_nil
        · exact .sync _ b (Or.inr (Or.inr (Or.inr (Or.inr ⟨_, _, _, List.mem_singleton.mp hb⟩))))
      · exact absurd (adds_goOn.mp hb) List.not_mem_nil
  | appendFetched target depth batches => exact runAppendFetched_follows h hb

theorem Follows.of_gate {after : AppState} (h : Follows cfg i s after a (.gate e)) :
    a = .begin (.message true e) ∧ e.validateWithIdentity cfg.node maxEnvelopeSkew
      cfg.requireIdentity i.now.time = ok () := by
  cases h with
  | gate e hvalid => exact ⟨rfl, hvalid⟩
  | sync a b hb => simp at hb

theorem Follows.of_replay {after : AppState} (h : Follows cfg i s after a (.replay e)) :
    a = .gate e := by
  cases h with
  | replay e => rfl
  | sync a b hb => simp at hb

theorem Follows.accepted {after : AppState} (h : Follows cfg i s after a (.replay e)) :
    s.peerBook.isAccepted e.nodeId i.now.time = true := by
  cases h with
  | replay e haccepted => exact haccepted
  | sync a b hb => simp at hb

theorem Follows.of_prunePending {after : AppState} {accepted : List Block}
    (h : Follows cfg i s after a (.prunePending accepted)) :
    ∀ block ∈ accepted, block ∈ after.chain.blocks := by
  cases h with
  | prune a accepted hheld => exact hheld
  | sync a b hb => simp at hb

theorem Follows.of_buildMined {after : AppState} {key : LocalValidatorKey}
    {plan : Blockchain.MinePlan} {depth : UInt64}
    (h : Follows cfg i s after a (.buildMined key plan depth)) :
    Blockchain.planMine cfg.node key s.chain s.pendingTransactions i.now.time i.id i.stamp =
      ok plan := by
  cases h with
  | buildMined key plan depth hplan => exact hplan
  | sync a b hb => simp at hb

theorem Follows.of_finishMine {after : AppState} {key : LocalValidatorKey}
    {plan : Blockchain.MinePlan} {built : Block} {depth : UInt64}
    (h : Follows cfg i s after a (.finishMine key plan built depth)) :
    a = .buildMined key plan depth ∧ plan.build cfg.node i.now.time = ok built := by
  cases h with
  | finishMine key plan built depth hbuild => exact ⟨rfl, hbuild⟩
  | sync a b hb => simp at hb

/-! ## What is said -/

/-- An action says something. -/
inductive Says (cfg : Settings) (i : Surroundings) (s : AppState) : ServerAction → Output → Prop
  | answered (a : ServerAction) (source : Source) (response : ApiResponse) :
    Says cfg i s a (.answered source response)
  | mined (a : ServerAction) (response : MiningResponse) : Says cfg i s a (.mined response)
  | submitted (a : ServerAction) (tx : Transaction) (result : Submission) :
    Says cfg i s a (.submitted tx result)
  | received (e : P2PEnvelope) (hnew : (s.seenMessages.insert e.messageId).1 = true) :
    Says cfg i s (.replay e) (.received e)
  | penalized (e : P2PEnvelope) (hnode : ¬ blank e.nodeId) :
    Says cfg i s (.penalizePeer e) (.penalized e)
  | transaction (tx : Transaction) : Says cfg i s (.gossipTransaction tx)
    (.sent (cfg.finalize i (.transaction tx)) s.peers)
  | block (block : Block) : Says cfg i s (.gossipBlock block)
    (.sent (cfg.finalize i (.block block)) s.peers)

theorem runBegin_words {request : Request} (h : runBegin cfg i s request = some turn)
    (ho : o ∈ turn.words) : Says cfg i s (.begin request) o := by
  cases request with
  | message authorized e =>
    rw [runBegin] at h
    split at h
    · cases h
      rw [List.mem_singleton.mp ho]
      exact .answered _ _ _
    · rcases settle_eq_some.mp h with ⟨_, -, rfl⟩ | ⟨_, -, rfl⟩
      · exact absurd ho mem_words_goOn
      · exact absurd ho mem_words_goOn
  | receiveBlock authorized block =>
    rw [runBegin] at h
    split at h <;> cases h
    · rw [List.mem_singleton.mp ho]
      exact .answered _ _ _
    · exact absurd ho mem_words_goOn
  | receiveBlocks authorized blocks =>
    rw [runBegin] at h
    split at h <;> cases h
    · rw [List.mem_singleton.mp ho]
      exact .answered _ _ _
    · exact absurd ho mem_words_goOn
  | queueTransaction tx =>
    rw [runBegin] at h
    split at h
    · cases h
      rw [List.mem_singleton.mp ho]
      exact .submitted _ _ _
    · rcases settle_eq_some.mp h with ⟨_, -, rfl⟩ | ⟨_, -, rfl⟩
      · exact absurd ho mem_words_goOn
      · rw [List.mem_singleton.mp ho]
        exact .submitted _ _ _
  | issueCertificate authorized id issuedTo =>
    rw [runBegin] at h
    split at h <;> cases h
    · rw [List.mem_singleton.mp ho]
      exact .answered _ _ _
    · exact absurd ho mem_words_goOn
  | mineBlock =>
    rw [runBegin] at h
    split at h <;> cases h
    · rw [List.mem_singleton.mp ho]
      exact .mined _ _
    · exact absurd ho mem_words_goOn
  | submitBlock block =>
    cases h
    exact absurd ho mem_words_goOn
  | updateGovernance authorized slashPercent finalityDepth =>
    rw [runBegin] at h
    split_ifs at h <;> cases h
    · rw [List.mem_singleton.mp ho]
      exact .answered _ _ _
    · rw [List.mem_singleton.mp ho]
      exact .answered _ _ _
    · exact absurd ho mem_words_goOn
    · rw [List.mem_singleton.mp ho]
      exact .answered _ _ _
  | learnPeers candidates =>
    cases h
    exact absurd ho List.not_mem_nil
  | catchUp target =>
    cases h
    exact absurd ho mem_words_goOn

theorem runPayload_words (h : runPayload cfg s e = some turn) (ho : o ∈ turn.words) :
    Says cfg i s (.payload e) o := by
  unfold runPayload at h
  split at h
  · cases h
    rw [List.mem_singleton.mp ho]
    exact .answered _ _ _
  · split at h <;> cases h
    · rw [List.mem_singleton.mp ho]
      exact .answered _ _ _
    · exact absurd ho mem_words_goOn
  · split at h
    · cases h
      rw [List.mem_singleton.mp ho]
      exact .answered _ _ _
    · rcases settle_eq_some.mp h with ⟨_, -, rfl⟩ | ⟨_, -, rfl⟩
      · split at ho <;> exact absurd ho mem_words_goOn
      · exact absurd ho mem_words_goOn
  · cases h
    exact absurd ho mem_words_goOn
  · cases h
    exact absurd ho mem_words_goOn

/-- What an action can say. -/
theorem run_words (h : cfg.run i s a = some turn) (ho : o ∈ turn.words) : Says cfg i s a o := by
  cases a with
  | begin request => exact runBegin_words h ho
  | penalizePeer e =>
    rw [run] at h
    split at h
    · cases h
      exact absurd ho mem_words_goOn
    · next hnode =>
      cases h
      rw [List.mem_singleton.mp ho]
      exact .penalized e hnode
  | rewardPeer e =>
    rw [run] at h
    split at h <;> cases h <;> exact absurd ho List.not_mem_nil
  | gate e =>
    rw [run] at h
    split at h <;> cases h
    · exact absurd ho mem_words_goOn
    · rw [List.mem_singleton.mp ho]
      exact .answered _ _ _
  | replay e =>
    rw [run] at h
    split at h
    · next hnew =>
      cases h
      rw [List.mem_singleton.mp ho]
      exact .received e hnew
    · cases h
      rw [List.mem_singleton.mp ho]
      exact .answered _ _ _
  | payload e => exact runPayload_words h ho
  | admitGossip e tx =>
    rcases settle_eq_some.mp h with ⟨_, -, rfl⟩ | ⟨_, -, rfl⟩ <;> exact absurd ho mem_words_goOn
  | acceptPeerBlock source block depth =>
    rcases settle_eq_some.mp h with ⟨_, -, rfl⟩ | ⟨_, -, rfl⟩ <;> exact absurd ho List.not_mem_nil
  | acceptPeerBlocks source blocks depth accepted =>
    cases blocks with
    | nil =>
      cases h
      exact absurd ho mem_words_goOn
    | cons block rest =>
      rcases settle_eq_some.mp h with ⟨_, -, rfl⟩ | ⟨_, -, rfl⟩ <;> exact absurd ho List.not_mem_nil
  | prunePending accepted =>
    cases h
    exact absurd ho mem_words_goOn
  | persistState =>
    rw [run] at h
    split at h <;> cases h <;> exact absurd ho mem_words_goOn
  | answer source response =>
    cases h
    rw [List.mem_singleton.mp ho]
    exact .answered _ _ _
  | enqueue tx =>
    have h : runEnqueue cfg s tx = some turn := h
    have hsubmitted : ∃ result, o = .submitted tx result := by
      unfold runEnqueue at h
      split at h
      · cases h
        exact ⟨_, List.mem_singleton.mp ho⟩
      · split at h
        · cases h
          exact ⟨_, List.mem_singleton.mp ho⟩
        · rcases settle_eq_some.mp h with ⟨_, -, rfl⟩ | ⟨_, -, rfl⟩
          · exact ⟨_, List.mem_singleton.mp ho⟩
          · exact ⟨_, List.mem_singleton.mp ho⟩
    obtain ⟨result, rfl⟩ := hsubmitted
    exact .submitted _ _ _
  | gossipTransaction tx =>
    rw [run] at h
    split at h <;> cases h
    · exact absurd ho mem_words_goOn
    · rw [List.mem_singleton.mp ho]
      exact .transaction tx
  | gossipBlock block =>
    cases h
    rw [List.mem_singleton.mp ho]
    exact .block block
  | planMine key depth =>
    rcases settle_eq_some.mp h with ⟨_, -, rfl⟩ | ⟨_, -, rfl⟩
    · exact absurd ho mem_words_goOn
    · rw [List.mem_singleton.mp ho]
      exact .mined _ _
  | buildMined key plan depth =>
    rcases settle_eq_some.mp h with ⟨_, -, rfl⟩ | ⟨_, -, rfl⟩
    · exact absurd ho mem_words_goOn
    · rw [List.mem_singleton.mp ho]
      exact .mined _ _
  | finishMine key plan built depth =>
    rcases settle_eq_some.mp h with ⟨⟨_, _, _, _⟩, -, rfl⟩ | ⟨_, -, rfl⟩
    · rw [List.mem_singleton.mp ho]
      exact .mined _ _
    · rw [List.mem_singleton.mp ho]
      exact .mined _ _
  | submit block depth =>
    rcases settle_eq_some.mp h with ⟨⟨_, _⟩, -, rfl⟩ | ⟨_, -, rfl⟩
    · rw [List.mem_singleton.mp ho]
      exact .mined _ _
    · rw [List.mem_singleton.mp ho]
      exact .mined _ _
  | syncWithPeers =>
    rw [run] at h
    split at h <;> cases h <;> exact absurd ho mem_words_goOn
  | readDepth peers =>
    cases h
    exact absurd ho mem_words_goOn
  | adoptFrom peers depth =>
    cases peers with
    | zero =>
      cases h
      exact absurd ho mem_words_goOn
    | succ peers =>
      have h : runAdoptFrom cfg i s depth (peers + 1) = some turn := h
      rw [runAdoptFrom] at h
      split at h
      · cases h
        exact absurd ho mem_words_goOn
      · rcases settle_eq_some.mp h with ⟨adopted, -, rfl⟩ | ⟨_, -, rfl⟩
        · cases adopted <;> exact absurd ho mem_words_goOn
        · exact absurd ho mem_words_goOn
  | download target depth batches =>
    cases batches with
    | zero =>
      cases h
      exact absurd ho mem_words_goOn
    | succ batches =>
      rcases settle_eq_some.mp h with ⟨_, -, rfl⟩ | ⟨_, -, rfl⟩ <;> exact absurd ho mem_words_goOn
  | appendFetched target depth batches =>
    have h : runAppendFetched cfg i s target depth batches = some turn := h
    unfold runAppendFetched at h
    split at h
    · cases h
      exact absurd ho mem_words_goOn
    · cases h
      exact absurd ho mem_words_goOn
    · rcases settle_eq_some.mp h with ⟨⟨_, _, _⟩, -, rfl⟩ | ⟨_, -, rfl⟩
      · exact absurd ho mem_words_goOn
      · exact absurd ho mem_words_goOn

/-! ## Envelopes -/

/-- What comes after an action about an envelope is about that envelope; the envelope of an
authorized message comes in. -/
theorem Follows.envelope {after : AppState} (h : Follows cfg i s after a b)
    (hb : b.envelope = some e) : a.envelope = some e ∨ a = .begin (.message true e) := by
  cases h with
  | gate e' => exact Or.inr (by rw [← Option.some.inj hb])
  | refused e' => exact Or.inr (by rw [← Option.some.inj hb])
  | accept a source block depth hsource =>
    cases source with
    | envelope e' =>
      rw [(hsource e' rfl).1]
      exact Or.inl hb
    | route => cases hb
  | acceptAll a source blocks depth accepted hsource =>
    cases source with
    | envelope e' =>
      rw [hsource e' rfl]
      exact Or.inl hb
    | route => cases hb
  | sync a b hsync =>
    rcases hsync with rfl | ⟨_, rfl⟩ | ⟨_, _, rfl⟩ | ⟨_, _, _, rfl⟩ | ⟨_, _, _, rfl⟩ <;> cases hb
  | replay e' => exact Or.inl hb
  | payload e' => exact Or.inl hb
  | gossiped e' => exact Or.inl hb
  | invalid e' => exact Or.inl hb
  | useful e' => exact Or.inl hb
  | inapplicable e' => exact Or.inl hb
  | credited e' => exact Or.inl hb
  | blamed e' => exact Or.inl hb
  | _ => cases hb

/-- What is counted concerns the envelope of the action. -/
theorem Says.envelope (h : Says cfg i s a o) (ho : o.envelope = some e) : a.envelope = some e := by
  cases h with
  | received e' => exact ho
  | penalized e' => exact ho
  | _ => cases ho

end Settings

/-! ## Runs -/

/-- Handlers start with a request. -/
def Requested : ServerEvent → Prop
  | .arrive actions => ∃ request, actions = [.begin request]
  | _ => True

namespace Settings

variable {cfg : Settings} {Allowed : ServerConfig → ServerEvent → Prop} {c : ServerConfig}

/-- The node has just come up. -/
def Starts (cfg : Settings) (c : ServerConfig) : Prop :=
  ∃ disk state, cfg.boot disk = some state ∧ c = ⟨state, [], [], []⟩

/-- The node gets from `start` to `c` by requests, actions and restarts that are allowed where
they happen. -/
def Runs (cfg : Settings) (Allowed : ServerConfig → ServerEvent → Prop)
    (start c : ServerConfig) : Prop :=
  cfg.server.Reaches (fun c e => Requested e ∧ Allowed c e) start c

/-- What the node reaches after it has come up. -/
def Reachable (cfg : Settings) (Allowed : ServerConfig → ServerEvent → Prop)
    (c : ServerConfig) : Prop :=
  ∃ start, cfg.Starts start ∧ cfg.Runs Allowed start c

/-- An invariant of the node. -/
theorem Reachable.invariant {P : ServerConfig → Prop} (h : cfg.Reachable Allowed c)
    (hstart : ∀ c, cfg.Starts c → P c)
    (hstep : ∀ c c' e, cfg.Reachable Allowed c → P c → Requested e → Allowed c e →
      cfg.server.step c e = some c' → P c') : P c := by
  obtain ⟨start, hstarts, hreaches⟩ := h
  exact hreaches.invariant (hstart start hstarts) fun c c' e hc hp hallowed hnext =>
    hstep c c' e ⟨start, hstarts, hc⟩ hp hallowed.1 hallowed.2 hnext

/-- A request that has arrived waits, and no other action. -/
theorem pending_arrive {request : Request} {b : ServerAction} (hb : ∀ request, b ≠ .begin request)
    (h : System.Pending { c with handlers := c.handlers ++ [[.begin request]] } b) :
    System.Pending c b := by
  obtain ⟨stack, hstack, hmem⟩ := h
  rcases List.mem_append.mp hstack with hstack | hstack
  · exact ⟨stack, hstack, hmem⟩
  · rw [List.mem_singleton.mp hstack, List.mem_singleton] at hmem
    exact absurd hmem (hb _)

end Settings
