/-
# Startup

A node without a snapshot comes up with its initial chain, when that one replays; a toy node
does, and what it reaches by requests served one after the other is a run of the service.
-/
import Mathlib.Tactic
import Hikmalayer.Node.Turns
import Hikmalayer.Authorization.Envelope
import Hikmalayer.Consensus.Finality
import Hikmalayer.Consensus.Rounds

open Outcome

namespace P2PEnvelope

/-- What validation checks. -/
theorem validateWithIdentity_eq_ok {E : Env} {e : P2PEnvelope} {skew : ℕ} {required : Bool}
    {now : DateTime} : e.validateWithIdentity E skew required now = ok () ↔
      e.protocolVersion = p2pProtocolVersion ∧ ¬ blank e.nodeId ∧ ¬ blank e.messageId ∧
      e.Fresh skew now ∧ (required = true ∨ e.signature ≠ none → e.verifyIdentity E = ok ()) := by
  simp only [validateWithIdentity, Outcome.bind_eq_ok, ensure_eq_ok]
  by_cases hidentity : required = true ∨ e.signature ≠ none
  · rw [if_pos hidentity]
    constructor
    · rintro ⟨_, hversion, _, hnode, _, hid, _, hfresh, hverify⟩
      exact ⟨hversion, hnode, hid, hfresh, fun _ => hverify⟩
    · rintro ⟨hversion, hnode, hid, hfresh, hverify⟩
      exact ⟨(), hversion, (), hnode, (), hid, (), hfresh, hverify hidentity⟩
  · rw [if_neg hidentity]
    constructor
    · rintro ⟨_, hversion, _, hnode, _, hid, _, hfresh, -⟩
      exact ⟨hversion, hnode, hid, hfresh, fun h => absurd h hidentity⟩
    · rintro ⟨hversion, hnode, hid, hfresh, -⟩
      exact ⟨(), hversion, (), hnode, (), hid, (), hfresh, rfl⟩

end P2PEnvelope

namespace Settings

variable {cfg : Settings} {Allowed : ServerConfig → ServerEvent → Prop} {start c c' : ServerConfig}

/-- What a node comes up with: a rebuilt chain with its final height, what the snapshot holds
besides, and nothing seen. -/
theorem boot_eq_some {disk : Option AppSnapshot} {s : AppState} (h : cfg.boot disk = some s) :
    ∃ booted chain, cfg.bootChain disk = some booted ∧
      (booted.applyFinality ((disk.map AppSnapshot.finalityDepth).getD cfg.defaultDepth) :
        Outcome String Blockchain) = ok chain ∧
      s = {
        chain := chain
        pendingTransactions := (disk.map AppSnapshot.pendingTransactions).getD []
        peers := addPeers ((disk.map AppSnapshot.peers).getD []) cfg.bootnodes
        finalityDepth := (disk.map AppSnapshot.finalityDepth).getD cfg.defaultDepth
        seenMessages := .new seenCapacity
        peerBook := .withAllowList cfg.allowList
        disk := disk } := by
  obtain ⟨booted, hbooted, hfinal⟩ := Option.bind_eq_some_iff.mp h
  refine ⟨booted, ?_⟩
  cases hchain : (booted.applyFinality ((disk.map AppSnapshot.finalityDepth).getD cfg.defaultDepth) :
      Outcome String Blockchain) with
  | ok chain =>
    simp only [hchain] at hfinal
    exact ⟨chain, hbooted, rfl, (Option.some.inj hfinal).symm⟩
  | err e =>
    simp only [hchain] at hfinal
    cases hfinal
  | panicked =>
    simp only [hchain] at hfinal
    cases hfinal

/-- Without a snapshot the node comes up with its initial chain. -/
theorem boot_none {chain : Blockchain} (hderived : Blockchain.Derived cfg.node cfg.initialChain)
    (hfinal : (cfg.initialChain.applyFinality cfg.defaultDepth : Outcome String Blockchain) =
      ok chain) :
    cfg.boot none = some {
      chain := chain
      pendingTransactions := []
      peers := addPeers [] cfg.bootnodes
      finalityDepth := cfg.defaultDepth
      seenMessages := .new seenCapacity
      peerBook := .withAllowList cfg.allowList
      disk := none } := by
  have hrebuilt : Blockchain.rebuildState cfg.node
      ((Option.map AppSnapshot.chain none).getD cfg.initialChain) = ok cfg.initialChain :=
    hderived.rebuildState
  have hdepth : (Option.map AppSnapshot.finalityDepth none).getD cfg.defaultDepth =
      cfg.defaultDepth := rfl
  unfold boot bootChain
  rw [hrebuilt, hdepth]
  simp only [Option.bind_eq_bind, Option.bind_some, hfinal]
  rfl

/-- Every event may happen. -/
def Unrestricted (_ : ServerConfig) (_ : ServerEvent) : Prop := True

/-- The next action of a handler that is served at one go. -/
theorem served_cons {i : Surroundings} {a : ServerAction} {next rest : List ServerAction} {t : AppState}
    {words : List Output} (hrun : cfg.run i c.state a = some ⟨t, next, [], words⟩)
    (hallowed : Allowed { c with handlers := c.handlers ++ [a :: rest] }
      (.run c.handlers.length i))
    (h : System.Served cfg.server (fun c e => Requested e ∧ Allowed c e)
      ⟨t, c.handlers, c.said ++ words, c.inputs ++ [i]⟩ (next ++ rest) c') :
    System.Served cfg.server (fun c e => Requested e ∧ Allowed c e) c (a :: rest) c' :=
  System.Served.cons hrun ⟨trivial, hallowed⟩ h

/-- A run goes on with a request that is served at one go. -/
theorem Runs.serve {request : Request} (h : cfg.Runs Allowed start c)
    (harrive : Allowed c (.arrive [.begin request]))
    (hserved : System.Served cfg.server (fun c e => Requested e ∧ Allowed c e) c [.begin request] c') :
    cfg.Runs Allowed start { c' with handlers := c'.handlers ++ [[]] } :=
  System.Reaches.serve h ⟨⟨request, rfl⟩, harrive⟩ hserved

/-- A valid envelope is taken to the gate. -/
theorem run_look {i : Surroundings} {s : AppState} {e : P2PEnvelope}
    (hvalid : e.validateWithIdentity cfg.node maxEnvelopeSkew cfg.requireIdentity i.now.time =
      ok ()) : cfg.run i s (.begin (.message true e)) = some ⟨s, [.gate e], [], []⟩ := by
  rw [run, runBegin, if_neg (by simp), hvalid]
  rfl

/-- The gate lets the envelopes of an accepted node through. -/
theorem run_gate {i : Surroundings} {s : AppState} {e : P2PEnvelope}
    (haccepted : s.peerBook.isAccepted e.nodeId i.now.time = true) :
    cfg.run i s (.gate e) = some ⟨s, [.replay e], [], []⟩ := by
  rw [run, if_pos haccepted]
  rfl

/-- An envelope with a new id is taken as no replay. -/
theorem run_replay {i : Surroundings} {s : AppState} {e : P2PEnvelope}
    (hnew : e.messageId ∉ s.seenMessages.seen) : cfg.run i s (.replay e) =
      some ⟨{ s with seenMessages := (s.seenMessages.insert e.messageId).2 }, [.payload e], [],
        [.received e]⟩ := by
  rw [run, if_pos (SeenMessageCache.insert_new hnew)]

/-- A valid greeting with a new id, of a node that is accepted, is answered at one go. -/
theorem Runs.ping {i : Surroundings} {e : P2PEnvelope} (h : cfg.Runs Allowed start c)
    (hping : e.payload = .ping)
    (hvalid : e.validateWithIdentity cfg.node maxEnvelopeSkew cfg.requireIdentity i.now.time = ok ())
    (haccepted : c.state.peerBook.isAccepted e.nodeId i.now.time = true)
    (hnew : e.messageId ∉ c.state.seenMessages.seen)
    (harrive : Allowed c (.arrive [.begin (.message true e)]))
    (hbegin : Allowed { c with handlers := c.handlers ++ [[.begin (.message true e)]] }
      (.run c.handlers.length i))
    (hlater : ∀ (c' : ServerConfig) (a : ServerAction) (rest : List ServerAction),
      a.envelope = some e → (∀ j ∈ c'.inputs, j ∈ c.inputs ∨ j = i) →
      (c'.state = c.state ∨ ∀ e, a ≠ .replay e) →
      Allowed { c' with handlers := c'.handlers ++ [a :: rest] } (.run c'.handlers.length i)) :
    cfg.Runs Allowed start ⟨{ c.state with
        seenMessages := (c.state.seenMessages.insert e.messageId).2 },
      c.handlers ++ [[]],
      c.said ++ [.received e, .answered (.envelope e) (.success "pong")],
      c.inputs ++ [i, i, i, i]⟩ := by
  have hpayload : ∀ s : AppState, cfg.run i s (.payload e) =
      some ⟨s, [], [], [.answered (.envelope e) (.success "pong")]⟩ := by
    intro s
    rw [run, runPayload, hping]
    rfl
  have hserved := h.serve harrive (served_cons (run_look hvalid) hbegin
    (served_cons (run_gate haccepted) (hlater _ _ _ rfl (by simp) (by simp))
      (served_cons (run_replay hnew) (hlater _ _ _ rfl (by simp) (by simp))
        (served_cons (hpayload _) (hlater _ _ _ rfl (by simp) (by simp)) (.nil _)))))
  simpa using hserved

end Settings

/-! ## A toy node -/

namespace Sample

open Blockchain

/-- A node of the toy network without keys that asks its peers for their identity. -/
def settings (pool : List Transaction) : Settings where
  node := node pool
  requireIdentity := true
  validatorKey := none
  nodeId := "node"
  nodeKey := none
  initialChain := root pool 1000000000000000000
  freshChain := root pool 1000000000000000000
  bootnodes := []
  allowList := ∅
  defaultDepth := 6

/-- The state it comes up with. -/
def firstState (pool : List Transaction) : AppState where
  chain := root pool 1000000000000000000
  pendingTransactions := []
  peers := []
  finalityDepth := 6
  seenMessages := .new seenCapacity
  peerBook := .withAllowList ∅
  disk := none

/-- The node has just come up. -/
def firstConfig (pool : List Transaction) : ServerConfig := ⟨firstState pool, [], [], []⟩

theorem applyFinality_root (pool : List Transaction) :
    ((root pool 1000000000000000000).applyFinality 6 : Outcome String Blockchain) =
      ok (root pool 1000000000000000000) := by
  have hne : (root pool 1000000000000000000).blocks ≠ [] := List.cons_ne_nil _ _
  have htip : ((root pool 1000000000000000000).tipIndex : Outcome String UInt64) = ok 0 :=
    tipIndex_of_lt hne (by show 0 + 1 < 2 ^ 64; norm_num)
  exact (applyFinality_eq_ok hne).mpr ⟨0, htip, 0, rfl, rfl⟩

theorem boot_settings (pool : List Transaction) :
    (settings pool).boot none = some (firstState pool) :=
  Settings.boot_none (derived_genesis newWithGenesisOnChain_root) (applyFinality_root pool)

theorem starts_firstConfig (pool : List Transaction) : (settings pool).Starts (firstConfig pool) :=
  ⟨none, firstState pool, boot_settings pool, rfl⟩

variable {pool : List Transaction} {Allowed : ServerConfig → ServerEvent → Prop} {c : ServerConfig}

theorem runs_firstConfig : (settings pool).Runs Allowed (firstConfig pool) (firstConfig pool) :=
  .start

theorem reachable_of_runs (h : (settings pool).Runs Allowed (firstConfig pool) c) :
    (settings pool).Reachable Allowed c := ⟨firstConfig pool, starts_firstConfig pool, h⟩

theorem address_written (n : UInt8) : blank (address n) = false := by
  have hh : isWhitespace 'h' = false := by decide
  have hchars : ∃ rest, (address n).toList = 'h' :: rest := by
    rw [address, String.toList_append]
    exact ⟨_, rfl⟩
  obtain ⟨rest, hrest⟩ := hchars
  rw [blank, hrest, List.all_cons, hh, Bool.false_and]

/-- What a holder signs in the morning is valid then. -/
theorem validate_sealEnvelope (pool : List Transaction) (n : UInt8) {e : P2PEnvelope}
    (hversion : e.protocolVersion = p2pProtocolVersion) (hid : ¬ blank e.messageId)
    (htime : e.timestamp = morning) :
    (sealEnvelope pool n e).validateWithIdentity (env pool) maxEnvelopeSkew true
      morningReading.time = ok () := by
  have hnode : ¬ blank (address n) := by
    rw [address_written n]
    simp
  refine P2PEnvelope.validateWithIdentity_eq_ok.mpr ⟨hversion, hnode, hid, ?_, fun _ =>
    P2PEnvelope.verifyIdentity_signed (nodeKey_sound pool n) (signed_nodeKey pool n e)⟩
  show (morning.numSecondsSince e.timestamp).natAbs ≤ maxEnvelopeSkew
  rw [htime]
  decide

/-- A morning without a disk and without peers that answer. -/
def quietMorning : Surroundings where
  now := morningReading
  stamp := morning
  id := "fresh"
  id_written := by decide
  stored := false
  remote := none
  fetched := none

/-- The `n`-th id of a flood. -/
def floodId (n : ℕ) : String := String.ofList ('f' :: List.replicate n 'x')

theorem floodId_injective {m n : ℕ} (h : floodId m = floodId n) : m = n := by
  have hlist := congrArg (fun s : String => s.toList.length) h
  simpa [floodId] using hlist

theorem floodId_ne_hello (n : ℕ) : floodId n ≠ "hello" := by
  intro h
  have hlist := congrArg String.toList h
  rw [floodId, String.toList_ofList] at hlist
  exact absurd (List.cons.inj hlist).1 (by decide)

theorem floodId_written (n : ℕ) : ¬ blank (floodId n) := by
  have hf : isWhitespace 'f' = false := by decide
  rw [floodId, blank, String.toList_ofList, List.all_cons, hf, Bool.false_and]
  simp

end Sample
