/-
# The node's service

The handlers of `api/routes.rs`, the syncer of `p2p/sync.rs` and the startup of `main.rs`, as
far as they touch the chain, the pool, the peers and the snapshot on disk.  One action is what
a handler does under the locks that it takes together; between two actions other handlers run.
The wall clock, fresh ids, the disk and what peers serve are inputs of an action.
-/
import Mathlib.Tactic
import Hikmalayer.Foundations.Handlers
import Hikmalayer.Model.Mining
import Hikmalayer.Model.Protocol

open Outcome

/-- Most transactions the pool holds. -/
def maxPendingTxs : ℕ := 1000

/-- How far an envelope's timestamp may be off, in seconds. -/
def maxEnvelopeSkew : ℕ := 300

/-- Ids the replay cache remembers. -/
def seenCapacity : ℕ := 8192

/-- Range requests of one pass of the syncer. -/
def maxBatchesPerPass : ℕ := 64

/-! ## The state -/

/-- What a snapshot keeps of a chain: derived fields are recomputed. -/
def Blockchain.persisted (chain : Blockchain) : Blockchain :=
  { chain with
    state := .empty
    randomness := ""
    currentDifficulty := 0 }

/-- What is written to disk.  Balances, stakes and nonces are not stored. -/
structure AppSnapshot where
  chain : Blockchain
  pendingTransactions : List Transaction
  peers : List String
  finalityDepth : UInt64

/-- What the handlers share, and the snapshot on disk. -/
structure AppState where
  chain : Blockchain
  pendingTransactions : List Transaction
  peers : List String
  finalityDepth : UInt64
  seenMessages : SeenMessageCache
  peerBook : PeerBook
  disk : Option AppSnapshot

/-- What is saved of the state. -/
def AppState.snapshot (s : AppState) : AppSnapshot where
  chain := s.chain.persisted
  pendingTransactions := s.pendingTransactions
  peers := s.peers
  finalityDepth := s.finalityDepth

/-- How a node is set up. -/
structure Settings where
  node : Node
  /-- `p2p_require_identity`. -/
  requireIdentity : Bool
  validatorKey : Option LocalValidatorKey
  /-- The node id of outgoing envelopes, and the key that signs them. -/
  nodeId : String
  nodeKey : Option NodeKey
  /-- The chain of a node without a snapshot: from a checkpoint bundle, or fresh. -/
  initialChain : Blockchain
  freshChain : Blockchain
  /-- The entries of `BOOTNODES` and `P2P_ALLOWLIST`. -/
  bootnodes : List String
  allowList : Finset String
  /-- The finality depth before it is governed. -/
  defaultDepth : UInt64

/-- What the outside supplies to an action. -/
structure Surroundings where
  /-- The clock. -/
  now : DateTime.Reading
  /-- A later look at the clock, for a fresh transaction. -/
  stamp : DateTime
  /-- A fresh id. -/
  id : String
  id_written : blank id = false
  /-- Whether the snapshot gets to disk. -/
  stored : Bool
  /-- The chain and the blocks that a peer serves, if it answers. -/
  remote : Option Blockchain
  fetched : Option (List Block)

/-! ## Answers -/

structure ApiResponse where
  status : String
  message : String
  deriving DecidableEq, Repr

namespace ApiResponse

def success (message : String) : ApiResponse := ⟨"success", message⟩
def error (message : String) : ApiResponse := ⟨"error", message⟩

end ApiResponse

/-- Who handed in a block: the sender of an envelope, or a caller of the block routes. -/
inductive Source where
  | envelope (e : P2PEnvelope)
  | route

/-- The result of `queue_transaction`. -/
inductive Submission where
  | refused (message : String)
  | alreadyQueued
  | queued

/-- What can be seen of the node: its answers, what it counts, and what it sends to peers. -/
inductive Output where
  | answered (source : Source) (response : ApiResponse)
  | mined (response : MiningResponse)
  | submitted (transaction : Transaction) (result : Submission)
  | received (e : P2PEnvelope)
  | penalized (e : P2PEnvelope)
  | sent (e : P2PEnvelope) (targets : List String)

/-! ## Actions -/

inductive Request where
  | message (authorized : Bool) (e : P2PEnvelope)
  | receiveBlock (authorized : Bool) (block : Block)
  | receiveBlocks (authorized : Bool) (blocks : List Block)
  | queueTransaction (transaction : Transaction)
  | issueCertificate (authorized : Bool) (id issuedTo : String)
  | mineBlock
  | submitBlock (block : Block)
  | updateGovernance (authorized : Bool) (slashPercent finalityDepth : UInt64)
  | learnPeers (candidates : List String)
  | catchUp (target : UInt64)

inductive ServerAction where
  | begin (request : Request)
  /-- `receive_protocol_message`. -/
  | penalizePeer (e : P2PEnvelope)
  | rewardPeer (e : P2PEnvelope)
  | gate (e : P2PEnvelope)
  | replay (e : P2PEnvelope)
  | payload (e : P2PEnvelope)
  | admitGossip (e : P2PEnvelope) (transaction : Transaction)
  | acceptPeerBlock (source : Source) (block : Block) (finalityDepth : UInt64)
  | acceptPeerBlocks (source : Source) (blocks : List Block) (finalityDepth : UInt64)
      (accepted : ℕ)
  | prunePending (accepted : List Block)
  | persistState
  | answer (source : Source) (response : ApiResponse)
  /-- `queue_transaction`. -/
  | enqueue (transaction : Transaction)
  | gossipTransaction (transaction : Transaction)
  | gossipBlock (block : Block)
  /-- `mine_block` and `submit_block`. -/
  | planMine (key : LocalValidatorKey) (finalityDepth : UInt64)
  | buildMined (key : LocalValidatorKey) (plan : Blockchain.MinePlan) (finalityDepth : UInt64)
  | finishMine (key : LocalValidatorKey) (plan : Blockchain.MinePlan) (block : Block)
      (finalityDepth : UInt64)
  | submit (block : Block) (finalityDepth : UInt64)
  /-- `sync_with_peers`, and `download_from` of the syncer. -/
  | syncWithPeers
  | readDepth (peers : ℕ)
  | adoptFrom (peers : ℕ) (finalityDepth : UInt64)
  | download (target finalityDepth : UInt64) (batches : ℕ)
  | appendFetched (target finalityDepth : UInt64) (batches : ℕ)

/-- What one action does to the node. -/
abbrev ServerTurn := System.Turn AppState ServerAction Output

namespace ServerTurn

/-- Go on to further actions with the state given. -/
def goOn (s : AppState) (next : List ServerAction) : ServerTurn := ⟨s, next, [], []⟩

/-- End with words. -/
def finish (s : AppState) (words : List Output) : ServerTurn := ⟨s, [], [], words⟩

end ServerTurn

open ServerTurn

/-- Add the peers that are not known yet. -/
def addPeers (peers candidates : List String) : List String :=
  candidates.foldl
    (fun peers candidate => if candidate ∈ peers then peers else peers ++ [candidate]) peers

/-! ## The chain -/

namespace Blockchain

/-- A vector holds fewer than `2 ^ 63` blocks. -/
def held (chain : Blockchain) : Outcome String Blockchain :=
  if chain.blocks.length < 2 ^ 63 then ok chain else panicked

/-- Validate a candidate and append it. -/
def append (E : Node) (now : DateTime) (chain : Blockchain) (block : Block) :
    Outcome String Blockchain := do
  let post ← validateBlockCandidate E chain now block
  let chain ← commitBlock E chain block post
  held chain

/-- Append a block that is handed in, and move finality. -/
def appendFinal (E : Node) (now : DateTime) (finalityDepth : UInt64) (chain : Blockchain)
    (block : Block) : Outcome String Blockchain := do
  let chain ← append E now chain block
  chain.applyFinality finalityDepth

/-- Append fetched blocks up to the first that fails; whether one failed. -/
def appendAll (E : Node) (now : DateTime) (accepted : List Block) (chain : Blockchain) :
    List Block → Outcome String (Blockchain × List Block × Bool)
  | [] => ok (chain, accepted, false)
  | block :: rest =>
    match append E now chain block with
    | ok chain => appendAll E now (accepted ++ [block]) chain rest
    | err _ => ok (chain, accepted, true)
    | panicked => panicked

/-- Move finality if something was appended. -/
def finalAfter (finalityDepth : UInt64) (accepted : List Block) (chain : Blockchain) :
    Outcome String Blockchain :=
  if accepted = [] then ok chain else chain.applyFinality finalityDepth

/-- Adopt a served chain, and move finality. -/
def adoptFinal (E : Node) (now : DateTime) (finalityDepth : UInt64) (chain remote : Blockchain) :
    Outcome String (Option Blockchain) :=
  match tryAdoptChain E chain remote now with
  | ok (true, chain) => do
    let chain ← held chain
    let chain ← chain.applyFinality finalityDepth
    return some chain
  | ok (false, _) => ok none
  | err _ => ok none
  | panicked => panicked

end Blockchain

/-! ## The pool -/

namespace ChainState

/-- The state with all queued transactions applied; one that fails is passed over. -/
def projectPendingState (E : Node) (nextHeight : UInt64) (state : ChainState) :
    List Transaction → Outcome String ChainState
  | [] => ok state
  | tx :: rest =>
    match applyVerified E tx nextHeight state with
    | ok r => projectPendingState E nextHeight r.2 rest
    | err e => projectPendingState E nextHeight e.2 rest
    | panicked => panicked

/-- Whether a transaction applies on top of everything queued. -/
def admits (E : Node) (state : ChainState) (pending : List Transaction) (nextHeight : UInt64)
    (tx : Transaction) : Outcome String Unit := do
  let projected ← projectPendingState E nextHeight state pending
  let _ ← (Exec.finalState (applyVerified E tx nextHeight) projected)
  return ()

/-- A pending transaction stays unless it was included or its nonce is used up. -/
def stillPending (state : ChainState) (includedIds : List String) (tx : Transaction) : Bool :=
  if tx.id ∈ includedIds then false
  else match tx.sender with
    | some sender => if 0 < tx.nonce then state.nonceOf sender < tx.nonce else true
    | none => true

end ChainState

/-- The ids of the transactions in the blocks, as far as these can be read. -/
def includedIds (E : Env) (blocks : List Block) : List String :=
  (blocks.flatMap Block.transactions).filterMap fun text => (E.parseTx text).map Transaction.id

/-- `Transaction::new` without a sender: the anchor of an issued certificate. -/
def Transaction.newCertificate (id : String) (timestamp : DateTime) (issuedTo : String) :
    Transaction where
  id := id
  sender := none
  recipient := issuedTo
  amount := 0
  transactionType := .certificate
  timestamp := timestamp
  nonce := 0
  publicKey := none
  signature := none
  slashProof := none
  vrfPublicKey := none
  credential := none
  vestingCliffBlocks := none
  vestingDurationBlocks := none
  token := none
  amm := none
  pqPublicKey := none
  pqSignature := none
  chainId := ""

namespace Settings

variable (cfg : Settings)

/-! ## Startup -/

/-- Rebuild the persisted chain, or the initial one; fall back to a fresh genesis. -/
def bootChain (disk : Option AppSnapshot) : Option Blockchain :=
  match Blockchain.rebuildState cfg.node ((disk.map AppSnapshot.chain).getD cfg.initialChain) with
  | ok chain => some chain
  | err _ => some cfg.freshChain
  | panicked => none

/-- The state that a node comes up with. -/
def boot (disk : Option AppSnapshot) : Option AppState := do
  let chain ← cfg.bootChain disk
  let depth := (disk.map AppSnapshot.finalityDepth).getD cfg.defaultDepth
  let chain ← match (chain.applyFinality depth : Outcome String Blockchain) with
    | ok chain => some chain
    | _ => none
  return {
    chain := chain
    pendingTransactions := (disk.map AppSnapshot.pendingTransactions).getD []
    peers := addPeers ((disk.map AppSnapshot.peers).getD []) cfg.bootnodes
    finalityDepth := depth
    seenMessages := .new seenCapacity
    peerBook := .withAllowList cfg.allowList
    disk := disk }

/-! ## Outgoing envelopes -/

/-- Sign with the node key; without one the envelope goes out as it is, and where signing
fails a greeting goes out. -/
def finalize (i : Surroundings) (payload : P2PPayload) : P2PEnvelope :=
  let e := P2PEnvelope.new cfg.nodeId i.id i.now.time payload
  match cfg.nodeKey with
  | none => e
  | some key =>
    match e.signed cfg.node key with
    | ok e => e
    | _ => .new cfg.nodeId i.id i.now.time .ping

end Settings

/-! ## Running an action -/

/-- Go on after a computation that returned or failed.  One that panics does not go through. -/
def settle {ε α : Type} (x : Outcome ε α) (onOk : α → ServerTurn) (onErr : ε → ServerTurn) :
    Option ServerTurn :=
  match x with
  | ok a => some (onOk a)
  | err e => some (onErr e)
  | panicked => none

theorem settle_eq_some {ε α : Type} {x : Outcome ε α} {onOk : α → ServerTurn}
    {onErr : ε → ServerTurn} {turn : ServerTurn} : settle x onOk onErr = some turn ↔
      (∃ a, x = ok a ∧ turn = onOk a) ∨ ∃ e, x = err e ∧ turn = onErr e := by
  cases x <;> simp [settle, eq_comm]

namespace Settings

variable (cfg : Settings) (i : Surroundings) (s : AppState)

/-- The answer to a request without a valid token. -/
def unauthorized (source : Source) : ServerTurn :=
  finish s [.answered source (.error "Unauthorized peer request")]

/-- A request's first action. -/
def runBegin : Request → Option ServerTurn
  | .message authorized e =>
    if ¬ authorized then some (unauthorized s (.envelope e))
    else settle (e.validateWithIdentity cfg.node maxEnvelopeSkew cfg.requireIdentity i.now.time)
      (fun _ => goOn s [.gate e])
      fun message => goOn s [.penalizePeer e, .answer (.envelope e) (.error message)]
  | .receiveBlock authorized block =>
    if ¬ authorized then some (unauthorized s .route)
    else some (goOn s [.acceptPeerBlock .route block s.finalityDepth])
  | .receiveBlocks authorized blocks =>
    if ¬ authorized then some (unauthorized s .route)
    else some (goOn s [.acceptPeerBlocks .route blocks s.finalityDepth 0])
  | .queueTransaction tx =>
    if tx.transactionType = .reward then some (finish s
      [.submitted tx (.refused "Reward transactions cannot be submitted")])
    else
      let tx := { tx with chainId := s.chain.state.chainId }
      settle (tx.verifyForBlock cfg.node "__queue__") (fun _ => goOn s [.enqueue tx])
        fun message => finish s [.submitted tx (.refused ("Invalid transaction: " ++ message))]
  | .issueCertificate authorized id issuedTo =>
    if ¬ authorized then some (finish s [.answered .route
      (.error "Unauthorized: certificate issuance requires the admin token")])
    else some (goOn
      { s with pendingTransactions :=
        s.pendingTransactions ++ [.newCertificate i.id i.stamp issuedTo] }
      [.persistState, .answer .route (.success ("Certificate " ++ id ++ " issued to " ++ issuedTo ++
        " and added to pending transactions"))])
  | .mineBlock =>
    match cfg.validatorKey with
    | none => some (finish s [.mined (.refused "error"
        ("This node has no validator key (set VALIDATOR_PRIVATE_KEY). " ++
          "External validators can use POST /mine/propose and /mine/submit."))])
    | some key => some (goOn s [.planMine key s.finalityDepth])
  | .submitBlock block => some (goOn s [.submit block s.finalityDepth])
  | .updateGovernance authorized slashPercent finalityDepth =>
    if ¬ authorized then some (finish s [.answered .route (.error "Unauthorized admin request")])
    else if slashPercent = 0 ∨ 100 < slashPercent then some (finish s
      [.answered .route (.error "slash_percent must be between 1 and 100")])
    else if finalityDepth = 0 ∨ 10000 < finalityDepth then some (finish s
      [.answered .route (.error "finality_depth must be between 1 and 10,000")])
    else some (goOn { s with finalityDepth := finalityDepth } [.persistState, .answer .route
      (.success ("Updated slash_percent to " ++ toString slashPercent ++
        " and finality_depth to " ++ toString finalityDepth))])
  | .learnPeers candidates =>
    some (finish { s with peers := addPeers s.peers candidates } [])
  | .catchUp target => some (goOn s [.download target s.finalityDepth maxBatchesPerPass])

/-- The answer to a transaction that does not stand on its own. -/
def invalidGossip (e : P2PEnvelope) : ServerTurn :=
  goOn s [.penalizePeer e, .answer (.envelope e) (.error "Invalid gossiped transaction")]

/-- Process the payload of an envelope that is no replay. -/
def runPayload (e : P2PEnvelope) : Option ServerTurn :=
  match e.payload with
  | .ping => some (finish s [.answered (.envelope e) (.success "pong")])
  | .peerAnnounce address =>
    if blank address then some (finish s
      [.answered (.envelope e) (.error "Peer address cannot be empty")])
    else some (goOn
      { s with peers := addPeers s.peers [address] }
      [.persistState, .answer (.envelope e) (.success ("Registered peer " ++ address))])
  | .transaction tx =>
    if s.pendingTransactions.any fun queued => queued.id = tx.id then some (finish s
      [.answered (.envelope e) (.success "Transaction already queued")])
    else settle (tx.verifyForBlock cfg.node "__queue__")
      (fun _ => if tx.transactionType ≠ .reward then goOn s [.admitGossip e tx]
        else invalidGossip s e)
      fun _ => invalidGossip s e
  | .block block => some (goOn s [.acceptPeerBlock (.envelope e) block s.finalityDepth])
  | .blockBatch blocks => some (goOn s [.acceptPeerBlocks (.envelope e) blocks s.finalityDepth 0])

/-- Queue a gossiped transaction that applies on top of the pool. -/
def runAdmitGossip (e : P2PEnvelope) (tx : Transaction) : Option ServerTurn :=
  settle (do
      let nextHeight ← s.chain.nextIndex
      s.chain.state.admits cfg.node s.pendingTransactions nextHeight tx)
    (fun _ => goOn { s with pendingTransactions := s.pendingTransactions ++ [tx] }
      [.rewardPeer e, .persistState, .answer (.envelope e) (.success "Transaction queued")])
    fun _ => goOn s [.penalizePeer e,
      .answer (.envelope e) (.error "Gossiped transaction not applicable")]

/-- Queue a submitted transaction that applies on top of the pool. -/
def runEnqueue (tx : Transaction) : Option ServerTurn :=
  if maxPendingTxs ≤ s.pendingTransactions.length then some (finish s
    [.submitted tx (.refused "Mempool is full; retry after the next block")])
  else if s.pendingTransactions.any fun queued => queued.id = tx.id then some (finish s
    [.submitted tx .alreadyQueued])
  else settle (s.chain.state.admits cfg.node s.pendingTransactions
      (UInt64.ofNat s.chain.blocks.length) tx)
    (fun _ => ⟨{ s with pendingTransactions := s.pendingTransactions ++ [tx] },
      [.persistState, .gossipTransaction tx], [], [.submitted tx .queued]⟩)
    fun message => finish s
      [.submitted tx (.refused ("Transaction not applicable: " ++ message))]

/-- What a refused block starts: on a tip mismatch, a synchronization. -/
def refusedBlock (message : String) : List (List ServerAction) :=
  if containsText message "chain tip" then [[.syncWithPeers]] else []

/-- What its sender pays for a refused block: nothing on a tip mismatch. -/
def blameFor (source : Source) (message : String) : List ServerAction :=
  match source with
  | .envelope e => if containsText message "chain tip" then [] else [.penalizePeer e]
  | .route => []

/-- What its sender gains by an accepted block. -/
def creditFor : Source → List ServerAction
  | .envelope e => [.rewardPeer e]
  | .route => []

/-- `accept_peer_block` for a single block. -/
def runAcceptPeerBlock (source : Source) (block : Block) (finalityDepth : UInt64) :
    Option ServerTurn :=
  settle (Blockchain.appendFinal cfg.node i.now.time finalityDepth s.chain block)
    (fun chain => goOn { s with chain := chain } ([.prunePending [block]] ++ creditFor source ++
      [.persistState, .answer source (.success "Block accepted")]))
    fun message => ⟨s, blameFor source message ++ [.answer source (.error message)],
      refusedBlock message, []⟩

/-- The end of a batch. -/
def endBatch (source : Source) (accepted : ℕ) : List ServerAction :=
  (if 0 < accepted then [.persistState] else []) ++
    [.answer source (.success ("Accepted " ++ toString accepted ++ " blocks"))]

/-- `accept_peer_block` for one block of a batch. -/
def runAcceptPeerBlocks (source : Source) (finalityDepth : UInt64) (accepted : ℕ) :
    List Block → Option ServerTurn
  | [] => some (goOn s (endBatch source accepted))
  | block :: rest =>
    settle (Blockchain.appendFinal cfg.node i.now.time finalityDepth s.chain block)
      (fun chain => goOn { s with chain := chain }
        [.prunePending [block], .acceptPeerBlocks source rest finalityDepth (accepted + 1)])
      fun message => ⟨s, endBatch source accepted, refusedBlock message, []⟩

/-- Seal, check and commit the mined block, then save and gossip it. -/
def runFinishMine (key : LocalValidatorKey) (plan : Blockchain.MinePlan) (block : Block)
    (finalityDepth : UInt64) : Option ServerTurn :=
  settle (do
      let (block, chain, pending) ← Blockchain.finishMine cfg.node key plan block finalityDepth
        i.now.time s.chain s.pendingTransactions
      let chain ← (Blockchain.held chain).mapErr (MiningResponse.refused "error")
      let height ← chain.tipIndex
      return (block, chain, pending, height))
    (fun (block, chain, pending, height) =>
      ⟨{ s with chain := chain, pendingTransactions := pending },
        [.persistState, .gossipBlock block], [], [.mined ⟨"success", "Successfully mined block " ++
          toString height ++ " with " ++ toString plan.plan.transactions.length ++
          " transactions. Validator: " ++ key.address, height,
          plan.plan.transactions.length⟩]⟩)
    fun response => finish s [.mined response]

/-- Accept a signed block, then save and gossip it. -/
def runSubmit (block : Block) (finalityDepth : UInt64) : Option ServerTurn :=
  settle (do
      let chain ← Blockchain.appendFinal cfg.node i.now.time finalityDepth s.chain block
      let height ← chain.tipIndex
      return (chain, height))
    (fun (chain, height) => ⟨{ s with chain := chain },
      [.prunePending [block], .persistState, .gossipBlock block], [],
      [.mined ⟨"success", "Signed block accepted at height " ++ toString height ++
        ". Validator: " ++ block.validator.getD "unknown", height, block.transactions.length⟩]⟩)
    fun message => finish s [.mined (.refused "error" message)]

/-- Ask the next peer for its chain and try to adopt it. -/
def runAdoptFrom (finalityDepth : UInt64) : ℕ → Option ServerTurn
  | 0 => some (goOn s [])
  | peers + 1 =>
    match i.remote with
    | none => some (goOn s [.adoptFrom peers finalityDepth])
    | some remote =>
      settle (Blockchain.adoptFinal cfg.node i.now.time finalityDepth s.chain remote)
        (fun adopted => match adopted with
          | some chain => goOn { s with chain := chain }
            [.prunePending [], .persistState, .adoptFrom peers finalityDepth]
          | none => goOn s [.adoptFrom peers finalityDepth])
        fun _ => goOn s [.adoptFrom peers finalityDepth]

/-- Append a fetched batch; on divergence hand over to fork choice. -/
def runAppendFetched (target finalityDepth : UInt64) (batches : ℕ) : Option ServerTurn :=
  match i.fetched with
  | none => some (goOn s [])
  | some [] => some (goOn s [])
  | some blocks =>
    settle (do
        let (chain, accepted, diverged) ←
          Blockchain.appendAll cfg.node i.now.time [] s.chain blocks
        let chain ← Blockchain.finalAfter finalityDepth accepted chain
        return (chain, accepted, diverged))
      (fun (chain, accepted, diverged) => goOn { s with chain := chain }
        ((if accepted = [] then [] else [.prunePending accepted, .persistState]) ++
          [if diverged then .adoptFrom 1 finalityDepth
            else .download target finalityDepth batches]))
      fun _ => goOn s []

/-- What an action does. -/
def run : ServerAction → Option ServerTurn
  | .begin request => runBegin cfg i s request
  | .penalizePeer e =>
    if blank e.nodeId then some (goOn s [])
    else some (finish { s with peerBook := (s.peerBook.recordBad e.nodeId i.now.time).2 }
      [.penalized e])
  | .rewardPeer e =>
    if blank e.nodeId then some (goOn s [])
    else some (finish { s with peerBook := s.peerBook.recordGood e.nodeId } [])
  | .gate e =>
    if s.peerBook.isAccepted e.nodeId i.now.time then some (goOn s [.replay e])
    else some (finish s [.answered (.envelope e) (.error "Peer is banned or not permitted")])
  | .replay e =>
    if (s.seenMessages.insert e.messageId).1 then some
      ⟨{ s with seenMessages := (s.seenMessages.insert e.messageId).2 }, [.payload e], [],
        [.received e]⟩
    else some (finish s [.answered (.envelope e) (.error "Duplicate P2P message rejected")])
  | .payload e => runPayload cfg s e
  | .admitGossip e tx => runAdmitGossip cfg s e tx
  | .acceptPeerBlock source block finalityDepth =>
    runAcceptPeerBlock cfg i s source block finalityDepth
  | .acceptPeerBlocks source blocks finalityDepth accepted =>
    runAcceptPeerBlocks cfg i s source finalityDepth accepted blocks
  | .prunePending accepted =>
    let still := s.chain.state.stillPending (includedIds cfg.node accepted)
    some (goOn { s with pendingTransactions := s.pendingTransactions.filter still } [])
  | .persistState =>
    if i.stored then some (goOn { s with disk := some s.snapshot } []) else some (goOn s [])
  | .answer source response => some (finish s [.answered source response])
  | .enqueue tx => runEnqueue cfg s tx
  | .gossipTransaction tx =>
    if s.peers = [] then some (goOn s [])
    else some (finish s [.sent (cfg.finalize i (.transaction tx)) s.peers])
  | .gossipBlock block => some (finish s [.sent (cfg.finalize i (.block block)) s.peers])
  | .planMine key finalityDepth =>
    settle (Blockchain.planMine cfg.node key s.chain s.pendingTransactions i.now.time i.id i.stamp)
      (fun plan => goOn s [.buildMined key plan finalityDepth])
      fun response => finish s [.mined response]
  | .buildMined key plan finalityDepth =>
    settle (plan.build cfg.node i.now.time)
      (fun block => goOn s [.finishMine key plan block finalityDepth])
      fun response => finish s [.mined response]
  | .finishMine key plan block finalityDepth => runFinishMine cfg i s key plan block finalityDepth
  | .submit block finalityDepth => runSubmit cfg i s block finalityDepth
  | .syncWithPeers =>
    if s.peers = [] then some (goOn s []) else some (goOn s [.readDepth s.peers.length])
  | .readDepth peers => some (goOn s [.adoptFrom peers s.finalityDepth])
  | .adoptFrom peers finalityDepth => runAdoptFrom cfg i s finalityDepth peers
  | .download target finalityDepth batches =>
    match batches with
    | 0 => some (goOn s [])
    | batches + 1 => settle s.chain.nextIndex
      (fun next => goOn s
        (if target < next then [] else [.appendFetched target finalityDepth batches]))
      fun (_ : String) => goOn s []
  | .appendFetched target finalityDepth batches =>
    runAppendFetched cfg i s target finalityDepth batches

/-- The node as a system of interleaved handlers. -/
def server : System AppState ServerAction Surroundings Output where
  run i a s := cfg.run i s a
  restart s := cfg.boot s.disk

end Settings

/-- The node's configurations and events. -/
abbrev ServerConfig := System.Config AppState ServerAction Surroundings Output
abbrev ServerEvent := System.Event ServerAction Surroundings
