/-
# Request handlers and their mutexes

The handlers of `api/routes.rs` as far as the mutexes of `AppState` go: which guards they take,
in which order, and where they give them back.  A branch is a choice, a `for` loop runs any
number of times, an early return is the branch that does nothing more.  A task that a handler
spawns is a handler of its own.
-/
import Mathlib.Tactic
import Hikmalayer.Foundations.Locks

open Locks Locks.Prog

/-- The mutexes of `AppState` that the handlers take. -/
inductive Mutex
  | chain
  | pendingTransactions
  | contracts
  | peers
  | governance
  | slashEvidence
  | metrics
  | peerBook
  | seenMessages
  deriving DecidableEq

namespace Mutex

/-! ## Helpers -/

/-- `persist_state`: six guards, held until the snapshot is saved. -/
def persistState : Prog Mutex :=
  holding chain <| holding contracts <| holding pendingTransactions <| holding peers <|
    holding governance <| touch slashEvidence

/-- `prune_pending`. -/
def prunePending : Prog Mutex := holding chain (touch pendingTransactions)

/-- `penalize_peer`: nothing for an empty node id. -/
def penalizePeer : Prog Mutex := optional (inTurn [touch peerBook, touch metrics])

/-- `reward_peer`: nothing for an empty node id. -/
def rewardPeer : Prog Mutex := optional (touch peerBook)

/-- `accept_peer_block`: the chain guard is given back before the pool is pruned. -/
def acceptPeerBlock : Prog Mutex := inTurn [touch chain, optional prunePending]

/-! ## Handlers -/

/-- `queue_transaction`: the early returns are a reward, a transaction that does not verify, and
a full pool, a duplicate or a transaction that does not apply. -/
def queueTransaction : Prog Mutex :=
  optional <| inTurn [touch chain,
    optional <| inTurn [holding chain (touch pendingTransactions), optional persistState]]

/-- `issue_certificate`. -/
def issueCertificate : Prog Mutex :=
  optional <| inTurn [touch contracts, touch pendingTransactions, persistState]

/-- `get_account_nonce`. -/
def getAccountNonce : Prog Mutex := holding chain (touch pendingTransactions)

/-- `get_blockchain_stats`. -/
def getBlockchainStats : Prog Mutex :=
  holding chain <| holding pendingTransactions <| touch governance

/-- `sync_with_peers`: one turn of the loop for each peer. -/
def syncWithPeers : Prog Mutex :=
  inTurn [touch peers, optional <| inTurn [touch governance, loop <| optional <| inTurn
    [touch chain, optional <| inTurn [touch metrics, prunePending, persistState]]]]

/-- `mine_block`: the pool first, then the chain; both are given back while the block is built,
and taken again in the same order. -/
def mineBlock : Prog Mutex :=
  inTurn [touch governance, optional <| inTurn [holding pendingTransactions (touch chain),
    optional <| inTurn [holding pendingTransactions (touch chain),
      optional <| inTurn [touch metrics, persistState]]]]

/-- `propose_block`: the pool first, then the chain. -/
def proposeBlock : Prog Mutex := holding pendingTransactions (touch chain)

/-- `submit_block`. -/
def submitBlock : Prog Mutex :=
  inTurn [touch governance, touch chain,
    .either (touch metrics) (inTurn [prunePending, touch metrics, persistState])]

/-- `update_governance`. -/
def updateGovernance : Prog Mutex := optional <| inTurn [touch governance, persistState]

/-- `gossip_blocks` and `gossip_transaction`, the tasks that a handler spawns. -/
def gossip : Prog Mutex := inTurn [touch peers, optional (touch metrics)]

/-! ## Protocol messages -/

/-- A `PeerAnnounce` payload: the counter is raised under the peers guard. -/
def receivePeerAnnounce : Prog Mutex :=
  .either (touch metrics) (inTurn [holding peers (optional (touch metrics)), persistState])

/-- A `Transaction` payload: already queued, invalid, not applicable, or queued. -/
def receiveTransaction : Prog Mutex :=
  inTurn [touch pendingTransactions, optional <| .either (inTurn [penalizePeer, touch metrics]) <|
    inTurn [holding chain (touch pendingTransactions),
      .either (inTurn [penalizePeer, touch metrics])
        (inTurn [rewardPeer, touch metrics, persistState])]]

/-- A `Block` payload. -/
def receiveBlock : Prog Mutex :=
  inTurn [touch governance, acceptPeerBlock,
    .either (inTurn [rewardPeer, touch metrics, persistState])
      (inTurn [optional penalizePeer, touch metrics])]

/-- A `BlockBatch` payload. -/
def receiveBlockBatch : Prog Mutex :=
  inTurn [touch governance, loop acceptPeerBlock, optional <| inTurn [touch metrics, persistState]]

/-- The payloads of `receive_protocol_message`; a `Ping` takes nothing. -/
def receivePayload : Prog Mutex :=
  optional <| .either receivePeerAnnounce <| .either receiveTransaction <|
    .either receiveBlock receiveBlockBatch

/-- `receive_protocol_message`: unauthorized, a bad envelope, a banned peer, a duplicate, or a
message that is processed. -/
def receiveProtocolMessage : Prog Mutex :=
  .either (touch metrics) <| .either (inTurn [penalizePeer, touch metrics]) <|
    inTurn [touch peerBook, .either (touch metrics) <|
      inTurn [touch seenMessages, .either (touch metrics) <|
        inTurn [touch metrics, receivePayload]]]

end Mutex

/-! ## What runs -/

/-- The handlers, and the helpers that are handlers of their own when they are spawned. -/
inductive Handler
  | mineBlock
  | proposeBlock
  | submitBlock
  | queueTransaction
  | prunePending
  | issueCertificate
  | getAccountNonce
  | getBlockchainStats
  | persistState
  | acceptPeerBlock
  | receiveProtocolMessage
  | updateGovernance
  | syncWithPeers
  | gossip
  deriving DecidableEq

/-- What a handler does with the mutexes. -/
def Handler.prog : Handler → Prog Mutex
  | .mineBlock => Mutex.mineBlock
  | .proposeBlock => Mutex.proposeBlock
  | .submitBlock => Mutex.submitBlock
  | .queueTransaction => Mutex.queueTransaction
  | .prunePending => Mutex.prunePending
  | .issueCertificate => Mutex.issueCertificate
  | .getAccountNonce => Mutex.getAccountNonce
  | .getBlockchainStats => Mutex.getBlockchainStats
  | .persistState => Mutex.persistState
  | .acceptPeerBlock => Mutex.acceptPeerBlock
  | .receiveProtocolMessage => Mutex.receiveProtocolMessage
  | .updateGovernance => Mutex.updateGovernance
  | .syncWithPeers => Mutex.syncWithPeers
  | .gossip => Mutex.gossip
