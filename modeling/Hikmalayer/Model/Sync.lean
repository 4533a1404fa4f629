/-
# The syncer

`p2p/sync.rs`: heads are polled, the blocks of the best peer on our network are fetched in batches
and appended, and fork choice decides when they diverge.  What the peers answer and what the clock
shows are inputs.  A pass that panics leaves the chain as it is at that moment.
-/
import Mathlib.Tactic
import Hikmalayer.Model.Server

open Outcome

/-- Peers contacted per tick. -/
def maxPeersPerTick : ℕ := 16

/-! ## Heads -/

structure ChainHead where
  chainId : String
  rootHash : String
  baseHeight : UInt64
  height : UInt64
  tipHash : String
  finalizedHeight : UInt64
  cumulativeWork : String

/-- What a chain reports of itself. -/
def Blockchain.head (chain : Blockchain) : Outcome String ChainHead := do
  let height ← chain.tipIndex
  let work ← chain.cumulativeWork
  return {
    chainId := chain.genesisChainId
    rootHash := (chain.blocks.head?.map Block.hash).getD ""
    baseHeight := chain.baseHeight
    height := height
    tipHash := chain.latestHash
    finalizedHeight := chain.finalizedHeight
    cumulativeWork := toString work }

namespace Sync

/-- Same chain id, same root and same base height. -/
def sameNetwork (ours theirs : ChainHead) : Bool :=
  ours.chainId = theirs.chainId ∧ ours.rootHash = theirs.rootHash ∧
    ours.baseHeight = theirs.baseHeight

/-- What a peer answers during one pass: its head, the blocks from a height on when it is asked the
n-th request of the pass, and its whole chain. -/
structure Peer where
  head : Option ChainHead
  blocksFrom : ℕ → UInt64 → Option (List Block)
  chain : Option Blockchain

/-- What one catch-up attempt did. -/
inductive SyncOutcome where
  | upToDate
  | advanced (blocks : ℕ)
  | reorganized
  | noProgress
  deriving DecidableEq

/-- The chain that a pass leaves, what it did (nothing when it panicked), and the requests it
made. -/
structure Pass where
  chain : Blockchain
  outcome : Option SyncOutcome
  requests : ℕ

/-- The peer on our network with the highest head, the first among several. -/
def bestPeer (ours : ChainHead) (best : Option (Peer × ChainHead)) :
    List Peer → Option (Peer × ChainHead)
  | [] => best
  | peer :: rest =>
    match peer.head with
    | none => bestPeer ours best rest
    | some head =>
      if ¬ sameNetwork ours head then bestPeer ours best rest
      else if best.all fun current => current.2.height < head.height then
        bestPeer ours (some (peer, head)) rest
      else bestPeer ours best rest

/-! ## Batches -/

/-- How a batch ends. -/
inductive BatchEnd where
  | served
  | diverged
  | panicked
  deriving DecidableEq

/-- Validate and commit block after block, up to the first that fails. -/
def applyBatch (E : Node) (clock : ℕ → DateTime) (chain : Blockchain) (accepted : List Block) :
    List Block → Blockchain × List Block × BatchEnd
  | [] => (chain, accepted, .served)
  | block :: rest =>
    match Blockchain.append E (clock accepted.length) chain block with
    | ok chain => applyBatch E clock chain (accepted ++ [block]) rest
    | err _ => (chain, accepted, .diverged)
    | panicked => (chain, accepted, .panicked)

def settledOutcome (applied : ℕ) : SyncOutcome :=
  if 0 < applied then .advanced applied else .noProgress

/-- Whole-chain fork choice when a peer's history diverges. -/
def adoptViaForkChoice (E : Node) (now : DateTime) (finalityDepth : UInt64) (peer : Peer)
    (applied requests : ℕ) (chain : Blockchain) : Pass :=
  match peer.chain with
  | none => ⟨chain, some (settledOutcome applied), requests + 1⟩
  | some remote =>
    match Blockchain.adoptFinal E now finalityDepth chain remote with
    | ok (some adopted) => ⟨adopted, some .reorganized, requests + 1⟩
    | ok none => ⟨chain, some (settledOutcome applied), requests + 1⟩
    | err _ => ⟨chain, some (settledOutcome applied), requests + 1⟩
    | panicked => ⟨chain, none, requests + 1⟩

/-- Pull blocks from one peer and apply them until caught up or blocked, in at most `batches`
batches. -/
def downloadFrom (E : Node) (clock : ℕ → DateTime) (finalityDepth : UInt64) (peer : Peer)
    (target : UInt64) : ℕ → ℕ → ℕ → Blockchain → Pass
  | 0, applied, requests, chain => ⟨chain, some (settledOutcome applied), requests⟩
  | batches + 1, applied, requests, chain =>
    match (chain.nextIndex : Outcome String UInt64) with
    | ok next =>
      if target < next then ⟨chain, some (settledOutcome applied), requests⟩
      else
        match peer.blocksFrom requests next with
        | none => ⟨chain, some (settledOutcome applied), requests + 1⟩
        | some [] => ⟨chain, some (settledOutcome applied), requests + 1⟩
        | some (block :: rest) =>
          match applyBatch E (fun k => clock (applied + k)) chain [] (block :: rest) with
          | (chain, accepted, ending) =>
            if ending = .panicked then ⟨chain, none, requests + 1⟩
            else
              match Blockchain.finalAfter finalityDepth accepted chain with
              | ok chain =>
                if ending = .diverged then
                  adoptViaForkChoice E (clock (applied + accepted.length + 1)) finalityDepth peer
                    (applied + accepted.length) (requests + 1) chain
                else downloadFrom E clock finalityDepth peer target batches
                  (applied + accepted.length) (requests + 1) chain
              | _ => ⟨chain, none, requests + 1⟩
    | _ => ⟨chain, none, requests⟩

/-- One attempt to catch up with the best chain that a polled peer claims to have. -/
def catchUp (E : Node) (clock : ℕ → DateTime) (finalityDepth : UInt64) (peers : List Peer)
    (chain : Blockchain) : Pass :=
  if peers = [] then ⟨chain, some .noProgress, 0⟩
  else
    match chain.head with
    | ok ours =>
      let polled := peers.take maxPeersPerTick
      match bestPeer ours none polled with
      | none => ⟨chain, some .noProgress, polled.length⟩
      | some (peer, head) =>
        if head.height ≤ ours.height then ⟨chain, some .upToDate, polled.length⟩
        else downloadFrom E clock finalityDepth peer head.height maxBatchesPerPass 0 polled.length
          chain
    | _ => ⟨chain, none, 0⟩

end Sync
