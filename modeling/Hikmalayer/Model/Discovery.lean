/-
# Discovery

`announce_and_discover` of `p2p/sync.rs`, with what the peers do for it: they hand out the addresses
that they know (`list_peers`) and take in the ones that are announced to them (`register_peer`, or a
signed announcement).  A node is in one round at a time, and between two requests of its round
anything can happen elsewhere, to its own list too.
-/
import Mathlib.Tactic
import Hikmalayer.Model.Sync

/-- Peers accepted from any one peer's address book per tick. -/
def maxLearnedPeersPerTick : ℕ := 8

/-! ## One round -/

/-- Go through the addresses that one peer knows. -/
def learnFrom (own : Option String) (peers : List String) (learned : List String) :
    List String → List String
  | [] => learned
  | candidate :: rest =>
    let candidate := trim candidate
    if candidate = "" ∨ some candidate = own ∨ candidate ∈ peers ∨ candidate ∈ learned then
      learnFrom own peers learned rest
    else learnFrom own peers (learned ++ [candidate]) rest

/-- A round in progress: the peers it started from, how many of them it has asked, and what it has
learned. -/
structure Round where
  peers : List String
  asked : ℕ
  learned : List String
  deriving DecidableEq

namespace Round

def start (peers : List String) : Round := ⟨peers, 0, []⟩

/-- Whether there is no further peer to ask. -/
def done (r : Round) : Bool := (r.peers.take maxPeersPerTick).length ≤ r.asked

/-- Ask the next peer, which answers or does not. -/
def hear (own : Option String) (r : Round) (answer : Option (List String)) : Round :=
  { r with
    asked := r.asked + 1
    learned := match answer with
      | some theirs => learnFrom own r.peers r.learned (theirs.take maxLearnedPeersPerTick)
      | none => r.learned }

end Round

/-! ## A network -/

/-- The addresses that each node knows, and the round it is in. -/
structure AddressBooks (ι : Type) where
  book : ι → List String
  round : ι → Option Round

/-- What happens to the address books. -/
inductive DiscoveryEvent (ι : Type) where
  /-- An address is announced to a node. -/
  | announce (node : ι) (address : String)
  | start (node : ι)
  /-- The next peer of the node's round is this node, or nobody that answers. -/
  | ask (node : ι) (peer : Option ι)
  | merge (node : ι)
  deriving DecidableEq

namespace AddressBooks

variable {ι : Type} [DecidableEq ι]

/-- A node keeps its own address out of what it learns. -/
def step (own : ι → Option String) (n : AddressBooks ι) :
    DiscoveryEvent ι → Option (AddressBooks ι)
  | .announce node address =>
    if blank address then none
    else some { n with book := Function.update n.book node (addPeers (n.book node) [address]) }
  | .start node =>
    if n.round node = none ∧ n.book node ≠ [] then
      some { n with round := Function.update n.round node (some (.start (n.book node))) }
    else none
  | .ask node peer =>
    match n.round node with
    | none => none
    | some r =>
      if r.done then none
      else some { n with
        round := Function.update n.round node (some (r.hear (own node) (peer.map n.book))) }
  | .merge node =>
    match n.round node with
    | none => none
    | some r =>
      if r.done then some
        { book := Function.update n.book node (addPeers (n.book node) r.learned)
          round := Function.update n.round node none }
      else none

/-- One event after the other. -/
def run (own : ι → Option String) (n : AddressBooks ι) (events : List (DiscoveryEvent ι)) :
    Option (AddressBooks ι) :=
  events.foldlM (step own) n

end AddressBooks
