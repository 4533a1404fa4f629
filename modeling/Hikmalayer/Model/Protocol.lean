/-
# Peer messages

`p2p/protocol.rs` and `p2p/peerbook.rs`: signed envelopes, the cache of seen message ids and
the reputation of peers.  The wall clock and fresh ids are parameters.
-/
import Mathlib.Tactic
import Hikmalayer.Model.Keys
import Hikmalayer.Model.Wire

open Outcome Json

/-! ## Seen messages -/

/-- Recently seen message ids, with the order they came in. -/
structure SeenMessageCache where
  seen : Finset String
  order : List String
  capacity : ℕ
  mem_seen : ∀ m, m ∈ seen ↔ m ∈ order
  nodup : order.Nodup
  capacity_pos : 0 < capacity
  bounded : order.length ≤ capacity

namespace SeenMessageCache

def new (capacity : ℕ) : SeenMessageCache where
  seen := ∅
  order := []
  capacity := max capacity 1
  mem_seen _ := by simp
  nodup := List.nodup_nil
  capacity_pos := Nat.lt_of_lt_of_le Nat.one_pos (Nat.le_max_right _ _)
  bounded := Nat.zero_le _

/-- Make room for one more: forget the oldest id of a full cache. -/
def evict (c : SeenMessageCache) : Finset String × List String :=
  if c.capacity ≤ c.order.length then
    match c.order with
    | evicted :: rest => (c.seen.erase evicted, rest)
    | [] => (c.seen, [])
  else (c.seen, c.order)

/-- What is left after an eviction: the order without its first id, or all of it. -/
theorem evict_eq (c : SeenMessageCache) :
    (c.capacity ≤ c.order.length ∧ ∃ evicted, c.order = evicted :: c.evict.2 ∧
      c.evict.1 = c.seen.erase evicted) ∨
    (c.order.length < c.capacity ∧ c.evict = (c.seen, c.order)) := by
  unfold evict
  by_cases hfull : c.capacity ≤ c.order.length
  · rw [if_pos hfull]
    refine Or.inl ⟨hfull, ?_⟩
    cases horder : c.order with
    | nil =>
      rw [horder] at hfull
      exact absurd (c.capacity_pos.trans_le hfull) (Nat.lt_irrefl 0)
    | cons evicted rest => exact ⟨evicted, rfl, rfl⟩
  · rw [if_neg hfull]
    exact Or.inr ⟨not_le.mp hfull, rfl⟩

theorem mem_evict (c : SeenMessageCache) (m : String) : m ∈ c.evict.1 ↔ m ∈ c.evict.2 := by
  rcases c.evict_eq with ⟨-, evicted, horder, hseen⟩ | ⟨-, hsame⟩
  · have hnodup := c.nodup
    rw [horder, List.nodup_cons] at hnodup
    rw [hseen, Finset.mem_erase, c.mem_seen, horder, List.mem_cons]
    constructor
    · rintro ⟨hne, rfl | hm⟩
      · exact absurd rfl hne
      · exact hm
    · exact fun hm => ⟨fun h => hnodup.1 (h ▸ hm), Or.inr hm⟩
  · rw [hsame]
    exact c.mem_seen m

theorem evict_sublist (c : SeenMessageCache) : c.evict.2.Sublist c.order := by
  rcases c.evict_eq with ⟨-, evicted, horder, -⟩ | ⟨-, hsame⟩
  · exact horder ▸ List.sublist_cons_self _ _
  · rw [hsame]

theorem evict_length (c : SeenMessageCache) : c.evict.2.length < c.capacity := by
  rcases c.evict_eq with ⟨-, evicted, horder, -⟩ | ⟨hroom, hsame⟩
  · have hlength := congrArg List.length horder
    have hbounded := c.bounded
    rw [List.length_cons] at hlength
    omega
  · rw [hsame]
    exact hroom

/-- Record a message id; `false` when it was already seen. -/
def insert (c : SeenMessageCache) (messageId : String) : Bool × SeenMessageCache :=
  if h : messageId ∈ c.seen then (false, c)
  else (true, {
    seen := Insert.insert messageId c.evict.1
    order := c.evict.2 ++ [messageId]
    capacity := c.capacity
    mem_seen := fun m => by
      rw [Finset.mem_insert, c.mem_evict, List.mem_append, List.mem_singleton, or_comm]
    nodup := by
      have hnew : messageId ∉ c.evict.2 := fun hm =>
        h ((c.mem_seen messageId).mpr (c.evict_sublist.subset hm))
      rw [← List.concat_eq_append]
      exact (c.nodup.sublist c.evict_sublist).concat hnew
    capacity_pos := c.capacity_pos
    bounded := by
      have hlength := c.evict_length
      rw [List.length_append, List.length_singleton]
      omega })

variable {cache : SeenMessageCache} {m x : String}

theorem insert_new (h : m ∉ cache.seen) : (cache.insert m).1 = true := by
  rw [insert, dif_neg h]

theorem insert_seen (h : m ∈ cache.seen) : (cache.insert m).1 = false := by
  rw [insert, dif_pos h]

/-- An id comes into the cache by being inserted. -/
theorem mem_of_mem_insert (h : x ∈ (cache.insert m).2.seen) : x = m ∨ x ∈ cache.seen := by
  rw [insert] at h
  split at h
  · exact Or.inr h
  · rcases Finset.mem_insert.mp h with h | h
    · exact Or.inl h
    · exact Or.inr ((cache.mem_seen x).mpr (cache.evict_sublist.subset ((cache.mem_evict x).mp h)))

theorem mem_insert_self (h : m ∉ cache.seen) : m ∈ (cache.insert m).2.seen := by
  rw [insert, dif_neg h]
  exact Finset.mem_insert_self _ _

/-- A new id pushes out at most the oldest id of a full cache. -/
theorem mem_insert_of_mem (h : m ∉ cache.seen) (hx : x ∈ cache.seen) :
    x ∈ (cache.insert m).2.seen ∨
      (cache.order.length = cache.capacity ∧ cache.order.head? = some x) := by
  rw [insert, dif_neg h]
  show x ∈ Insert.insert m cache.evict.1 ∨ _
  rcases cache.evict_eq with ⟨hfull, oldest, horder, hseen⟩ | ⟨-, hsame⟩
  · by_cases hold : x = oldest
    · subst hold
      exact Or.inr ⟨le_antisymm cache.bounded hfull, by rw [horder]; rfl⟩
    · rw [hseen]
      exact Or.inl (Finset.mem_insert_of_mem (Finset.mem_erase.mpr ⟨hold, hx⟩))
  · rw [hsame]
    exact Or.inl (Finset.mem_insert_of_mem hx)

/-- The order of a cache after a new id. -/
theorem order_insert (h : m ∉ cache.seen) : (cache.insert m).2.order =
    (if cache.order.length = cache.capacity then cache.order.tail else cache.order) ++ [m] := by
  rw [insert, dif_neg h]
  show cache.evict.2 ++ [m] = _
  congr 1
  rcases cache.evict_eq with ⟨hfull, oldest, horder, -⟩ | ⟨hroom, hsame⟩
  · rw [if_pos (le_antisymm cache.bounded hfull), horder]
    rfl
  · rw [if_neg hroom.ne, hsame]

@[simp] theorem capacity_insert : (cache.insert m).2.capacity = cache.capacity := by
  rw [insert]
  split <;> rfl

end SeenMessageCache

/-! ## Envelopes -/

def p2pProtocolVersion : String := "hikmalayer-p2p/1"

inductive P2PPayload where
  | ping
  | peerAnnounce (address : String)
  | block (block : Block)
  | blockBatch (blocks : List Block)
  | transaction (transaction : Transaction)
  deriving DecidableEq, Repr

namespace P2PPayload

/-- A payload as an object of type and data. -/
def toJson : P2PPayload → Json
  | .ping => .obj [("type", .str "Ping")]
  | .peerAnnounce address =>
    .obj [("type", .str "PeerAnnounce"), ("data", .obj [("address", .str address)])]
  | .block b => .obj [("type", .str "Block"), ("data", b.toJson)]
  | .blockBatch blocks =>
    .obj [("type", .str "BlockBatch"), ("data", .arr (blocks.map Block.toJson))]
  | .transaction tx => .obj [("type", .str "Transaction"), ("data", tx.toJson)]

/-- The data of an announcement. -/
def addressOfJson : Json → Option String
  | .obj m => required asText m "address"
  | _ => none

def asNull : Json → Option Unit
  | .null => some ()
  | _ => none

def ofJson (parseTime : String → Option DateTime) : Json → Option P2PPayload
  | .obj m => do
    let type ← required asText m "type"
    if type = "Ping" then (withDefault () asNull m "data").map fun _ => ping
    else if type = "PeerAnnounce" then (required addressOfJson m "data").map peerAnnounce
    else if type = "Block" then (required (Block.ofJson parseTime) m "data").map block
    else if type = "BlockBatch" then
      (required (asList (Block.ofJson parseTime)) m "data").map blockBatch
    else if type = "Transaction" then
      (required (Transaction.ofJson parseTime) m "data").map transaction
    else none
  | _ => none

/-- All timestamps of a payload satisfy `P`. -/
def Timed (P : DateTime → Prop) : P2PPayload → Prop
  | .ping => True
  | .peerAnnounce _ => True
  | .block b => b.Timed P
  | .blockBatch blocks => ∀ b ∈ blocks, b.Timed P
  | .transaction tx => tx.Timed P

theorem Timed.mono {P Q : DateTime → Prop} {p : P2PPayload} (h : p.Timed P)
    (hpq : ∀ t, P t → Q t) : p.Timed Q := by
  cases p with
  | ping => trivial
  | peerAnnounce address => trivial
  | block b => exact hpq _ h
  | blockBatch blocks => exact fun b hb => hpq _ (h b hb)
  | transaction tx => exact Transaction.Timed.mono h hpq

/-- A written payload is read back, if its timestamps are. -/
theorem ofJson_toJson {parseTime : String → Option DateTime} {p : P2PPayload}
    (h : p.Timed (DateTime.ReadBack parseTime)) : ofJson parseTime p.toJson = some p := by
  cases p with
  | ping => rfl
  | peerAnnounce address => rfl
  | block b =>
    have hread : Block.ofJson parseTime b.toJson = some b := Block.ofJson_toJson h
    unfold toJson ofJson
    simp only [required, member]
    simp [asText, hread]
  | blockBatch blocks =>
    have hread : asList (Block.ofJson parseTime) (.arr (blocks.map Block.toJson)) = some blocks :=
      asList_arr fun b hb => Block.ofJson_toJson (h b hb)
    unfold toJson ofJson
    simp only [required, member]
    simp [asText, hread]
  | transaction tx =>
    have hread : Transaction.ofJson parseTime tx.toJson = some tx := Transaction.ofJson_toJson h
    unfold toJson ofJson
    simp only [required, member]
    simp [asText, hread]

/-- The text of a payload. -/
def text (p : P2PPayload) : String := p.toJson.text

end P2PPayload

/-- A node's own key, with what the libraries compute from it. -/
structure NodeKey where
  /-- `pos::derive_public_key`. -/
  derivePublicKey : Outcome String String
  /-- `pos::sign_message`. -/
  signMessage : String → Outcome String String

structure P2PEnvelope where
  protocolVersion : String
  nodeId : String
  messageId : String
  timestamp : DateTime
  payload : P2PPayload
  nodePublicKey : Option String
  signature : Option String
  deriving DecidableEq, Repr

namespace P2PEnvelope

/-- A fresh envelope, stamped with the id and the time given. -/
def new (nodeId messageId : String) (timestamp : DateTime) (payload : P2PPayload) :
    P2PEnvelope where
  protocolVersion := p2pProtocolVersion
  nodeId := nodeId
  messageId := messageId
  timestamp := timestamp
  payload := payload
  nodePublicKey := none
  signature := none

/-- The text that the node signs. -/
def material (e : P2PEnvelope) : String :=
  e.protocolVersion ++ "|" ++ e.nodeId ++ "|" ++ e.messageId ++ "|" ++ e.timestamp.toRfc3339 ++
    "|" ++ e.payload.text

def signingDigest (E : Env) (e : P2PEnvelope) : String := sha256Hex E e.material

/-- Sign with the node's key; the node id becomes the address of the key. -/
def signed (E : Env) (key : NodeKey) (e : P2PEnvelope) : Outcome String P2PEnvelope := do
  let publicKey ← key.derivePublicKey
  let nodeId ← Pos.deriveAddress E publicKey
  let e := { e with nodeId := nodeId }
  let signature ← key.signMessage (e.signingDigest E)
  return { e with nodePublicKey := some publicKey, signature := some signature }

/-- The public key derives the node id, and the signature covers the digest. -/
def verifyIdentity (E : Env) (e : P2PEnvelope) : Outcome String Unit := do
  let publicKey ← okOr e.nodePublicKey "Envelope missing node public key"
  let signature ← okOr e.signature "Envelope missing node signature"
  let derived ← Pos.deriveAddress E publicKey
  ensure (derived = e.nodeId) "Envelope node_id does not match node public key"
  ensure (Pos.verifyMessage E (e.signingDigest E) publicKey signature)
    "Envelope signature verification failed"

/-- The clock is within `maxClockSkewSeconds` of the timestamp, on either side. -/
def Fresh (e : P2PEnvelope) (maxClockSkewSeconds : ℕ) (now : DateTime) : Prop :=
  (now.numSecondsSince e.timestamp).natAbs ≤ maxClockSkewSeconds

instance (e : P2PEnvelope) (maxClockSkewSeconds : ℕ) (now : DateTime) :
    Decidable (e.Fresh maxClockSkewSeconds now) := by
  unfold Fresh; infer_instance

def validateWithIdentity (E : Env) (e : P2PEnvelope) (maxClockSkewSeconds : ℕ)
    (requireIdentity : Bool) (now : DateTime) : Outcome String Unit := do
  ensure (e.protocolVersion = p2pProtocolVersion) "Unsupported P2P protocol version"
  ensure (¬ blank e.nodeId) "Missing node_id in P2P envelope"
  ensure (¬ blank e.messageId) "Missing message_id in P2P envelope"
  ensure (e.Fresh maxClockSkewSeconds now)
    ("P2P envelope timestamp exceeds allowed skew (" ++ toString maxClockSkewSeconds ++ "s)")
  if requireIdentity ∨ e.signature ≠ none then e.verifyIdentity E
  else return ()

/-! ## Transport -/

def toJson (e : P2PEnvelope) : Json := .obj [
  ("protocol_version", .str e.protocolVersion),
  ("node_id", .str e.nodeId),
  ("message_id", .str e.messageId),
  ("timestamp", e.timestamp.toJson),
  ("payload", e.payload.toJson),
  ("node_public_key", ofOption .str e.nodePublicKey),
  ("signature", ofOption .str e.signature)]

def ofJson (parseTime : String → Option DateTime) : Json → Option P2PEnvelope
  | .obj m => do
    return {
      protocolVersion := ← required asText m "protocol_version"
      nodeId := ← required asText m "node_id"
      messageId := ← required asText m "message_id"
      timestamp := ← required (DateTime.ofJson parseTime) m "timestamp"
      payload := ← required (P2PPayload.ofJson parseTime) m "payload"
      nodePublicKey := ← withDefault none (asOption asText) m "node_public_key"
      signature := ← withDefault none (asOption asText) m "signature" }
  | _ => none

/-- `serde_json::to_string`. -/
def write (e : P2PEnvelope) : String := e.toJson.text

/-- `serde_json::from_str`, on compact texts. -/
def parse (parseTime : String → Option DateTime) (s : String) : Option P2PEnvelope :=
  (Json.ofText s).bind (ofJson parseTime)

/-- All timestamps of an envelope satisfy `P`. -/
structure Timed (P : DateTime → Prop) (e : P2PEnvelope) : Prop where
  timestamp : P e.timestamp
  payload : e.payload.Timed P

theorem parse_write {parseTime : String → Option DateTime} {e : P2PEnvelope}
    (h : e.Timed (DateTime.ReadBack parseTime)) : parse parseTime e.write = some e := by
  have htime : DateTime.ofJson parseTime e.timestamp.toJson = some e.timestamp := h.timestamp
  rw [parse, write, Json.ofText_text, Option.bind_some]
  unfold toJson ofJson
  simp only [required, withDefault, member]
  simp [asText, asOption_text, htime, P2PPayload.ofJson_toJson h.payload]

end P2PEnvelope

/-! ## Reputation -/

def initialScore : ℤ := 0
def banThreshold : ℤ := -10
def goodDelta : ℤ := 1
def badDelta : ℤ := -4
def banSeconds : ℕ := 600
def scoreMin : ℤ := -50
def scoreMax : ℤ := 50

/-- `now_secs`: seconds since 1970-01-01, or 0 before. -/
def DateTime.unixSeconds (t : DateTime) : ℕ := (t.day * 86400 + t.sec.val).toNat

/-- The standing of one node; `bannedUntil` is 0 without a ban. -/
structure PeerRecord where
  nodeId : String
  score : ℤ
  good : ℕ
  bad : ℕ
  bannedUntil : ℕ
  deriving DecidableEq, Repr

/-- A node that has not been heard of. -/
def PeerRecord.fresh (nodeId : String) : PeerRecord := ⟨nodeId, initialScore, 0, 0, 0⟩

structure PeerBook where
  peers : BTreeMap PeerRecord
  /-- When not empty, only these nodes may participate. -/
  allowList : Finset String

namespace PeerBook

def withAllowList (allowList : Finset String) : PeerBook := ⟨∅, allowList⟩

/-- The record of a node, a fresh one at first. -/
def entry (book : PeerBook) (nodeId : String) : PeerRecord :=
  book.peers[nodeId]?.getD (.fresh nodeId)

def isAccepted (book : PeerBook) (nodeId : String) (now : DateTime) : Bool :=
  if book.allowList.Nonempty ∧ nodeId ∉ book.allowList then false
  else match book.peers[nodeId]? with
    | some record => record.bannedUntil ≤ now.unixSeconds
    | none => true

def recordGood (book : PeerBook) (nodeId : String) : PeerBook :=
  let record := book.entry nodeId
  { book with peers := book.peers.insert nodeId { record with
    good := record.good + 1
    score := min (record.score + goodDelta) scoreMax } }

/-- Record misbehaviour; whether this pushed the peer into a ban. -/
def recordBad (book : PeerBook) (nodeId : String) (now : DateTime) : Bool × PeerBook :=
  let record := book.entry nodeId
  let record := { record with
    bad := record.bad + 1
    score := max (record.score + badDelta) scoreMin }
  if record.score ≤ banThreshold ∧ record.bannedUntil ≤ now.unixSeconds then
    (true, { book with peers := book.peers.insert nodeId { record with
      bannedUntil := now.unixSeconds + banSeconds
      score := banThreshold.tdiv 2 } })
  else (false, { book with peers := book.peers.insert nodeId record })

end PeerBook
