/-
# Signed envelopes

Two envelopes with the accepted protocol version, of one node key and with one signing digest,
have the same message id, timestamp and payload.  The payload is the last field of the signed
text and an object; where the objects of two splits differ in length, the longer one would
contain the shorter after a bar, which no printed value does.  A signed envelope verifies
again after transport.
-/
import Mathlib.Tactic
import Hikmalayer.Authorization.Timestamps
import Hikmalayer.Model.Protocol
import Hikmalayer.Model.Sample

open Outcome

/-! ## Reading timestamps -/

namespace DateTime

open Classical in
/-- The timestamp of a text. -/
noncomputable def ofDebugText (s : String) : Option DateTime :=
  if h : ∃ t : DateTime, t.Representable ∧ t.debugText = s then some h.choose else none

theorem readBack_ofDebugText {t : DateTime} (ht : t.Representable) : t.ReadBack ofDebugText := by
  have h : ∃ t' : DateTime, t'.Representable ∧ t'.debugText = t.debugText := ⟨t, ht, rfl⟩
  rw [ReadBack, ofDebugText, dif_pos h,
    debugText_injective h.choose_spec.1 ht h.choose_spec.2]

/-- Both texts of a timestamp have the same date and time. -/
theorem toRfc3339_injective {t t' : DateTime} (ht : t.Representable) (ht' : t'.Representable)
    (h : t.toRfc3339 = t'.toRfc3339) : t = t' := by
  have hnaive : t.naiveText = t'.naiveText := by
    have hchars := congrArg String.toList h
    rw [toRfc3339, toRfc3339, String.toList_append, String.toList_append] at hchars
    exact String.toList_inj.mp (List.append_cancel_right hchars)
  exact debugText_injective ht ht' (by rw [debugText, debugText, hnaive])

theorem ne_bar_of_mem_toRfc3339 {t : DateTime} {c : Char} (h : c ∈ t.toRfc3339.toList) :
    c ≠ '|' := by
  rintro rfl
  rw [toRfc3339, String.toList_append, List.mem_append] at h
  rcases h with h | h
  · exact absurd (mem_naiveText h) (by decide)
  · exact absurd h (by decide)

end DateTime

/-! ## Splitting the signed text -/

namespace P2PPayload

/-- The text of a payload starts like an object of type and data. -/
theorem exists_chars (p : P2PPayload) : ∃ rest, p.toJson.chars = '\x7b' :: '"' :: 't' :: rest := by
  cases p <;> exact ⟨_, rfl⟩

theorem toJson_injective {p p' : P2PPayload} (hp : p.Timed DateTime.Representable)
    (hp' : p'.Timed DateTime.Representable) (h : p.toJson = p'.toJson) : p = p' := by
  have hread := ofJson_toJson (hp.mono fun _ ht => DateTime.readBack_ofDebugText ht)
  rw [h, ofJson_toJson (hp'.mono fun _ ht => DateTime.readBack_ofDebugText ht),
    Option.some.injEq] at hread
  exact hread.symm

/-- No payload contains another after a bar. -/
theorem chars_ne (p p' : P2PPayload) (pre : List Char) :
    p.toJson.chars ≠ pre ++ '|' :: p'.toJson.chars := by
  obtain ⟨rest, hrest⟩ := p'.exists_chars
  rw [hrest]
  exact Json.ne_append_of_bar _ _ _ (by decide)

end P2PPayload

/-- A text without bars between two bars is told apart from what is in front of it. -/
theorem Text.split_last {a a' b b' : List Char} (hb : ∀ c ∈ b, c ≠ '|') (hb' : ∀ c ∈ b', c ≠ '|')
    (h : a ++ '|' :: b = a' ++ '|' :: b') : a = a' ∧ b = b' := by
  have hreverse := congrArg List.reverse h
  simp only [List.reverse_append, List.reverse_cons, List.append_assoc, List.cons_append,
    List.nil_append] at hreverse
  have hclass : ∀ {l : List Char}, (∀ c ∈ l, c ≠ '|') →
      ∀ c ∈ l.reverse, (fun c => decide (c ≠ '|')) c = true := fun hl c hc =>
    decide_eq_true (hl c (List.mem_reverse.mp hc))
  obtain ⟨hlast, -, hfirst⟩ := Text.append_cons_inj (p := fun c => decide (c ≠ '|')) (by decide)
    (by decide) (hclass hb) (hclass hb') hreverse
  exact ⟨List.reverse_inj.mp hfirst, List.reverse_inj.mp hlast⟩

namespace P2PEnvelope

variable {E : Env} {e e' : P2PEnvelope}

theorem toList_material (e : P2PEnvelope) : e.material.toList =
    e.protocolVersion.toList ++ '|' :: (e.nodeId.toList ++ '|' ::
      ((e.messageId.toList ++ '|' :: e.timestamp.toRfc3339.toList) ++
        '|' :: e.payload.toJson.chars)) := by
  have hbar : "|".toList = ['|'] := rfl
  simp only [material, String.toList_append, hbar, P2PPayload.text, Json.text, String.toList_ofList,
    List.append_assoc, List.cons_append, List.nil_append]

/-- Message id, timestamp and payload are read off the signed text. -/
theorem fields_of_material (hversion : e.protocolVersion = e'.protocolVersion)
    (hnode : e.nodeId = e'.nodeId) (he : e.Timed DateTime.Representable)
    (he' : e'.Timed DateTime.Representable) (h : e.material = e'.material) :
    e.messageId = e'.messageId ∧ e.timestamp = e'.timestamp ∧ e.payload = e'.payload := by
  have hchars := congrArg String.toList h
  rw [toList_material, toList_material, hversion, hnode] at hchars
  have hrest := (List.cons.inj (List.append_cancel_left hchars)).2
  have hsplit := (List.cons.inj (List.append_cancel_left hrest)).2
  obtain ⟨hfront, hpayload⟩ : e.messageId.toList ++ '|' :: e.timestamp.toRfc3339.toList =
      e'.messageId.toList ++ '|' :: e'.timestamp.toRfc3339.toList ∧
      e.payload.toJson.chars = e'.payload.toJson.chars := by
    rcases List.append_eq_append_iff.mp hsplit with ⟨l, hl, htail⟩ | ⟨l, hl, htail⟩
    · cases l with
      | nil =>
        rw [List.append_nil] at hl
        exact ⟨hl.symm, (List.cons.inj htail).2⟩
      | cons c l => exact absurd (List.cons.inj htail).2 (P2PPayload.chars_ne _ _ l)
    · cases l with
      | nil =>
        rw [List.append_nil] at hl
        exact ⟨hl, (List.cons.inj htail).2.symm⟩
      | cons c l => exact absurd (List.cons.inj htail).2 (P2PPayload.chars_ne _ _ l)
  obtain ⟨hid, htime⟩ := Text.split_last (fun _ => DateTime.ne_bar_of_mem_toRfc3339)
    (fun _ => DateTime.ne_bar_of_mem_toRfc3339) hfront
  refine ⟨String.toList_inj.mp hid, DateTime.toRfc3339_injective he.timestamp he'.timestamp
    (String.toList_inj.mp htime), P2PPayload.toJson_injective he.payload he'.payload ?_⟩
  refine Json.text_injective ?_
  rw [Json.text, Json.text, hpayload]

/-! ## Identity -/

theorem verifyIdentity_eq_ok : e.verifyIdentity E = ok () ↔ ∃ publicKey signature,
    e.nodePublicKey = some publicKey ∧ e.signature = some signature ∧
    Pos.deriveAddress E publicKey = ok e.nodeId ∧
    Pos.verifyMessage E (e.signingDigest E) publicKey signature = true := by
  simp only [verifyIdentity, Outcome.bind_eq_ok, okOr_eq_ok, ensure_eq_ok]
  constructor
  · rintro ⟨publicKey, hkey, signature, hsignature, derived, hderived, _, rfl, hverify⟩
    exact ⟨publicKey, signature, hkey, hsignature, hderived, hverify⟩
  · rintro ⟨publicKey, signature, hkey, hsignature, hderived, hverify⟩
    exact ⟨publicKey, hkey, signature, hsignature, _, hderived, (), rfl, hverify⟩

end P2PEnvelope

/-- What the key signs verifies under its public key. -/
structure NodeKey.Sound (E : Env) (key : NodeKey) : Prop where
  verifies : ∀ publicKey message signature, key.derivePublicKey = ok publicKey →
    key.signMessage message = ok signature → Pos.verifyMessage E message publicKey signature = true

namespace P2PEnvelope

variable {E : Env}

theorem signed_eq_ok {key : NodeKey} {e sealed : P2PEnvelope} :
    e.signed E key = ok sealed ↔ ∃ publicKey nodeId signature,
      key.derivePublicKey = ok publicKey ∧ Pos.deriveAddress E publicKey = ok nodeId ∧
      key.signMessage (signingDigest E { e with nodeId := nodeId }) = ok signature ∧
      sealed = { e with
        nodeId := nodeId
        nodePublicKey := some publicKey
        signature := some signature } := by
  simp only [signed, Outcome.bind_eq_ok, pure_eq, ok.injEq]
  constructor
  · rintro ⟨publicKey, hkey, nodeId, hnode, signature, hsignature, rfl⟩
    exact ⟨publicKey, nodeId, signature, hkey, hnode, hsignature, rfl⟩
  · rintro ⟨publicKey, nodeId, signature, hkey, hnode, hsignature, rfl⟩
    exact ⟨publicKey, hkey, nodeId, hnode, signature, hsignature, rfl⟩

/-- A signed envelope verifies. -/
theorem verifyIdentity_signed {key : NodeKey} {e sealed : P2PEnvelope} (hkey : key.Sound E)
    (h : e.signed E key = ok sealed) : sealed.verifyIdentity E = ok () := by
  obtain ⟨publicKey, nodeId, signature, hpublic, hnode, hsignature, rfl⟩ := signed_eq_ok.mp h
  exact verifyIdentity_eq_ok.mpr ⟨publicKey, signature, rfl, rfl, hnode,
    hkey.verifies _ _ _ hpublic hsignature⟩

theorem signed_timed {key : NodeKey} {e sealed : P2PEnvelope} {P : DateTime → Prop}
    (he : e.Timed P) (h : e.signed E key = ok sealed) : sealed.Timed P := by
  obtain ⟨publicKey, nodeId, signature, -, -, -, rfl⟩ := signed_eq_ok.mp h
  exact ⟨he.timestamp, he.payload⟩

/-- The signed text alone does not tell a protocol version with bars from a longer message id:
the version is checked apart. -/
theorem material_shift (e : P2PEnvelope) (version id : String) :
    material { e with
      protocolVersion := version
      messageId := e.nodeId ++ "|" ++ id } =
    material { e with
      protocolVersion := version ++ "|" ++ e.nodeId
      messageId := id } := by
  simp only [material, String.append_assoc]

/-- The signature of an envelope with the accepted protocol version binds its message id,
timestamp and payload, and what the node signs verifies again after transport. -/
theorem signature_binds_envelope {parseTime : String → Option DateTime}
    (hparse : ∀ t : DateTime, t.Representable → parseTime t.debugText = some t) :
    (∀ (e e' : P2PEnvelope) (publicKey : String), e.nodePublicKey = some publicKey →
      e'.nodePublicKey = some publicKey → e.verifyIdentity E = ok () →
      e'.verifyIdentity E = ok () → e.protocolVersion = p2pProtocolVersion →
      e'.protocolVersion = p2pProtocolVersion → e.Timed DateTime.Representable →
      e'.Timed DateTime.Representable → E.CollisionFree {utf8 e.material, utf8 e'.material} →
      e.signingDigest E = e'.signingDigest E →
      e.protocolVersion = e'.protocolVersion ∧ e.messageId = e'.messageId ∧
        e.timestamp = e'.timestamp ∧ e.payload = e'.payload) ∧
    ∀ (key : NodeKey) (e sealed : P2PEnvelope), key.Sound E → e.Timed DateTime.Representable →
      e.signed E key = ok sealed → ∃ received, parse parseTime sealed.write = some received ∧
        received.verifyIdentity E = ok () := by
  constructor
  · intro e e' publicKey hkey hkey' hverify hverify' hversion hversion' he he' hfree hdigest
    obtain ⟨own, -, hown, -, hnode, -⟩ := verifyIdentity_eq_ok.mp hverify
    obtain ⟨own', -, hown', -, hnode', -⟩ := verifyIdentity_eq_ok.mp hverify'
    rw [hkey, Option.some.injEq] at hown
    rw [hkey', Option.some.injEq] at hown'
    rw [← hown] at hnode
    rw [← hown', hnode, ok.injEq] at hnode'
    have hsame : e.protocolVersion = e'.protocolVersion := hversion.trans hversion'.symm
    have hmaterial : e.material = e'.material := sha256Hex_inj hfree
      (Set.mem_insert _ _) (Set.mem_insert_of_mem _ rfl) hdigest
    exact ⟨hsame, fields_of_material hsame hnode' he he' hmaterial⟩
  · intro key e sealed hkey he hsigned
    refine ⟨sealed, parse_write ?_, verifyIdentity_signed hkey hsigned⟩
    have hsealed := signed_timed he hsigned
    exact ⟨hparse _ hsealed.timestamp, hsealed.payload.mono hparse⟩

end P2PEnvelope

/-! ## A signed greeting -/

namespace Sample

/-- The node key of holder `n`. -/
def nodeKey (n : UInt8) : NodeKey where
  derivePublicKey := ok (publicKey n)
  signMessage message := ok (signMessage n message)

theorem nodeKey_sound (pool : List Transaction) (n : UInt8) : (nodeKey n).Sound (env pool) where
  verifies := by
    intro publicKey' message signature hkey hsignature
    rw [← (ok.inj hkey : publicKey n = publicKey'),
      ← (ok.inj hsignature : signMessage n message = signature)]
    exact verifyDigest_signDigest pool n (digest _).length_bytes

/-- The envelope as holder `n` signs it. -/
def sealEnvelope (pool : List Transaction) (n : UInt8) (e : P2PEnvelope) : P2PEnvelope :=
  { e with
    nodeId := address n
    nodePublicKey := some (publicKey n)
    signature := some (signMessage n (P2PEnvelope.signingDigest (env pool)
      { e with nodeId := address n })) }

theorem signed_nodeKey (pool : List Transaction) (n : UInt8) (e : P2PEnvelope) :
    e.signed (env pool) (nodeKey n) = ok (sealEnvelope pool n e) :=
  P2PEnvelope.signed_eq_ok.mpr
    ⟨publicKey n, address n, _, rfl, deriveAddress_publicKey pool n, rfl, rfl⟩

theorem morning_representable : morning.Representable := ⟨by decide, by decide⟩

/-- A greeting of holder 7. -/
def greeting : P2PEnvelope := P2PEnvelope.new "" "hello" morning .ping

end Sample

namespace P2PEnvelope

/-- The greeting's signature binds it, and the signed greeting survives transport. -/
theorem signature_binds_sample :
    ((Sample.sealEnvelope [] 7 Sample.greeting).payload =
      (Sample.sealEnvelope [] 7 Sample.greeting).payload) ∧
    ∃ received, parse DateTime.ofDebugText (Sample.sealEnvelope [] 7 Sample.greeting).write =
      some received ∧ received.verifyIdentity (Sample.env []) = ok () := by
  have hbinds := @signature_binds_envelope (Sample.env []) DateTime.ofDebugText
    fun t ht => DateTime.readBack_ofDebugText ht
  have hsigned := Sample.signed_nodeKey [] 7 Sample.greeting
  have htimed : Sample.greeting.Timed DateTime.Representable :=
    ⟨Sample.morning_representable, trivial⟩
  have hverify := verifyIdentity_signed (Sample.nodeKey_sound [] 7) hsigned
  have hsealed := signed_timed htimed hsigned
  have hfree : Env.CollisionFree (Sample.env []) {utf8 (Sample.sealEnvelope [] 7
      Sample.greeting).material, utf8 (Sample.sealEnvelope [] 7 Sample.greeting).material} := by
    rw [Set.pair_eq_singleton]
    exact Set.injOn_singleton _ _
  exact ⟨(hbinds.1 _ _ _ rfl rfl hverify hverify rfl rfl hsealed hsealed hfree rfl).2.2.2,
    hbinds.2 _ _ _ (Sample.nodeKey_sound [] 7) htimed hsigned⟩

end P2PEnvelope
