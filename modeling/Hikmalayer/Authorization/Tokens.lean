/-
# What a signed token is accepted for

A token text is accepted for the scope of a minted payload that it decodes to, until the expiry that
the payload names.  The tags are taken as unforgeable: a text carries a tag of the key only on a
payload that was minted with the key.
-/
import Mathlib.Tactic
import Hikmalayer.Model.Hex
import Hikmalayer.Model.Sample
import Hikmalayer.Model.Token

open Outcome

/-! ## Text -/

theorem fromUtf8_utf8 (s : String) : fromUtf8 (utf8 s) = some s := by
  unfold fromUtf8 utf8 String.fromUTF8?
  rw [dif_pos (show ByteArray.IsValidUTF8 ⟨s.toUTF8.data.toList.toArray⟩ from s.isValidUTF8)]
  rfl

namespace Token

/-! ## Minting -/

/-- A call of `generateToken`. -/
structure Mint where
  signingKey : List UInt8
  scope : Scope
  ttlSeconds : UInt64
  issuedAt : UInt64

namespace Mint

def expiresAt (m : Mint) : UInt64 := Word.saturatingAdd m.issuedAt m.ttlSeconds

def payload (m : Mint) : String := Token.payload m.issuedAt m.expiresAt m.scope

def token (hmac : List UInt8 → List UInt8 → List UInt8) (m : Mint) : String :=
  generateToken hmac m.signingKey m.scope m.ttlSeconds m.issuedAt

end Mint

variable {hmac : List UInt8 → List UInt8 → List UInt8} {signingKey tag tag' : List UInt8}
  {token text body : String} {scope expectedScope : Scope} {issuedAt expiresAt now : UInt64}

/-! ## Payloads -/

theorem colon_not_mem (n : UInt64) : ':' ∉ (toString n).toList := by
  intro h
  exact absurd (Text.isDigit_of_mem h) (by decide)

theorem splitN_payload : Text.splitN ':' 3 (payload issuedAt expiresAt scope).toList =
    [(toString issuedAt).toList, (toString expiresAt).toList, scope.asStr.toList] := by
  have hcolon : ":".toList = [':'] := rfl
  rw [payload, String.toList_append, String.toList_append, String.toList_append,
    String.toList_append, hcolon, List.append_assoc, List.append_assoc, List.append_assoc]
  simp only [Text.splitN, List.singleton_append, Text.splitOnce_append (colon_not_mem issuedAt),
    Text.splitOnce_append (colon_not_mem expiresAt)]

theorem parse_asStr (scope : Scope) : Scope.parse (String.ofList scope.asStr.toList) = some scope := by
  rw [String.ofList_toList]
  cases scope <;> rfl

/-- A minted payload passes for its scope until its expiry. -/
theorem checkPayload_payload : checkPayload (payload issuedAt expiresAt scope) expectedScope now =
    ok () ↔ scope = expectedScope ∧ now ≤ expiresAt := by
  unfold checkPayload
  simp only [splitN_payload, List.getElem?_cons_zero, List.getElem?_cons_succ, okOr_some, ok_bind,
    Text.readWord_toString, parse_asStr, Outcome.bind_eq_ok, ensure_eq_ok, UInt64.not_lt,
    exists_and_left, exists_const]

/-! ## Token texts -/

/-- The payload and the tag that a token text decodes to. -/
def Decodes (token payload : String) (tag : List UInt8) : Prop :=
  ∃ b64Payload hexSig payloadBytes,
    Text.splitOnce '.' token.toList = some (b64Payload, hexSig) ∧
      Base64.decode b64Payload = some payloadBytes ∧ fromUtf8 payloadBytes = some payload ∧
        hexDecode (String.ofList hexSig) = some tag

/-- A token passes when its tag is the one of its payload and its payload passes. -/
theorem verifyToken_eq_ok : verifyToken hmac token signingKey expectedScope now = ok () ↔
    ∃ payload, Decodes token payload (hmac signingKey (utf8 payload)) ∧
      checkPayload payload expectedScope now = ok () := by
  unfold verifyToken Decodes
  simp only [Outcome.bind_eq_ok, okOr_eq_ok, ensure_eq_ok]
  constructor
  · rintro ⟨⟨b64, sig⟩, hsplit, bytes, hbytes, payload, hpayload, tag, htag, _, rfl, hcheck⟩
    exact ⟨payload, ⟨b64, sig, bytes, hsplit, hbytes, hpayload, htag⟩, hcheck⟩
  · rintro ⟨payload, ⟨b64, sig, bytes, hsplit, hbytes, hpayload, htag⟩, hcheck⟩
    exact ⟨(b64, sig), hsplit, bytes, hbytes, payload, hpayload, _, htag, (), rfl, hcheck⟩

/-- What is put together as payload and tag decodes to them. -/
theorem decodes_iff : Decodes (String.ofList (Base64.encode (utf8 text)) ++ "." ++ hexEncode tag)
    body tag' ↔ body = text ∧ tag' = tag := by
  have hdot : '.' ∉ Base64.encode (utf8 text) :=
    Base64.not_mem_encode (by decide) (by decide) _
  have hsplit : Text.splitOnce '.' (String.ofList (Base64.encode (utf8 text)) ++ "." ++
      hexEncode tag).toList = some (Base64.encode (utf8 text), (hexEncode tag).toList) := by
    have hpoint : ".".toList = ['.'] := rfl
    rw [String.toList_append, String.toList_append, String.toList_ofList, hpoint, List.append_assoc,
      List.singleton_append, Text.splitOnce_append hdot]
  unfold Decodes
  rw [hsplit]
  constructor
  · rintro ⟨b64, sig, bytes, hparts, hbytes, hpayload, htag⟩
    rw [Option.some.injEq, Prod.mk.injEq] at hparts
    rw [← hparts.1, Base64.decode_encode, Option.some.injEq] at hbytes
    rw [← hbytes, fromUtf8_utf8, Option.some.injEq] at hpayload
    rw [← hparts.2, String.ofList_toList, hexDecode_hexEncode, Option.some.injEq] at htag
    exact ⟨hpayload.symm, htag.symm⟩
  · rintro ⟨rfl, rfl⟩
    exact ⟨_, _, _, rfl, Base64.decode_encode _, fromUtf8_utf8 _,
      by rw [String.ofList_toList, hexDecode_hexEncode]⟩

/-! ## Unforgeable tags -/

/-- The text carries a tag of the key only on a payload that was minted with the key. -/
def Unforged (hmac : List UInt8 → List UInt8 → List UInt8) (mints : Set Mint)
    (signingKey : List UInt8) (token : String) : Prop :=
  ∀ payload, Decodes token payload (hmac signingKey (utf8 payload)) →
    ∃ m ∈ mints, m.signingKey = signingKey ∧ m.payload = payload

/-- A minted token decodes to its payload and the tag of the key on it. -/
theorem decodes_token (m : Mint) : Decodes (m.token hmac) body tag ↔
    body = m.payload ∧ tag = hmac m.signingKey (utf8 m.payload) :=
  decodes_iff

/-! ## Main result -/

/-- A text that is no forgery is accepted exactly when it decodes to a payload that was minted with
the key for the scope, under the tag of the key, and its expiry has not passed.  Every minted token
is accepted for its scope through its whole lifetime. -/
theorem acceptance_exact {mints : Set Mint}
    (hunforged : Unforged hmac mints signingKey token) (scope : Scope) (now : UInt64) :
    (verifyToken hmac token signingKey scope now = ok () ↔
      ∃ m ∈ mints, m.signingKey = signingKey ∧ m.scope = scope ∧ now ≤ m.expiresAt ∧
        Decodes token m.payload (hmac signingKey (utf8 m.payload))) ∧
    ∀ m : Mint, ∀ now' ≤ m.expiresAt,
      verifyToken hmac (m.token hmac) m.signingKey m.scope now' = ok () := by
  constructor
  · rw [verifyToken_eq_ok]
    constructor
    · rintro ⟨payload, hdecodes, hcheck⟩
      obtain ⟨m, hm, hkey, rfl⟩ := hunforged payload hdecodes
      obtain ⟨hscope, hnow⟩ := checkPayload_payload.mp hcheck
      exact ⟨m, hm, hkey, hscope, hnow, hdecodes⟩
    · rintro ⟨m, -, -, hscope, hnow, hdecodes⟩
      exact ⟨m.payload, hdecodes, checkPayload_payload.mpr ⟨hscope, hnow⟩⟩
  · intro m now' hnow
    rw [verifyToken_eq_ok]
    exact ⟨m.payload, (decodes_token m).mpr ⟨rfl, rfl⟩, checkPayload_payload.mpr ⟨rfl, hnow⟩⟩

/-- An admin token for the longest lifetime never expires, and is no P2P token. -/
theorem acceptance_exact_sample :
    verifyToken (fun key message => (Sample.digest (key ++ message)).bytes)
        (Mint.token (fun key message => (Sample.digest (key ++ message)).bytes)
          ⟨[66], .admin, Word.max64, 1767312000⟩) [66] .admin Word.max64 = ok () ∧
      verifyToken (fun key message => (Sample.digest (key ++ message)).bytes)
        (Mint.token (fun key message => (Sample.digest (key ++ message)).bytes)
          ⟨[66], .admin, Word.max64, 1767312000⟩) [66] .p2p 1767312000 ≠ ok () := by
  set hmac : List UInt8 → List UInt8 → List UInt8 :=
    fun key message => (Sample.digest (key ++ message)).bytes
  set m : Mint := ⟨[66], .admin, Word.max64, 1767312000⟩
  have hunforged : Unforged hmac {m} [66] (m.token hmac) := by
    intro payload hdecodes
    exact ⟨m, rfl, rfl, ((decodes_token m).mp hdecodes).1.symm⟩
  refine ⟨(acceptance_exact hunforged .admin Word.max64).2 m Word.max64 (by decide), fun h => ?_⟩
  obtain ⟨m', hm', -, hscope, -, -⟩ := (acceptance_exact hunforged .p2p 1767312000).1.mp h
  rw [Set.mem_singleton_iff] at hm'
  rw [hm'] at hscope
  cases hscope

end Token
