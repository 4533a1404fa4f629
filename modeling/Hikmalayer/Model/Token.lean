/-
# Signed tokens

The admin and P2P tokens of `auth/token.rs`: an authenticated payload with its issue time, its
expiry and its scope.  HMAC-SHA256 is a parameter; the clock is read once, and its reading is one.
-/
import Mathlib.Tactic
import Hikmalayer.Foundations.Base64
import Hikmalayer.Foundations.Outcome
import Hikmalayer.Foundations.Text
import Hikmalayer.Foundations.Word
import Hikmalayer.Model.Env

open Outcome

/-- `String::from_utf8`. -/
def fromUtf8 (bytes : List UInt8) : Option String := String.fromUTF8? ⟨bytes.toArray⟩

namespace Token

inductive Scope where
  | admin
  | p2p
  deriving DecidableEq, Repr

def Scope.asStr : Scope → String
  | admin => "admin"
  | p2p => "p2p"

def Scope.parse (s : String) : Option Scope :=
  if s = "admin" then some admin else if s = "p2p" then some p2p else none

inductive TokenError where
  | malformedToken
  | invalidSignature
  | expired
  | scopeMismatch
  deriving DecidableEq, Repr

/-- The payload that is authenticated. -/
def payload (issuedAt expiresAt : UInt64) (scope : Scope) : String :=
  toString issuedAt ++ ":" ++ toString expiresAt ++ ":" ++ scope.asStr

variable (hmac : List UInt8 → List UInt8 → List UInt8)

/-- Mint a token at `now`. -/
def generateToken (signingKey : List UInt8) (scope : Scope) (ttlSeconds now : UInt64) : String :=
  let expiresAt := Word.saturatingAdd now ttlSeconds
  let payload := payload now expiresAt scope
  let signature := hmac signingKey (utf8 payload)
  String.ofList (Base64.encode (utf8 payload)) ++ "." ++ hexEncode signature

/-- Read the fields of an authentic payload. -/
def checkPayload (payload : String) (expectedScope : Scope) (now : UInt64) :
    Outcome TokenError Unit := do
  let parts := Text.splitN ':' 3 payload.toList
  let issuedAt ← okOr parts[0]? .malformedToken
  let _ ← okOr (Text.readWord issuedAt) .malformedToken
  let expiresAt ← okOr parts[1]? .malformedToken
  let expiresAt ← okOr (Text.readWord expiresAt) .malformedToken
  let scopeStr ← okOr parts[2]? .malformedToken
  let tokenScope ← okOr (Scope.parse (String.ofList scopeStr)) .malformedToken
  ensure (tokenScope = expectedScope) .scopeMismatch
  ensure (¬ expiresAt < now) .expired

/-- Verify a token at `now`. -/
def verifyToken (token : String) (signingKey : List UInt8) (expectedScope : Scope) (now : UInt64) :
    Outcome TokenError Unit := do
  let (b64Payload, hexSig) ← okOr (Text.splitOnce '.' token.toList) .malformedToken
  let payloadBytes ← okOr (Base64.decode b64Payload) .malformedToken
  let payload ← okOr (fromUtf8 payloadBytes) .malformedToken
  let sigBytes ← okOr (hexDecode (String.ofList hexSig)) .malformedToken
  ensure (hmac signingKey (utf8 payload) = sigBytes) .invalidSignature
  checkPayload payload expectedScope now

end Token
