/-
# Session login

`AuthManager` of `auth/mod.rs`, the handlers of `/auth/nonce` and `/auth/verify`, and the
signature check of `auth/signature.rs`.  Each handler holds the manager's lock from its first
line to its last.  The fresh UUID it draws is a parameter.
-/
import Mathlib.Tactic
import Hikmalayer.Model.Keys

open Outcome

structure AuthManager where
  sessions : BTreeMap String
  nonces : BTreeMap String

namespace AuthManager

def new : AuthManager := ⟨∅, ∅⟩

/-- Issue a nonce for an address, in place of the one before. -/
def generateNonce (m : AuthManager) (uuid address : String) : String × AuthManager :=
  (uuid, { m with nonces := m.nonces.insert address uuid })

/-- Whether this is the nonce last issued for the address. -/
def verifyNonce (m : AuthManager) (address nonce : String) : Bool :=
  m.nonces[address]? = some nonce

/-- Open a session; the nonce of the address is spent. -/
def createSession (m : AuthManager) (uuid address : String) : String × AuthManager :=
  let token := uuid ++ "_" ++ address
  (token, ⟨m.sessions.insert token address, m.nonces.erase address⟩)

end AuthManager

structure VerifyRequest where
  address : String
  message : String
  publicKey : String
  signature : String
  nonce : String

structure VerifyResponse where
  token : String
  address : String
  deriving DecidableEq

/-- The refusals of the handlers. -/
inductive StatusCode where
  | badRequest
  | unauthorized
  deriving DecidableEq

namespace Auth

/-- `auth::signature::verify_signature`: the key derives to the address and its signature over
the message verifies. -/
def verifySignature (E : Env) (address message publicKeyHex signatureHex : String) : Bool :=
  match Pos.deriveAddress E publicKeyHex with
  | ok derived => derived = address && Pos.verifyMessage E message publicKeyHex signatureHex
  | _ => false

/-- The handler of `/auth/verify`: the nonce and the signature are checked one after the
other. -/
def verify (E : Env) (uuid : String) (m : AuthManager) (payload : VerifyRequest) :
    Outcome StatusCode (VerifyResponse × AuthManager) := do
  ensure (m.verifyNonce payload.address payload.nonce) .badRequest
  ensure (verifySignature E payload.address payload.message payload.publicKey payload.signature)
    .unauthorized
  let (token, m) := m.createSession uuid payload.address
  return (⟨token, payload.address⟩, m)

/-- A request is served exactly when both checks pass; then it opens a session. -/
theorem verify_eq_ok {E : Env} {uuid : String} {m m' : AuthManager} {payload : VerifyRequest}
    {response : VerifyResponse} :
    verify E uuid m payload = ok (response, m') ↔
      m.nonces[payload.address]? = some payload.nonce ∧
        verifySignature E payload.address payload.message payload.publicKey payload.signature =
          true ∧
        response = ⟨uuid ++ "_" ++ payload.address, payload.address⟩ ∧
        m' = (m.createSession uuid payload.address).2 := by
  simp only [verify, AuthManager.createSession, Outcome.bind_eq_ok, ensure_eq_ok, pure_eq,
    ok.injEq, Prod.mk.injEq, AuthManager.verifyNonce, decide_eq_true_eq, exists_const]
  constructor
  · rintro ⟨hnonce, hsignature, hresponse, hm⟩
    exact ⟨hnonce, hsignature, hresponse.symm, hm.symm⟩
  · rintro ⟨hnonce, hsignature, hresponse, hm⟩
    exact ⟨hnonce, hsignature, hresponse.symm, hm.symm⟩

end Auth
