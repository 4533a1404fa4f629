/-
# Credentials of a node

The credential endpoints of `api/routes.rs`: the transaction that a request to issue or to revoke
queues, what a node says about a credential, and what it hands out for others to check.
-/
import Mathlib.Tactic
import Hikmalayer.Model.Accounts

open Outcome

/-- What a client posts, to issue or to revoke. -/
structure CredentialWriteRequest where
  id : String
  subject : String
  dataHash : String
  issuer : String
  nonce : UInt64
  publicKey : Option String
  signature : Option String
  pqPublicKey : Option String
  pqSignature : Option String

/-- The transaction that `queue_credential_action` queues. -/
def CredentialWriteRequest.transaction (payload : CredentialWriteRequest) (revoke : Bool)
    (id : String) (timestamp : DateTime) : Transaction :=
  { Transaction.new id timestamp (some payload.issuer) payload.subject 0 .certificate with
    nonce := payload.nonce
    publicKey := payload.publicKey
    signature := payload.signature
    pqPublicKey := payload.pqPublicKey
    pqSignature := payload.pqSignature
    credential := some ⟨payload.id, payload.subject, payload.dataHash, revoke⟩ }

structure CredentialResponse where
  status : String
  message : String
  credential : Option CredentialRecord
  deriving DecidableEq, Repr

/-- A record with the chain's commitment to the registry it is from. -/
structure CredentialProofResponse where
  status : String
  credential : Option CredentialRecord
  height : UInt64
  stateRoot : String
  blockHash : String
  deriving DecidableEq, Repr

namespace Blockchain

def getCredential (chain : Blockchain) (id : String) : CredentialResponse :=
  match chain.state.credentials[id]? with
  | some record => ⟨"success", if record.revoked then "Credential " ++ id ++ " is REVOKED"
      else "Credential " ++ id ++ " is valid", some record⟩
  | none => ⟨"error", "Credential " ++ id ++ " not found", none⟩

def getCredentialProof {ε : Type} (E : Env) (chain : Blockchain) (id : String) :
    Outcome ε CredentialProofResponse := do
  let credential := chain.state.credentials[id]?
  let height ← chain.tipIndex
  return ⟨if credential.isSome then "success" else "error", credential, height,
    chain.state.stateRoot E, chain.latestHash⟩

/-- The chain as it stood after its block at position `k`. -/
def upTo (chain : Blockchain) (k : ℕ) : Blockchain :=
  { chain with
    blocks := chain.blocks.take (k + 1)
    finalizedHeight := chain.baseHeight }

end Blockchain
