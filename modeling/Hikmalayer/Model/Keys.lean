/-
# Keys, addresses and signatures

The pure part of `consensus/pos.rs`, `consensus/pq.rs`, `consensus/hybrid.rs` and
`consensus/vrf.rs`: canonical key spellings, address derivation, verification of
the two signature schemes and of the VRF, and the leader draw.
-/
import Mathlib.Tactic
import Hikmalayer.Foundations.Outcome
import Hikmalayer.Model.Env

open Outcome

/-! ## secp256k1 accounts (`consensus/pos.rs`) -/

namespace Pos

/-- Native address prefix. -/
def addressPrefix : String := "hkm"

/-- Domain-separation prefix for signed messages. -/
def messagePrefix : String := "\x19Hikmalayer Signed Message:\n"

/-- Parse a public key, insisting on its one canonical spelling. -/
def canonicalPublicKey (E : Env) (publicKeyHex : String) : Outcome String (List UInt8) := do
  let bytes ← okOr (hexDecode publicKeyHex) (E.hexError publicKeyHex)
  let publicKey ← okOr (E.parsePublicKey bytes) (E.keyError bytes)
  ensure (hexEncode publicKey = publicKeyHex)
    "public key must be the canonical uncompressed form (04 + 128 lower-case hex              characters)"
  return publicKey

/-- Whether this is the canonical encoding of a valid public key. -/
def isCanonicalPublicKey (E : Env) (publicKeyHex : String) : Bool :=
  match canonicalPublicKey E publicKeyHex with
  | ok _ => true
  | _ => false

/-- `hkm` and the first 20 bytes of SHA-256 over the uncompressed key. -/
def deriveAddress (E : Env) (publicKeyHex : String) : Outcome String String := do
  let publicKey ← canonicalPublicKey E publicKeyHex
  return addressPrefix ++ hexEncode ((E.sha256 publicKey).bytes.take 20)

/-- Verify a compact signature over a 32-byte digest; anything malformed fails. -/
def verifyDigest (E : Env) (digest : List UInt8) (publicKeyHex signatureHex : String) : Bool :=
  if digest.length ≠ 32 then false
  else match hexDecode signatureHex, hexDecode publicKeyHex with
    | some signature, some keyBytes =>
      match E.parsePublicKey keyBytes with
      | some publicKey => E.verifyEcdsa digest signature publicKey
      | none => false
    | _, _ => false

def verifyBlockSignature (E : Env) (blockHash publicKeyHex signatureHex : String) : Bool :=
  match hexDecode blockHash with
  | some hashBytes => verifyDigest E hashBytes publicKeyHex signatureHex
  | none => false

/-- Digest of a message under the native signing domain. -/
def messageDigest (E : Env) (message : String) : List UInt8 :=
  (E.sha256 (utf8 (messagePrefix ++ toString (byteLen message) ++ message))).bytes

def verifyMessage (E : Env) (message publicKeyHex signatureHex : String) : Bool :=
  verifyDigest E (messageDigest E message) publicKeyHex signatureHex

/-- The first eight bytes of the seed's digest, big endian. -/
def seedToU64 (E : Env) (seed : String) : UInt64 :=
  ((E.sha256 (utf8 seed)).bytes.take 8).foldl (fun acc b => acc * 256 + UInt64.ofNat b.toNat) 0

/-- Walk the stakers until the running point falls inside one's stake. -/
def scanStakers {ε : Type} (running : UInt64) : List Staker → Outcome ε (Option String)
  | [] => return none
  | staker :: rest =>
    if running < staker.stake then return some staker.address
    else do
      let running ← plain (Word.checkedSub running staker.stake)
      scanStakers running rest

/-- The leader drawn by a seed, proportionally to stake. -/
def selectStakerWithSeed {ε : Type} (E : Env) (seed : String) (stakers : List Staker) :
    Outcome ε (Option String) := do
  let totalStake ← plain (Word.checkedSum (stakers.map Staker.stake))
  if totalStake = 0 then return none
  scanStakers (seedToU64 E seed % totalStake) stakers

end Pos

/-! ## ML-DSA-65 (`consensus/pq.rs`) -/

namespace Pq

def publicKeyLen : ℕ := 1952
def signatureLen : ℕ := 3309

/-- Domain prefix for block signatures. -/
def blockDomain : String := "hikmalayer-pq-block-v1:"

/-- Decode hex after trimming. -/
def decodeHex (value what : String) : Outcome String (List UInt8) :=
  okOr (hexDecode (trim value)) (what ++ " is not valid hex")

/-- Verify an ML-DSA signature; anything malformed fails. -/
def verifyMessage (E : Env) (message publicKeyHex signatureHex : String) : Bool :=
  match decodeHex publicKeyHex "public key", decodeHex signatureHex "signature" with
  | ok publicBytes, ok signatureBytes =>
    publicBytes.length = publicKeyLen && signatureBytes.length = signatureLen &&
      E.verifyMlDsa (utf8 message) publicBytes signatureBytes
  | _, _ => false

/-- Decode an ML-DSA public key, insisting on its one canonical spelling. -/
def canonicalPqPublicKey (value : String) : Outcome String (List UInt8) := do
  let bytes ← decodeHex value "post-quantum public key"
  ensure (bytes.length = publicKeyLen) "post-quantum public key is not a valid ML-DSA-65 key"
  ensure (hexEncode bytes = value)
    "post-quantum public key must be lower-case hex with no leading or trailing space"
  return bytes

/-- Verify a block's ML-DSA signature. -/
def verifyBlockSignature (E : Env) (blockHash pqPublicKeyHex signatureHex : String) : Bool :=
  verifyMessage E (blockDomain ++ blockHash) pqPublicKeyHex signatureHex

end Pq

/-! ## Hybrid accounts (`consensus/hybrid.rs`) -/

namespace Hybrid

/-- Address prefix for hybrid accounts. -/
def addressPrefix : String := "hkq"

/-- Domain separator for hybrid address derivation. -/
def addressDomain : String := "hikmalayer-hybrid-address-v1"

/-- How an account authorizes itself. -/
inductive AccountScheme where
  | classical
  | hybrid
  deriving DecidableEq, Repr

def isHexLower (c : Char) : Bool := ('0' ≤ c && c ≤ '9') || ('a' ≤ c && c ≤ 'f')

/-- The characters after a prefix, when the text starts with it. -/
def stripPrefix (start address : String) : Option (List Char) :=
  if start.toList <+: address.toList then some (address.toList.drop start.toList.length)
  else none

/-- Which scheme an address commits to, decided by its prefix. -/
def schemeOf (address : String) : Option AccountScheme :=
  if byteLen address ≠ 43 then none
  else match stripPrefix addressPrefix address with
    | some rest => if rest.all isHexLower then some .hybrid else none
    | none =>
      match stripPrefix Pos.addressPrefix address with
      | some rest => if rest.all isHexLower then some .classical else none
      | none => none

def isHybridAddress (address : String) : Bool := schemeOf address = some .hybrid

/-- `hkq` and the first 20 bytes of SHA-256 over the domain and both keys. -/
def deriveHybridAddress (E : Env) (classicalPublicKeyHex pqPublicKeyHex : String) :
    Outcome String String := do
  let uncompressed ← (Pos.canonicalPublicKey E (trim classicalPublicKeyHex)).mapErr
    fun err => "classical public key is not canonical: " ++ err
  let pqBytes ← Pq.canonicalPqPublicKey (trim pqPublicKeyHex)
  let hash := E.sha256 (utf8 addressDomain ++ uncompressed ++ pqBytes)
  return addressPrefix ++ hexEncode (hash.bytes.take 20)

/-- Verify that `address` authorized `message` under both schemes. -/
def verifyHybrid (E : Env) (address message classicalPublicKeyHex pqPublicKeyHex
    signatureHex pqSignatureHex : String) : Outcome String Unit := do
  let derived ← deriveHybridAddress E classicalPublicKeyHex pqPublicKeyHex
  ensure (derived = address) "Sender address does not match the hybrid key pair"
  ensure (Pos.verifyMessage E message classicalPublicKeyHex signatureHex)
    "Classical signature verification failed"
  ensure (Pq.verifyMessage E message pqPublicKeyHex pqSignatureHex)
    "Post-quantum signature verification failed"

end Hybrid

/-- Whether a string is a payable address of either scheme. -/
def isValidAddress (value : String) : Bool := (Hybrid.schemeOf value).isSome

/-! ## The VRF (`consensus/vrf.rs`) -/

namespace Vrf

/-- Verify an output and proof against a registered VRF key. -/
def verify (E : Env) (input vrfPublicKeyHex outputHex proofHex : String) : Bool :=
  match hexDecode vrfPublicKeyHex, hexDecode outputHex, hexDecode proofHex with
  | some publicKey, some output, some proof => E.verifyVrf (utf8 input) publicKey output proof
  | _, _, _ => false

/-- The VRF input for a slot. -/
def slotInput (parentRandomness : String) (height : UInt64) : String :=
  parentRandomness ++ ":" ++ toString height

/-- The VRF input for a slot and round; round 0 keeps the legacy form. -/
def slotInputAtRound (parentRandomness : String) (height round : UInt64) : String :=
  if round = 0 then slotInput parentRandomness height
  else parentRandomness ++ ":" ++ toString height ++ ":" ++ toString round

/-- Fold a block's VRF output into the randomness beacon. -/
def nextRandomness (E : Env) (parentRandomness vrfOutputHex : String) : String :=
  hexEncode (E.sha256 (utf8 parentRandomness ++ utf8 vrfOutputHex)).bytes

end Vrf
