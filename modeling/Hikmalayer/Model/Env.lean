/-
# What the node takes from outside the repository

`Env` collects the third-party functions that consensus rests on: SHA-256, the
two signature schemes, the VRF, JSON and the character tables behind `Debug`
printing.  Nothing is assumed about them here; each result names what it needs.
`Node` adds the one analysis knob: the node clamps saturating arithmetic, and the
trapping reading is used to say that nothing ever saturates.

The rest of the file is the text handling of the standard library and the hex
crate: byte lengths, trimming, `Debug` quoting, and hexadecimal text.
-/
import Mathlib.Tactic
import Hikmalayer.Foundations.Word
import Hikmalayer.Model.Types

/-- A SHA-256 digest. -/
@[ext]
structure Digest where
  bytes : List UInt8
  length_bytes : bytes.length = 32

/-- The third-party functions consensus rests on. -/
structure Env where
  /-- SHA-256. -/
  sha256 : List UInt8 → Digest
  /-- `PublicKey::from_slice`, giving the 65-byte uncompressed serialization. -/
  parsePublicKey : List UInt8 → Option (List UInt8)
  /-- `Signature::from_compact` and `verify_ecdsa`: digest, signature, key. -/
  verifyEcdsa : List UInt8 → List UInt8 → List UInt8 → Bool
  /-- ML-DSA-65 verification: message, public key, signature. -/
  verifyMlDsa : List UInt8 → List UInt8 → List UInt8 → Bool
  /-- sr25519 VRF verification: input, public key, output, proof. -/
  verifyVrf : List UInt8 → List UInt8 → List UInt8 → List UInt8 → Bool
  /-- `serde_json::to_string` of the chain state. -/
  stateJson : ChainState → String
  /-- `serde_json::to_string` of a transaction. -/
  txJson : Transaction → String
  /-- `serde_json::from_str` of a transaction. -/
  parseTx : String → Option Transaction
  /-- Characters that `Debug` prints as a code point: not printable, or
  extending a grapheme. -/
  escaped : Char → Bool
  /-- The text of the hex crate's decoding error. -/
  hexError : String → String
  /-- The text of the curve library's parsing error. -/
  keyError : List UInt8 → String

/-- A node: its third-party functions, and how its saturating arithmetic is read. -/
structure Node extends Env where
  /-- The node clamps. -/
  saturation : Word.Saturation

instance : Coe Node Env := ⟨Node.toEnv⟩

namespace Env

/-- No two of the inputs have the same digest. -/
def CollisionFree (E : Env) (inputs : Set (List UInt8)) : Prop := Set.InjOn E.sha256 inputs

end Env

/-! ## Text -/

/-- The bytes of a string. -/
def utf8 (s : String) : List UInt8 := s.toUTF8.data.toList

theorem utf8_injective : Function.Injective utf8 := by
  intro a b h
  apply String.toByteArray_inj.mp
  apply ByteArray.ext
  exact Array.toList_inj.mp h

theorem utf8_append (a b : String) : utf8 (a ++ b) = utf8 a ++ utf8 b := by
  simp [utf8, String.toUTF8]

/-- `str::len`: the number of bytes. -/
def byteLen (s : String) : ℕ := s.utf8ByteSize

/-- The Unicode property `White_Space`. -/
def isWhitespace (c : Char) : Bool :=
  c.toNat ∈ [9, 10, 11, 12, 13, 32, 133, 160, 5760, 8192, 8193, 8194, 8195, 8196, 8197,
    8198, 8199, 8200, 8201, 8202, 8232, 8233, 8239, 8287, 12288]

/-- `str::trim`. -/
def trim (s : String) : String :=
  String.ofList ((s.toList.dropWhile isWhitespace).reverse.dropWhile isWhitespace).reverse

/-- Whether trimming leaves nothing. -/
def blank (s : String) : Bool := s.toList.all isWhitespace

/-! ## `Debug` printing -/

/-- One character inside a `Debug` string. -/
def debugChar (E : Env) (c : Char) : List Char :=
  if c = '"' then ['\\', '"']
  else if c = '\\' then ['\\', '\\']
  else if c = '\n' then ['\\', 'n']
  else if c = '\r' then ['\\', 'r']
  else if c = '\t' then ['\\', 't']
  else if c.toNat = 0 then ['\\', '0']
  else if E.escaped c then ['\\', 'u', '\x7b'] ++ Nat.toDigits 16 c.toNat ++ ['\x7d']
  else [c]

/-- The `Debug` text of a string. -/
def debugString (E : Env) (s : String) : String :=
  String.ofList ('"' :: s.toList.flatMap (debugChar E) ++ ['"'])

/-- The `Debug` text of an optional string. -/
def debugOption (E : Env) : Option String → String
  | none => "None"
  | some s => "Some(" ++ debugString E s ++ ")"

/-! ## Hexadecimal text -/

/-- Lower-case hexadecimal text of a byte string. -/
def hexEncode (bytes : List UInt8) : String :=
  String.ofList (bytes.flatMap fun b =>
    [Nat.digitChar (b.toNat / 16), Nat.digitChar (b.toNat % 16)])

/-- The value of a hexadecimal digit of either case. -/
def hexValue (c : Char) : Option ℕ :=
  if '0' ≤ c ∧ c ≤ '9' then some (c.toNat - 48)
  else if 'a' ≤ c ∧ c ≤ 'f' then some (c.toNat - 87)
  else if 'A' ≤ c ∧ c ≤ 'F' then some (c.toNat - 55)
  else none

/-- Decode pairs of hexadecimal digits. -/
def hexDecodeChars : List Char → Option (List UInt8)
  | [] => some []
  | [_] => none
  | a :: b :: rest =>
    match hexValue a, hexValue b, hexDecodeChars rest with
    | some x, some y, some bytes => some (UInt8.ofNat (16 * x + y) :: bytes)
    | _, _, _ => none

/-- `hex::decode`: digits of either case, an even number of them. -/
def hexDecode (s : String) : Option (List UInt8) := hexDecodeChars s.toList

/-- SHA-256 of a text, in lower-case hexadecimal. -/
def sha256Hex (E : Env) (data : String) : String := hexEncode (E.sha256 (utf8 data)).bytes

namespace ChainState

/-- Canonical commitment to the full state. -/
def stateRoot (E : Env) (s : ChainState) : String := sha256Hex E (E.stateJson s)

end ChainState
