/-
# The texts of the JavaScript clients

A JavaScript string is a list of 16-bit code units.  `TextEncoder` reads surrogate pairs and puts
the replacement character for a lone surrogate, so two strings can have the same bytes.
-/
import Mathlib.Tactic
import Hikmalayer.Foundations.Text
import Hikmalayer.Model.Env

namespace Javascript

/-! ## Code units -/

/-- The code units of a character. -/
def codeUnits (c : Char) : List UInt16 :=
  if c.toNat < 0x10000 then [UInt16.ofNat c.toNat]
  else [UInt16.ofNat (0xD800 + (c.toNat - 0x10000) / 0x400),
    UInt16.ofNat (0xDC00 + (c.toNat - 0x10000) % 0x400)]

/-- A text as a string. -/
def ofText (s : String) : List UInt16 := s.toList.flatMap codeUnits

/-- The first half of a surrogate pair. -/
def isHigh (u : UInt16) : Bool := 0xD800 ≤ u && u ≤ 0xDBFF

/-- The second half of a surrogate pair. -/
def isLow (u : UInt16) : Bool := 0xDC00 ≤ u && u ≤ 0xDFFF

/-- A code unit that stands alone. -/
def single (u : UInt16) : Char :=
  if isHigh u || isLow u then Char.ofNat 0xFFFD else Char.ofNat u.toNat

/-- The characters that `TextEncoder` finds. -/
def scalars : List UInt16 → List Char
  | [] => []
  | [u] => [single u]
  | u :: v :: rest =>
    if isHigh u && isLow v then
      Char.ofNat (0x10000 + (u.toNat - 0xD800) * 0x400 + (v.toNat - 0xDC00)) :: scalars rest
    else single u :: scalars (v :: rest)

/-- `utf8ToBytes`. -/
def utf8ToBytes (text : List UInt16) : List UInt8 := utf8 (String.ofList (scalars text))

/-! ## White space -/

/-- What `String.prototype.trim` takes off. -/
def isSpace (c : Char) : Bool :=
  c.toNat ∈ [9, 10, 11, 12, 13, 32, 160, 5760, 8192, 8193, 8194, 8195, 8196, 8197, 8198, 8199,
    8200, 8201, 8202, 8232, 8233, 8239, 8287, 12288, 65279]

end Javascript
