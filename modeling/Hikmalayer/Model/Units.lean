/-
# Amounts as text

`sdk/src/units.js` and `python-sdk/hikmalayer/units.py`: base units from the decimal text of an
amount, and back.  The JavaScript parser slices the text; the Python parser goes through `Decimal`,
whose constructor is exact and whose products are rounded to the precision of the context.
-/
import Mathlib.Tactic
import Hikmalayer.Foundations.Decimal
import Hikmalayer.Foundations.Outcome
import Hikmalayer.Model.Javascript

open Outcome Decimal

/-! ## JavaScript -/

namespace Sdk

/-- The text without its leading minus. -/
def bodyOf (text : List Char) : List Char := if text.head? = some '-' then text.tail else text

/-- `/^-?\d*\.?\d*$/`. -/
def matchesDecimal (text : List Char) : Bool :=
  match (bodyOf text).dropWhile Char.isDigit with
  | [] => true
  | '.' :: rest => rest.all Char.isDigit
  | _ => false

/-- The first two pieces of `body.split(".")`. -/
def splitPoint (body : List Char) : List Char × List Char :=
  (body.takeWhile (· ≠ '.'), (body.dropWhile (· ≠ '.')).tail.takeWhile (· ≠ '.'))

def parseUnits (input : String) (decimals : ℕ) : Outcome String ℤ :=
  let text := Text.trimBy Javascript.isSpace input.toList
  if text = [] then ok 0
  else do
    ensure (¬ (matchesDecimal text = false ∨ text = ['.'] ∨ text = ['-']))
      (String.ofList ['"'] ++ input ++ String.ofList ['"'] ++ " is not a decimal number")
    let negative := text.head? = some '-'
    let (whole, fraction) := splitPoint (bodyOf text)
    ensure (¬ decimals < fraction.length)
      (s!"This asset has {decimals} decimals; " ++ String.ofList ['"'] ++ input ++
        String.ofList ['"'] ++ s!" has {fraction.length}")
    let units := Nat.ofDigitChars 10
      ((if whole = [] then ['0'] else whole) ++ padEnd fraction decimals) 0
    return signed negative units

def formatUnits (baseUnits : ℤ) (decimals : ℕ) : String :=
  if decimals = 0 then toString baseUnits
  else
    let negative := baseUnits < 0
    let value := baseUnits.natAbs
    let scale := 10 ^ decimals
    let fraction := (padStart (Nat.toDigits 10 (value % scale)) decimals).rdropWhile (· = '0')
    let whole := Nat.toDigits 10 (value / scale)
    let text := if fraction ≠ [] then whole ++ '.' :: fraction else whole
    String.ofList (if negative then '-' :: text else text)

end Sdk

/-! ## Python -/

/-- What the Python interpreter brings: the decimal values of characters outside ASCII, and the
quoting of texts in messages. -/
structure Python where
  unicodeDigit : Char → Option ℕ
  repr : String → String
  unicodeDigit_range : ∀ {c d}, unicodeDigit c = some d → 128 ≤ c.toNat ∧ d < 10

inductive PythonError where
  | valueError (message : String)
  | typeError (message : String)
  /-- `decimal.Overflow`. -/
  | overflow
  deriving DecidableEq, Repr

namespace PythonSdk

/-- What `str.strip` takes off. -/
def isSpace (c : Char) : Bool :=
  c.toNat ∈ [9, 10, 11, 12, 13, 28, 29, 30, 31, 32, 133, 160, 5760, 8192, 8193, 8194, 8195, 8196,
    8197, 8198, 8199, 8200, 8201, 8202, 8232, 8233, 8239, 8287, 12288]

/-- Underscores are dropped and the digits of every script become ASCII digits. -/
def toAscii (P : Python) (text : List Char) : List Char :=
  (text.filter (· ≠ '_')).map fun c => ((P.unicodeDigit c).map Nat.digitChar).getD c

/-- The infinities and the NaNs, in either case of letters. -/
def isSpecial (text : List Char) : Bool :=
  let l := (readSign text).2.map Char.toLower
  l = "inf".toList || l = "infinity".toList ||
    (("nan".toList.isPrefixOf l) && (l.drop 3).all Char.isDigit) ||
    (("snan".toList.isPrefixOf l) && (l.drop 4).all Char.isDigit)

/-- A decimal: finite with its digits and exponent, or an infinity or NaN. -/
inductive PyDecimal where
  | finite (parts : Parts)
  | special

/-- `MAX_EMAX` and `MIN_ETINY` of the decimal library. -/
def maxEmax : ℤ := 999999999999999999

def minEtiny : ℤ := -1999999999999999997

def inLimits (parts : Parts) : Bool :=
  digitCount parts.coefficient + parts.scale - 1 ≤ maxEmax && minEtiny ≤ parts.scale

/-- `Decimal(text)`; nothing is rounded, and what cannot be exact is an invalid operation. -/
def toDecimal (P : Python) (text : List Char) : Option PyDecimal :=
  match Decimal.read (toAscii P text) with
  | some parts => if inLimits parts then some (.finite parts) else none
  | none => if isSpecial (toAscii P text) then some .special else none

/-- `prec` and `Emax` of the default context. -/
def precision : ℕ := 28

def emax : ℤ := 999999

/-- The coefficient and the exponent of a product, rounded to the precision. -/
def rounded (product : ℕ) (exponent : ℤ) : ℕ × ℤ :=
  (roundHalfEven product (10 ^ excess precision product), exponent + excess precision product)

/-- The rounded number is too large for the context. -/
def overflows (scaled : ℕ × ℤ) : Bool := scaled.1 ≠ 0 && emax < digitCount scaled.1 + scaled.2 - 1

/-- `scaled == scaled.to_integral_value()`. -/
def isIntegral (scaled : ℕ × ℤ) : Bool := 0 ≤ scaled.2 || scaled.1 % 10 ^ scaled.2.natAbs = 0

/-- `int(scaled)`. -/
def toInt (scaled : ℕ × ℤ) : ℕ :=
  if 0 ≤ scaled.2 then scaled.1 * 10 ^ scaled.2.natAbs else scaled.1 / 10 ^ scaled.2.natAbs

def parseUnits (P : Python) (value : String) (decimals : ℕ) : Outcome PythonError ℤ :=
  let text := Text.trimBy isSpace value.toList
  if text = [] then ok 0
  else do
    ensure (text.head? ≠ some '-') (.valueError "Amount must not be negative")
    match toDecimal P text with
    | none => err (.valueError ("Amount must be a decimal number: " ++ P.repr value))
    -- the exponent of these is a letter
    | some .special => err (.typeError "'<' not supported between instances of 'str' and 'int'")
    | some (.finite parts) => do
      ensure (¬ (parts.scale < 0 ∧ (decimals : ℤ) < -parts.scale))
        (.valueError s!"At most {decimals} decimal places for this asset")
      let scaled := rounded (parts.coefficient * 10 ^ decimals) parts.scale
      ensure (overflows scaled = false) .overflow
      ensure (isIntegral scaled = true)
        (.valueError s!"At most {decimals} decimal places for this asset")
      return signed parts.negative (toInt scaled)

def formatUnits (baseUnits : ℤ) (decimals : ℕ) : String :=
  let value := baseUnits
  if decimals = 0 then toString value
  else
    let negative := value < 0
    let value := value.natAbs
    let scale := 10 ^ decimals
    let whole := value / scale
    let fraction := (padStart (Nat.toDigits 10 (value % scale)) decimals).rdropWhile (· = '0')
    let text := if fraction ≠ [] then Nat.toDigits 10 whole ++ '.' :: fraction
      else Nat.toDigits 10 whole
    String.ofList (if negative then '-' :: text else text)

end PythonSdk
