/-
# Base64

The standard alphabet with canonical padding.  Three bytes are written as four characters; a last
group of one or two bytes is padded, and its unused bits are zero.
-/
import Mathlib.Tactic

namespace Base64

/-! ## Characters -/

/-- The character of six bits. -/
def symbol (v : ℕ) : Char :=
  if v < 26 then Char.ofNat (65 + v)
  else if v < 52 then Char.ofNat (71 + v)
  else if v < 62 then Char.ofNat (v - 4)
  else if v = 62 then '+' else '/'

/-- The six bits of a character. -/
def value (c : Char) : Option ℕ :=
  if 'A' ≤ c ∧ c ≤ 'Z' then some (c.toNat - 65)
  else if 'a' ≤ c ∧ c ≤ 'z' then some (c.toNat - 71)
  else if '0' ≤ c ∧ c ≤ '9' then some (c.toNat + 4)
  else if c = '+' then some 62
  else if c = '/' then some 63
  else none

theorem value_symbol {v : ℕ} (h : v < 64) : value (symbol v) = some v := by
  decide +revert

theorem symbol_ne_pad {v : ℕ} (h : v < 64) : symbol v ≠ '=' := by
  decide +revert

/-! ## Encoding -/

/-- Two bytes share the second character of their group, and the third. -/
def second (x y : UInt8) : ℕ := x.toNat % 4 * 16 + y.toNat / 16

def third (y z : UInt8) : ℕ := y.toNat % 16 * 4 + z.toNat / 64

def encode : List UInt8 → List Char
  | [] => []
  | [x] => [symbol (x.toNat / 4), symbol (second x 0), '=', '=']
  | [x, y] => [symbol (x.toNat / 4), symbol (second x y), symbol (third y 0), '=']
  | x :: y :: z :: rest =>
    symbol (x.toNat / 4) :: symbol (second x y) :: symbol (third y z) :: symbol (z.toNat % 64) ::
      encode rest

example : encode [77, 97] = ['T', 'W', 'E', '='] := by decide

/-! ## Decoding -/

/-- The bytes of a padded group whose unused bits are zero. -/
def decodeLast (a b c : Char) : Option (List UInt8) := do
  let p ← value a
  let q ← value b
  if c = '=' then
    if q % 16 = 0 then some [UInt8.ofNat (p * 4 + q / 16)] else none
  else
    let r ← value c
    if r % 4 = 0 then some [UInt8.ofNat (p * 4 + q / 16), UInt8.ofNat (q % 16 * 16 + r / 4)]
    else none

def decode : List Char → Option (List UInt8)
  | [] => some []
  | a :: b :: c :: d :: rest =>
    if d = '=' ∧ rest = [] then decodeLast a b c
    else do
      let p ← value a
      let q ← value b
      let r ← value c
      let t ← value d
      let bytes ← decode rest
      some (UInt8.ofNat (p * 4 + q / 16) :: UInt8.ofNat (q % 16 * 16 + r / 4) ::
        UInt8.ofNat (r % 4 * 64 + t) :: bytes)
  | _ => none

/-! ## Round trip -/

theorem second_lt (x y : UInt8) : second x y < 64 := by
  have := y.toNat_lt
  unfold second
  omega

theorem third_lt (y z : UInt8) : third y z < 64 := by
  have := z.toNat_lt
  unfold third
  omega

theorem first_byte (x y : UInt8) : UInt8.ofNat (x.toNat / 4 * 4 + second x y / 16) = x := by
  have hx := x.toNat_lt
  have hy := y.toNat_lt
  have hsum : x.toNat / 4 * 4 + second x y / 16 = x.toNat := by
    unfold second
    omega
  rw [hsum, UInt8.ofNat_toNat]

theorem second_byte (x y z : UInt8) : UInt8.ofNat (second x y % 16 * 16 + third y z / 4) = y := by
  have hy := y.toNat_lt
  have hz := z.toNat_lt
  have hsum : second x y % 16 * 16 + third y z / 4 = y.toNat := by
    unfold second third
    omega
  rw [hsum, UInt8.ofNat_toNat]

theorem third_byte (y z : UInt8) : UInt8.ofNat (third y z % 4 * 64 + z.toNat % 64) = z := by
  have hz := z.toNat_lt
  have hsum : third y z % 4 * 64 + z.toNat % 64 = z.toNat := by
    unfold third
    omega
  rw [hsum, UInt8.ofNat_toNat]

theorem decode_encode (bytes : List UInt8) : decode (encode bytes) = some bytes := by
  have hfirst : ∀ x : UInt8, value (symbol (x.toNat / 4)) = some (x.toNat / 4) := by
    intro x
    have := x.toNat_lt
    exact value_symbol (by omega)
  induction bytes using encode.induct with
  | case1 => rfl
  | case2 x =>
    have hbits : second x 0 % 16 = 0 := by
      simp [second]
    rw [encode, decode, if_pos ⟨rfl, rfl⟩]
    simp only [decodeLast, hfirst, value_symbol (second_lt x 0), Option.bind_eq_bind,
      Option.bind_some, hbits, if_true, first_byte]
  | case3 x y =>
    have hbits : third y 0 % 4 = 0 := by
      simp [third, Nat.mul_mod_left]
    rw [encode, decode, if_pos ⟨rfl, rfl⟩]
    simp only [decodeLast, hfirst, value_symbol (second_lt x y), value_symbol (third_lt y 0),
      Option.bind_eq_bind, Option.bind_some, if_neg (symbol_ne_pad (third_lt y 0)), hbits, if_true,
      first_byte, second_byte]
  | case4 x y z rest ih =>
    have hlast : z.toNat % 64 < 64 := Nat.mod_lt _ (by decide)
    rw [encode, decode, if_neg (fun h => symbol_ne_pad hlast h.1)]
    simp only [hfirst, value_symbol (second_lt x y), value_symbol (third_lt y z),
      value_symbol hlast, ih, Option.bind_eq_bind, Option.bind_some, first_byte, second_byte,
      third_byte]

/-- An encoding consists of characters of the alphabet and padding. -/
theorem not_mem_encode {c : Char} (hvalue : value c = none) (hpad : c ≠ '=') (bytes : List UInt8) :
    c ∉ encode bytes := by
  have hne : ∀ v < 64, c ≠ symbol v := by
    rintro v hv rfl
    rw [value_symbol hv] at hvalue
    cases hvalue
  have hfirst : ∀ x : UInt8, c ≠ symbol (x.toNat / 4) := by
    intro x
    have := x.toNat_lt
    exact hne _ (by omega)
  induction bytes using encode.induct with
  | case1 => simp [encode]
  | case2 x => simp [encode, hfirst, hne _ (second_lt x 0), hpad]
  | case3 x y => simp [encode, hfirst, hne _ (second_lt x y), hne _ (third_lt y 0), hpad]
  | case4 x y z rest ih =>
    have hlast : z.toNat % 64 < 64 := Nat.mod_lt _ (by decide)
    simp [encode, hfirst, hne _ (second_lt x y), hne _ (third_lt y z), hne _ hlast, ih]

end Base64
