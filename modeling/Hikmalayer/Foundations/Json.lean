/-
# JSON values and their compact text

Values whose numbers are natural, the compact text they are printed as, and a reader of such
texts.

* `Json.ofText_text`: reading a printed value gives it back, so printing is injective;
* `Json.ne_append_of_bar`: no object starts after a bar inside a printed value.
-/
import Mathlib.Tactic

/-- A JSON value with natural numbers. -/
inductive Json where
  | null
  | bool (value : Bool)
  | num (value : ℕ)
  | str (value : String)
  | arr (items : List Json)
  | obj (members : List (String × Json))

namespace Json

/-! ## Printing -/

/-- A character inside a quoted string; control characters are escaped. -/
def escape (c : Char) : List Char :=
  if c = '"' then ['\\', '"']
  else if c = '\\' then ['\\', '\\']
  else if c = '\n' then ['\\', 'n']
  else if c = '\r' then ['\\', 'r']
  else if c = '\t' then ['\\', 't']
  else if c.toNat = 8 then ['\\', 'b']
  else if c.toNat = 12 then ['\\', 'f']
  else if c.toNat < 32 then
    ['\\', 'u', '0', '0', Nat.digitChar (c.toNat / 16), Nat.digitChar (c.toNat % 16)]
  else [c]

/-- The rest of a quoted string, up to the closing quote. -/
def body (s : List Char) : List Char := s.flatMap escape ++ ['"']

mutual

/-- The compact text of a value. -/
def chars : Json → List Char
  | .null => ['n', 'u', 'l', 'l']
  | .bool true => ['t', 'r', 'u', 'e']
  | .bool false => ['f', 'a', 'l', 's', 'e']
  | .num n => Nat.toDigits 10 n
  | .str s => '"' :: body s.toList
  | .arr [] => ['[', ']']
  | .arr (item :: rest) => '[' :: (chars item ++ itemChars rest)
  | .obj [] => ['{', '}']
  | .obj (member :: rest) => '{' :: (memberText member ++ memberChars rest)

/-- The items after the first, and the closing bracket. -/
def itemChars : List Json → List Char
  | [] => [']']
  | item :: rest => ',' :: (chars item ++ itemChars rest)

/-- One member. -/
def memberText : String × Json → List Char
  | (key, value) => '"' :: (body key.toList ++ ':' :: chars value)

/-- The members after the first, and the closing brace. -/
def memberChars : List (String × Json) → List Char
  | [] => ['}']
  | member :: rest => ',' :: (memberText member ++ memberChars rest)

end

/-- The compact text of a value, as a string. -/
def text (j : Json) : String := String.ofList j.chars

/-! ## Reading -/

/-- The value of a lower-case hexadecimal digit. -/
def hexDigit (c : Char) : Option ℕ :=
  if c.isDigit then some (c.toNat - 48)
  else if 'a' ≤ c ∧ c ≤ 'f' then some (c.toNat - 87)
  else none

/-- The character of an escape that is one letter. -/
def unescape : Char → Option Char
  | '"' => some '"'
  | '\\' => some '\\'
  | 'n' => some '\n'
  | 'r' => some '\r'
  | 't' => some '\t'
  | 'b' => some (Char.ofNat 8)
  | 'f' => some (Char.ofNat 12)
  | _ => none

/-- Read up to the closing quote: the characters, and what follows. -/
def readBody : List Char → Option (List Char × List Char)
  | [] => none
  | '"' :: rest => some ([], rest)
  | '\\' :: 'u' :: '0' :: '0' :: high :: low :: rest => do
    let high ← hexDigit high
    let low ← hexDigit low
    let (s, rest) ← readBody rest
    return (Char.ofNat (16 * high + low) :: s, rest)
  | '\\' :: c :: rest => do
    let c ← unescape c
    let (s, rest) ← readBody rest
    return (c :: s, rest)
  | c :: rest => do
    let (s, rest) ← readBody rest
    return (c :: s, rest)

/-- Read a number: the longest run of digits. -/
def readNumber (l : List Char) : Option (Json × List Char) :=
  if l.takeWhile Char.isDigit = [] then none
  else some (.num (Nat.ofDigitChars 10 (l.takeWhile Char.isDigit) 0), l.dropWhile Char.isDigit)

/-- Read a keyword. -/
def readWord (word : List Char) (value : Json) (l : List Char) : Option (Json × List Char) :=
  if word <+: l then some (value, l.drop word.length) else none

mutual

/-- Read one value, going at most `fuel` characters deep. -/
def read : ℕ → List Char → Option (Json × List Char)
  | 0, _ => none
  | _ + 1, [] => none
  | fuel + 1, c :: rest =>
    if c = 'n' then readWord ['u', 'l', 'l'] .null rest
    else if c = 't' then readWord ['r', 'u', 'e'] (.bool true) rest
    else if c = 'f' then readWord ['a', 'l', 's', 'e'] (.bool false) rest
    else if c = '"' then do
      let (s, rest) ← readBody rest
      return (.str (String.ofList s), rest)
    else if c = '[' then
      if rest.head? = some ']' then some (.arr [], rest.tail)
      else do
        let (item, rest) ← read fuel rest
        let (items, rest) ← readItems fuel rest
        return (.arr (item :: items), rest)
    else if c = '{' then
      if rest.head? = some '}' then some (.obj [], rest.tail)
      else do
        let (member, rest) ← readMember fuel rest
        let (members, rest) ← readMembers fuel rest
        return (.obj (member :: members), rest)
    else readNumber (c :: rest)

/-- Read the items after the first. -/
def readItems : ℕ → List Char → Option (List Json × List Char)
  | 0, _ => none
  | _ + 1, ']' :: rest => some ([], rest)
  | fuel + 1, ',' :: rest => do
    let (item, rest) ← read fuel rest
    let (items, rest) ← readItems fuel rest
    return (item :: items, rest)
  | _ + 1, _ => none

/-- Read one member. -/
def readMember : ℕ → List Char → Option ((String × Json) × List Char)
  | fuel + 1, '"' :: rest => do
    let (key, rest) ← readBody rest
    match rest with
    | ':' :: rest => do
      let (value, rest) ← read fuel rest
      return ((String.ofList key, value), rest)
    | _ => none
  | _, _ => none

/-- Read the members after the first. -/
def readMembers : ℕ → List Char → Option (List (String × Json) × List Char)
  | 0, _ => none
  | _ + 1, '}' :: rest => some ([], rest)
  | fuel + 1, ',' :: rest => do
    let (member, rest) ← readMember fuel rest
    let (members, rest) ← readMembers fuel rest
    return (member :: members, rest)
  | _ + 1, _ => none

end

/-- Read a whole text. -/
def ofText (s : String) : Option Json :=
  match read s.toList.length s.toList with
  | some (j, []) => some j
  | _ => none

/-! ## Reading back -/

theorem hexDigit_digitChar : ∀ {n : ℕ}, n < 16 → hexDigit (Nat.digitChar n) = some n := by
  decide

/-- An escape of one letter is read as the character it stands for. -/
theorem readBody_unescape {c d : Char} (hu : d ≠ 'u') (h : unescape d = some c) (l : List Char) :
    readBody ('\\' :: d :: l) = (readBody l).map fun p => (c :: p.1, p.2) := by
  simp [readBody, hu, h]
  cases readBody l <;> rfl

theorem readBody_escape (c : Char) (l : List Char) :
    readBody (escape c ++ l) = (readBody l).map fun p => (c :: p.1, p.2) := by
  unfold escape
  split_ifs with h₁ h₂ h₃ h₄ h₅ h₆ h₇ h₈
  · exact readBody_unescape (by decide) (by rw [h₁]; rfl) l
  · exact readBody_unescape (by decide) (by rw [h₂]; rfl) l
  · exact readBody_unescape (by decide) (by rw [h₃]; rfl) l
  · exact readBody_unescape (by decide) (by rw [h₄]; rfl) l
  · exact readBody_unescape (by decide) (by rw [h₅]; rfl) l
  · refine readBody_unescape (by decide) ?_ l
    rw [← Char.ofNat_toNat c, h₆]
    rfl
  · refine readBody_unescape (by decide) ?_ l
    rw [← Char.ofNat_toNat c, h₇]
    rfl
  · have hhigh : c.toNat / 16 < 16 := by omega
    have hlow : c.toNat % 16 < 16 := Nat.mod_lt _ (by norm_num)
    simp [readBody, hexDigit_digitChar hhigh, hexDigit_digitChar hlow, Nat.div_add_mod]
    cases readBody l <;> rfl
  · simp [readBody, h₂]
    cases readBody l <;> rfl

theorem readBody_body (s rest : List Char) : readBody (body s ++ rest) = some (s, rest) := by
  induction s with
  | nil => rfl
  | cons c s ih =>
    have hsplit : body (c :: s) ++ rest = escape c ++ (body s ++ rest) := by
      simp only [body, List.flatMap_cons, List.append_assoc]
    rw [hsplit, readBody_escape, ih]
    rfl

/-- What can follow a number: anything but a further digit. -/
def Ended (rest : List Char) : Prop := ∀ c ∈ rest.head?, c.isDigit = false

theorem takeWhile_isDigit {l rest : List Char} (hl : ∀ c ∈ l, c.isDigit = true)
    (hrest : Ended rest) :
    (l ++ rest).takeWhile Char.isDigit = l ∧ (l ++ rest).dropWhile Char.isDigit = rest := by
  induction l with
  | nil =>
    cases rest with
    | nil => exact ⟨rfl, rfl⟩
    | cons c rest =>
      have hc : c.isDigit = false := hrest c rfl
      simp [hc]
  | cons c l ih =>
    obtain ⟨htake, hdrop⟩ := ih fun d hd => hl d (List.mem_cons_of_mem _ hd)
    have hc : c.isDigit = true := hl c List.mem_cons_self
    simp only [List.cons_append, List.takeWhile_cons, List.dropWhile_cons, hc, if_true, htake,
      hdrop, and_self]

theorem readNumber_toDigits {n : ℕ} {rest : List Char} (hrest : Ended rest) :
    readNumber (Nat.toDigits 10 n ++ rest) = some (.num n, rest) := by
  have hdigits : ∀ c ∈ Nat.toDigits 10 n, c.isDigit = true := fun c hc =>
    Nat.isDigit_of_mem_toDigits (by norm_num) (by norm_num) hc
  obtain ⟨htake, hdrop⟩ := takeWhile_isDigit hdigits hrest
  rw [readNumber, htake, hdrop, if_neg Nat.toDigits_ne_nil, Nat.ofDigitChars_ten_toDigits]

/-- What starts no value of another kind starts a number. -/
theorem read_toDigits {n fuel : ℕ} {rest : List Char} (hrest : Ended rest) :
    read (fuel + 1) (Nat.toDigits 10 n ++ rest) = some (.num n, rest) := by
  obtain ⟨c, l, hl⟩ := List.exists_cons_of_ne_nil (Nat.toDigits_ne_nil (n := n) (b := 10))
  have hc : c.isDigit = true :=
    Nat.isDigit_of_mem_toDigits (by norm_num) (by norm_num) (hl ▸ List.mem_cons_self)
  have hread := @readNumber_toDigits n rest hrest
  rw [hl, List.cons_append] at hread ⊢
  have hne : ∀ d : Char, d.isDigit = false → c ≠ d := fun d hd h => by
    rw [← h, hc] at hd
    exact absurd hd (by decide)
  rw [read, if_neg (hne 'n' rfl), if_neg (hne 't' rfl), if_neg (hne 'f' rfl),
    if_neg (hne '"' rfl), if_neg (hne '[' rfl), if_neg (hne '{' rfl), hread]

/-- A printed value starts with no closing bracket. -/
theorem exists_chars (j : Json) : ∃ c l, chars j = c :: l ∧ c ≠ ']' := by
  match j with
  | .null => exact ⟨_, _, rfl, by decide⟩
  | .bool true => exact ⟨_, _, rfl, by decide⟩
  | .bool false => exact ⟨_, _, rfl, by decide⟩
  | .num n =>
    obtain ⟨c, l, hl⟩ := List.exists_cons_of_ne_nil (Nat.toDigits_ne_nil (n := n) (b := 10))
    have hc : c.isDigit = true :=
      Nat.isDigit_of_mem_toDigits (by norm_num) (by norm_num) (hl ▸ List.mem_cons_self)
    refine ⟨c, l, hl, fun h => ?_⟩
    rw [h] at hc
    exact absurd hc (by decide)
  | .str s => exact ⟨_, _, rfl, by decide⟩
  | .arr [] => exact ⟨_, _, rfl, by decide⟩
  | .arr (_ :: _) => exact ⟨_, _, rfl, by decide⟩
  | .obj [] => exact ⟨_, _, rfl, by decide⟩
  | .obj (_ :: _) => exact ⟨_, _, rfl, by decide⟩

/-- What follows an item or a member is a comma or a closing bracket. -/
theorem ended_itemChars (items : List Json) (rest : List Char) : Ended (itemChars items ++ rest) := by
  intro c hc
  match items with
  | [] =>
    rw [itemChars, List.cons_append, List.head?_cons, Option.mem_some_iff] at hc
    exact hc ▸ rfl
  | _ :: _ =>
    rw [itemChars, List.cons_append, List.head?_cons, Option.mem_some_iff] at hc
    exact hc ▸ rfl

theorem ended_memberChars (members : List (String × Json)) (rest : List Char) :
    Ended (memberChars members ++ rest) := by
  intro c hc
  match members with
  | [] =>
    rw [memberChars, List.cons_append, List.head?_cons, Option.mem_some_iff] at hc
    exact hc ▸ rfl
  | _ :: _ =>
    rw [memberChars, List.cons_append, List.head?_cons, Option.mem_some_iff] at hc
    exact hc ▸ rfl

mutual

/-- Reading a printed value gives the value and what follows it. -/
theorem read_chars : ∀ (j : Json) {fuel : ℕ} {rest : List Char}, (chars j).length ≤ fuel →
    Ended rest → read fuel (chars j ++ rest) = some (j, rest)
  | .null, fuel + 1, rest, _, _ => rfl
  | .bool true, fuel + 1, rest, _, _ => rfl
  | .bool false, fuel + 1, rest, _, _ => rfl
  | .num n, fuel + 1, rest, _, hrest => read_toDigits hrest
  | .str s, fuel + 1, rest, _, _ => by
    rw [chars, List.cons_append, read]
    simp [readBody_body]
  | .arr [], fuel + 1, rest, _, _ => rfl
  | .arr (item :: items), fuel + 1, rest, hfuel, hrest => by
    rw [chars, List.length_cons, List.length_append] at hfuel
    have hitem := @read_chars item fuel (itemChars items ++ rest) (by omega)
      (ended_itemChars items rest)
    have hitems := @readItems_itemChars items fuel rest (by omega)
    obtain ⟨c, l, hl, hc⟩ := exists_chars item
    have hhead : (chars item ++ (itemChars items ++ rest)).head? ≠ some ']' := by
      rw [hl, List.cons_append, List.head?_cons, Ne, Option.some.injEq]
      exact hc
    have hopen : read (fuel + 1) ('[' :: (chars item ++ (itemChars items ++ rest))) = do
        let (item, rest) ← read fuel (chars item ++ (itemChars items ++ rest))
        let (items, rest) ← readItems fuel rest
        return (.arr (item :: items), rest) := by
      rw [read, if_neg (by decide), if_neg (by decide), if_neg (by decide), if_neg (by decide),
        if_pos rfl, if_neg hhead]
    rw [chars, List.cons_append, List.append_assoc, hopen, hitem]
    simp only [Option.bind_eq_bind, Option.bind_some, hitems, Option.pure_def]
  | .obj [], fuel + 1, rest, _, _ => rfl
  | .obj (member :: members), fuel + 1, rest, hfuel, _ => by
    rw [chars, List.length_cons, List.length_append] at hfuel
    have hmember := @readMember_memberText member fuel (memberChars members ++ rest) (by omega)
      (ended_memberChars members rest)
    have hmembers := @readMembers_memberChars members fuel rest (by omega)
    have hhead : (memberText member ++ (memberChars members ++ rest)).head? ≠ some '}' := by
      obtain ⟨key, value⟩ := member
      rw [memberText, List.cons_append, List.head?_cons, Ne, Option.some.injEq]
      decide
    have hopen : read (fuel + 1) ('{' :: (memberText member ++ (memberChars members ++ rest))) = do
        let (member, rest) ← readMember fuel (memberText member ++ (memberChars members ++ rest))
        let (members, rest) ← readMembers fuel rest
        return (.obj (member :: members), rest) := by
      rw [read, if_neg (by decide), if_neg (by decide), if_neg (by decide), if_neg (by decide),
        if_neg (by decide), if_pos rfl, if_neg hhead]
    rw [chars, List.cons_append, List.append_assoc, hopen, hmember]
    simp only [Option.bind_eq_bind, Option.bind_some, hmembers, Option.pure_def]
  | j, 0, rest, hfuel, _ => by
    obtain ⟨c, l, hl, -⟩ := exists_chars j
    rw [hl] at hfuel
    exact absurd hfuel (Nat.not_succ_le_zero _)

theorem readItems_itemChars : ∀ (items : List Json) {fuel : ℕ} {rest : List Char},
    (itemChars items).length ≤ fuel → readItems fuel (itemChars items ++ rest) = some (items, rest)
  | [], fuel + 1, rest, _ => rfl
  | item :: items, fuel + 1, rest, hfuel => by
    rw [itemChars, List.length_cons, List.length_append] at hfuel
    have hitem := @read_chars item fuel (itemChars items ++ rest) (by omega)
      (ended_itemChars items rest)
    have hitems := @readItems_itemChars items fuel rest (by omega)
    rw [itemChars, List.cons_append, List.append_assoc, readItems, hitem]
    simp only [Option.bind_eq_bind, Option.bind_some, hitems, Option.pure_def]
  | [], 0, rest, hfuel => absurd hfuel (Nat.not_succ_le_zero _)
  | _ :: _, 0, rest, hfuel => absurd hfuel (Nat.not_succ_le_zero _)

theorem readMember_memberText : ∀ (member : String × Json) {fuel : ℕ} {rest : List Char},
    (memberText member).length ≤ fuel → Ended rest →
    readMember fuel (memberText member ++ rest) = some (member, rest)
  | (key, value), fuel + 1, rest, hfuel, hrest => by
    rw [memberText, List.length_cons, List.length_append, List.length_cons] at hfuel
    have hvalue := @read_chars value fuel rest (by omega) hrest
    rw [memberText, List.cons_append, List.append_assoc, readMember, readBody_body]
    simp only [Option.bind_eq_bind, Option.bind_some, List.cons_append, hvalue, Option.pure_def,
      String.ofList_toList]
  | (_, _), 0, rest, hfuel, _ => absurd hfuel (Nat.not_succ_le_zero _)

theorem readMembers_memberChars : ∀ (members : List (String × Json)) {fuel : ℕ}
    {rest : List Char}, (memberChars members).length ≤ fuel →
    readMembers fuel (memberChars members ++ rest) = some (members, rest)
  | [], fuel + 1, rest, _ => rfl
  | member :: members, fuel + 1, rest, hfuel => by
    rw [memberChars, List.length_cons, List.length_append] at hfuel
    have hmember := @readMember_memberText member fuel (memberChars members ++ rest) (by omega)
      (ended_memberChars members rest)
    have hmembers := @readMembers_memberChars members fuel rest (by omega)
    rw [memberChars, List.cons_append, List.append_assoc, readMembers, hmember]
    simp only [Option.bind_eq_bind, Option.bind_some, hmembers, Option.pure_def]
  | [], 0, rest, hfuel => absurd hfuel (Nat.not_succ_le_zero _)
  | _ :: _, 0, rest, hfuel => absurd hfuel (Nat.not_succ_le_zero _)

end

/-- Reading a printed value gives it back. -/
theorem ofText_text (j : Json) : ofText (text j) = some j := by
  have h := @read_chars j (chars j).length [] le_rfl (fun c hc => absurd hc (by simp))
  rw [List.append_nil] at h
  rw [ofText, text, String.toList_ofList, h]

/-- Only a bracket opens an array. -/
theorem head_of_read_arr {fuel : ℕ} {l rest : List Char} {items : List Json}
    (h : read fuel l = some (.arr items, rest)) : l.head? = some '[' := by
  cases fuel with
  | zero => cases h
  | succ fuel =>
    cases l with
    | nil => cases h
    | cons c l =>
      by_cases hbracket : c = '['
      · rw [hbracket, List.head?_cons]
      · rw [read] at h
        simp only [hbracket, if_false, readWord, readNumber] at h
        split_ifs at h <;> simp [Option.bind_eq_some_iff] at h

theorem head_of_ofText_arr {s : String} {items : List Json} (h : ofText s = some (.arr items)) :
    s.toList.head? = some '[' := by
  unfold ofText at h
  split at h
  · rename_i j hread
    rw [Option.some.inj h] at hread
    exact head_of_read_arr hread
  · cases h

theorem text_injective : Function.Injective text := fun j j' h => by
  have hread : ofText (text j) = ofText (text j') := congrArg ofText h
  rw [ofText_text, ofText_text, Option.some.injEq] at hread
  exact hread

/-! ## Where a character can stand -/

/-- Where a scan of a printed value stands: outside strings, inside one, after a backslash, or
just after a closing quote. -/
inductive Place where
  | outside
  | inside
  | escaped
  | closed

/-- One character further.  A bar stands in no printed value outside a string, and only a
separator follows a closing quote. -/
def Place.next : Place → Char → Option Place
  | .outside, c => if c = '"' then some .inside else if c = '|' then none else some .outside
  | .inside, c =>
    if c = '"' then some .closed else if c = '\\' then some .escaped else some .inside
  | .escaped, _ => some .inside
  | .closed, c => if c ∈ [',', ':', ']', '}'] then some .outside else none

def scan : Place → List Char → Option Place
  | p, [] => some p
  | p, c :: rest => (p.next c).bind fun p => scan p rest

theorem scan_append (l r : List Char) : ∀ p : Place,
    scan p (l ++ r) = (scan p l).bind fun p => scan p r := by
  induction l with
  | nil => exact fun _ => rfl
  | cons c l ih =>
    intro p
    rw [List.cons_append, scan, scan, Option.bind_assoc]
    exact congrArg _ (funext ih)

/-- A scan passes over characters that are no quote and no bar. -/
theorem scan_outside {l : List Char} (h : ∀ c ∈ l, c ≠ '"' ∧ c ≠ '|') :
    scan .outside l = some .outside := by
  induction l with
  | nil => rfl
  | cons c l ih =>
    obtain ⟨hquote, hbar⟩ := h c List.mem_cons_self
    rw [scan, Place.next, if_neg hquote, if_neg hbar]
    exact ih fun d hd => h d (List.mem_cons_of_mem _ hd)

theorem digitChar_ne {n : ℕ} (h : n < 16) : Nat.digitChar n ≠ '"' ∧ Nat.digitChar n ≠ '\\' := by
  revert n
  decide

theorem scan_escape (c : Char) : scan .inside (escape c) = some .inside := by
  unfold escape
  split_ifs with h₁ h₂ h₃ h₄ h₅ h₆ h₇ h₈
  any_goals rfl
  · obtain ⟨hquote, hslash⟩ := @digitChar_ne (c.toNat / 16) (by omega)
    obtain ⟨hquote', hslash'⟩ := @digitChar_ne (c.toNat % 16) (Nat.mod_lt _ (by norm_num))
    simp [scan, Place.next, hquote, hslash, hquote', hslash']
  · simp [scan, Place.next, h₁, h₂]

/-- The rest of a string leads to its closing quote. -/
theorem scan_body (s : List Char) : scan .inside (body s) = some .closed := by
  induction s with
  | nil => rfl
  | cons c s ih =>
    have hsplit : body (c :: s) = escape c ++ body s := by
      simp only [body, List.flatMap_cons, List.append_assoc]
    rw [hsplit, scan_append, scan_escape]
    exact ih

/-- Where a scan stands after a value. -/
inductive Place.Rests : Place → Prop
  | outside : Rests .outside
  | closed : Rests .closed

/-- A separator leads out of a value. -/
theorem Place.Rests.next {p : Place} (h : p.Rests) {c : Char} (hc : c ∈ [',', ':', ']', '}']) :
    p.next c = some .outside := by
  have hne : c ≠ '"' ∧ c ≠ '|' := by
    revert hc
    simp only [List.mem_cons, List.not_mem_nil, or_false]
    rintro (rfl | rfl | rfl | rfl) <;> decide
  cases h with
  | outside => rw [Place.next, if_neg hne.1, if_neg hne.2]
  | closed => rw [Place.next, if_pos hc]

mutual

/-- A scan goes through a printed value. -/
theorem scan_chars : ∀ j : Json, ∃ p : Place, scan .outside (chars j) = some p ∧ p.Rests
  | .null => ⟨_, rfl, .outside⟩
  | .bool true => ⟨_, rfl, .outside⟩
  | .bool false => ⟨_, rfl, .outside⟩
  | .num n => by
    refine ⟨_, scan_outside fun c hc => ?_, .outside⟩
    have hdigit : c.isDigit = true := Nat.isDigit_of_mem_toDigits (by norm_num) (by norm_num) hc
    constructor <;>
    · rintro rfl
      exact absurd hdigit (by decide)
  | .str s => ⟨_, scan_body s.toList, .closed⟩
  | .arr [] => ⟨_, rfl, .outside⟩
  | .arr (item :: items) => by
    obtain ⟨p, hp, hrests⟩ := scan_chars item
    refine ⟨.outside, ?_, .outside⟩
    show scan .outside (chars item ++ itemChars items) = _
    rw [scan_append, hp]
    exact scan_itemChars items hrests
  | .obj [] => ⟨_, rfl, .outside⟩
  | .obj (member :: members) => by
    obtain ⟨p, hp, hrests⟩ := scan_memberText member
    refine ⟨.outside, ?_, .outside⟩
    show scan .outside (memberText member ++ memberChars members) = _
    rw [scan_append, hp]
    exact scan_memberChars members hrests

theorem scan_itemChars : ∀ (items : List Json) {p : Place}, p.Rests →
    scan p (itemChars items) = some .outside
  | [], p, hp => by
    rw [itemChars, scan, hp.next (by decide)]
    rfl
  | item :: items, p, hp => by
    obtain ⟨q, hq, hrests⟩ := scan_chars item
    rw [itemChars, scan, hp.next (by decide), Option.bind_some, scan_append, hq]
    exact scan_itemChars items hrests

theorem scan_memberText : ∀ member : String × Json,
    ∃ p : Place, scan .outside (memberText member) = some p ∧ p.Rests
  | (key, value) => by
    obtain ⟨p, hp, hrests⟩ := scan_chars value
    refine ⟨p, ?_, hrests⟩
    show scan .inside (body key.toList ++ ':' :: chars value) = _
    rw [scan_append, scan_body]
    exact hp

theorem scan_memberChars : ∀ (members : List (String × Json)) {p : Place}, p.Rests →
    scan p (memberChars members) = some .outside
  | [], p, hp => by
    rw [memberChars, scan, hp.next (by decide)]
    rfl
  | member :: members, p, hp => by
    obtain ⟨q, hq, hrests⟩ := scan_memberText member
    rw [memberChars, scan, hp.next (by decide), Option.bind_some, scan_append, hq]
    exact scan_memberChars members hrests

end

/-- After a bar a printed value contains no object with a key: the bar stands inside a string,
which the opening quote of the key would close. -/
theorem ne_append_of_bar (j : Json) (pre post : List Char) {c : Char}
    (hc : c ∉ [',', ':', ']', '}']) : chars j ≠ pre ++ '|' :: '{' :: '"' :: c :: post := by
  intro h
  obtain ⟨p, hp, -⟩ := scan_chars j
  rw [h, scan_append] at hp
  obtain ⟨q, -, hq⟩ := Option.bind_eq_some_iff.mp hp
  have hdead : Place.next .closed c = none := if_neg hc
  have hinside : scan .inside ('|' :: '{' :: '"' :: c :: post) = none := by
    show (Place.next .closed c).bind _ = none
    rw [hdead]
    rfl
  cases q with
  | outside => exact absurd hq (by simp [scan, Place.next])
  | inside => exact absurd (hinside.symm.trans hq) (by simp)
  | escaped => exact absurd (hinside.symm.trans hq) (by simp)
  | closed => exact absurd hq (by simp [scan, Place.next])

/-! ## Records -/

section Records

variable {α : Type}

/-- The member of a name; `none` where the name stands twice. -/
def member (members : List (String × Json)) (name : String) : Option (Option Json) :=
  match members.filter fun m => m.1 = name with
  | [] => some none
  | [m] => some (some m.2)
  | _ => none

/-- A member that must be there. -/
def required (decode : Json → Option α) (members : List (String × Json)) (name : String) :
    Option α :=
  match member members name with
  | some (some j) => decode j
  | _ => none

/-- A member that may be left out. -/
def withDefault (default : α) (decode : Json → Option α) (members : List (String × Json))
    (name : String) : Option α :=
  match member members name with
  | some (some j) => decode j
  | some none => some default
  | none => none

def asText : Json → Option String
  | .str s => some s
  | _ => none

def asFlag : Json → Option Bool
  | .bool b => some b
  | _ => none

def asNumber (bound : ℕ) : Json → Option ℕ
  | .num n => if n < bound then some n else none
  | _ => none

def asList (decode : Json → Option α) : Json → Option (List α)
  | .arr items => items.mapM decode
  | _ => none

def asOption (decode : Json → Option α) : Json → Option (Option α)
  | .null => some none
  | j => (decode j).map some

def ofOption (encode : α → Json) : Option α → Json
  | none => .null
  | some a => encode a

/-- Among distinct names the member of a name is found. -/
theorem member_of_mem {members : List (String × Json)} {name : String} {j : Json}
    (hnames : (members.map Prod.fst).Nodup) (h : (name, j) ∈ members) :
    member members name = some (some j) := by
  have hfilter : members.filter (fun m => m.1 = name) = [(name, j)] := by
    induction members with
    | nil => exact absurd h List.not_mem_nil
    | cons m rest ih =>
      rw [List.map_cons, List.nodup_cons] at hnames
      rcases List.mem_cons.mp h with rfl | h
      · have hnone : rest.filter (fun m => m.1 = name) = [] := by
          rw [List.filter_eq_nil_iff]
          intro m hm hname
          exact hnames.1 (List.mem_map.mpr ⟨m, hm, of_decide_eq_true hname⟩)
        rw [List.filter_cons_of_pos (by simp), hnone]
      · have hne : m.1 ≠ name := fun hname =>
          hnames.1 (hname ▸ List.mem_map_of_mem (f := Prod.fst) h)
        rw [List.filter_cons_of_neg (by simpa using hne), ih hnames.2 h]
  rw [member, hfilter]

theorem required_of_mem {decode : Json → Option α} {members : List (String × Json)} {name : String}
    {j : Json} (hnames : (members.map Prod.fst).Nodup) (h : (name, j) ∈ members) :
    required decode members name = decode j := by
  rw [required, member_of_mem hnames h]

theorem withDefault_of_mem {default : α} {decode : Json → Option α}
    {members : List (String × Json)} {name : String} {j : Json}
    (hnames : (members.map Prod.fst).Nodup) (h : (name, j) ∈ members) :
    withDefault default decode members name = decode j := by
  rw [withDefault, member_of_mem hnames h]

theorem asOption_ofOption {encode : α → Json} {decode : Json → Option α} {o : Option α}
    (hdecode : ∀ a ∈ o, decode (encode a) = some a) (hnull : ∀ a, encode a ≠ .null) :
    asOption decode (ofOption encode o) = some o := by
  cases o with
  | none => rfl
  | some a =>
    have h : asOption decode (encode a) = (decode (encode a)).map some := by
      have hne := hnull a
      revert hne
      cases encode a <;> intro hne
      · exact absurd rfl hne
      all_goals rfl
    rw [ofOption, h, hdecode a rfl]
    rfl

theorem asList_arr {encode : α → Json} {decode : Json → Option α} {l : List α}
    (hdecode : ∀ a ∈ l, decode (encode a) = some a) :
    asList decode (.arr (l.map encode)) = some l := by
  rw [asList]
  induction l with
  | nil => rfl
  | cons a l ih =>
    rw [List.map_cons, List.mapM_cons, hdecode a List.mem_cons_self,
      ih fun b hb => hdecode b (List.mem_cons_of_mem _ hb)]
    rfl

theorem asNumber_num {bound n : ℕ} (h : n < bound) : asNumber bound (.num n) = some n := if_pos h

end Records

end Json
