import OutboxCluster.Text.Numeral

/-!
# Reading JSON Text

Readers of JSON text over the remaining characters. Only integers are read as
values; any other value can be passed over, once it is known that nobody asks
for it. Names are read in full, escapes included. A value that is passed over
must be JSON, except that its escapes need not name characters.

An integer has 64 bits and is written without a fraction or an exponent; minus
zero is no integer.

## Main definitions

* `Json.integer?`, `Json.integers?`: An integer, and an array of them.
* `Json.name?`: The name of a field.
* `Json.skipValue?`: What follows a value that nobody asked for.
-/

namespace OutboxCluster

namespace Json

/-- Drop the white space in front. -/
def skipSpace (s : List Char) : List Char :=
  s.dropWhile fun c => c = ' ' || c = '\n' || c = '\t' || c = '\r'

/-- What follows white space and a given character. -/
def expect? (c : Char) (s : List Char) : Option (List Char) :=
  match skipSpace s with
  | d :: rest => if d = c then some rest else none
  | [] => none

/-- Take the decimal digits in front, of which there must be one. -/
def digits? (s : List Char) : Option (List Char × List Char) :=
  match s.span Char.isDigit with
  | ([], _) => none
  | (digits, rest) => some (digits, rest)

/-- Take the digits of a whole number. It does not begin with a zero, unless
    that is all of it. -/
def whole? (s : List Char) : Option (List Char × List Char) :=
  match digits? s with
  | some ('0' :: _ :: _, _) => none
  | other => other

/-- What follows the fraction of a number, if it has one. -/
def skipFraction? : List Char → Option (List Char)
  | '.' :: rest => (digits? rest).map (·.2)
  | rest => some rest

/-- What follows the exponent of a number, if it has one. -/
def skipExponent? : List Char → Option (List Char)
  | [] => some []
  | c :: rest =>
    if c = 'e' ∨ c = 'E' then
      match rest with
      | '+' :: rest => (digits? rest).map (·.2)
      | '-' :: rest => (digits? rest).map (·.2)
      | rest => (digits? rest).map (·.2)
    else some (c :: rest)

/-- What follows a number without its sign. -/
def skipNumber? (s : List Char) : Option (List Char) := do
  let (_, rest) ← whole? s
  skipExponent? (← skipFraction? rest)

/-- The number of four hexadecimal digits. -/
def hex4? (a b c d : Char) : Option Nat :=
  [a, b, c, d].foldlM (fun value h =>
    if '0' ≤ h ∧ h ≤ '9' then some (16 * value + (h.toNat - '0'.toNat))
    else if 'a' ≤ h ∧ h ≤ 'f' then some (16 * value + (h.toNat - 'a'.toNat + 10))
    else if 'A' ≤ h ∧ h ≤ 'F' then some (16 * value + (h.toNat - 'A'.toNat + 10))
    else none) 0

/-- The character that a letter after a backslash stands for. -/
def named? : Char → Option Char
  | '"' => some '"'
  | '\\' => some '\\'
  | '/' => some '/'
  | 'b' => some '\x08'
  | 'f' => some '\x0c'
  | 'n' => some '\n'
  | 'r' => some '\r'
  | 't' => some '\t'
  | _ => none

/-- What follows a string that nobody asked for; its opening quote has been
    read. -/
def skipString? : List Char → Option (List Char)
  | [] => none
  | '"' :: rest => some rest
  | '\\' :: 'u' :: a :: b :: c :: d :: rest =>
    if (hex4? a b c d).isSome then skipString? rest else none
  | '\\' :: c :: rest => if (named? c).isSome then skipString? rest else none
  | c :: rest => if c.toNat < 32 ∨ c = '\\' then none else skipString? rest

/-- Whether a code is the first half of a character that takes two. -/
def isLeading (code : Nat) : Bool := 0xD800 ≤ code && code ≤ 0xDBFF

/-- Whether a code is the second half of a character that takes two. -/
def isTrailing (code : Nat) : Bool := 0xDC00 ≤ code && code ≤ 0xDFFF

/-- An escaped character; the backslash and the `u` have been read. A character
    outside the first plane takes two escapes. -/
def escaped? : List Char → Option (Char × List Char)
  | a :: b :: c :: d :: rest => do
    let code ← hex4? a b c d
    if isTrailing code then none
    else if isLeading code then
      match rest with
      | '\\' :: 'u' :: e :: f :: g :: h :: rest => do
        let low ← hex4? e f g h
        if isTrailing low then
          some (Char.ofNat (0x10000 + (code - 0xD800) * 0x400 + (low - 0xDC00)), rest)
        else none
      | _ => none
    else some (Char.ofNat code, rest)
  | _ => none

/-- The characters of a string; its opening quote has been read. -/
def stringBody? : Nat → List Char → Option (List Char × List Char)
  | 0, _ => none
  | _ + 1, [] => none
  | _ + 1, '"' :: rest => some ([], rest)
  | fuel + 1, '\\' :: 'u' :: rest => do
    let (c, rest) ← escaped? rest
    let (cs, rest) ← stringBody? fuel rest
    return (c :: cs, rest)
  | fuel + 1, '\\' :: c :: rest => do
    let c ← named? c
    let (cs, rest) ← stringBody? fuel rest
    return (c :: cs, rest)
  | fuel + 1, c :: rest => do
    if c.toNat < 32 ∨ c = '\\' then none
    let (cs, rest) ← stringBody? fuel rest
    return (c :: cs, rest)

/-- A name and the colon after it; the opening quote has been read. -/
def name? (s : List Char) : Option (String × List Char) := do
  let (cs, rest) ← stringBody? (s.length + 1) s
  return (String.ofList cs, ← expect? ':' rest)

/-- What follows the given characters. -/
def skipWord? : List Char → List Char → Option (List Char)
  | [], s => some s
  | c :: word, d :: rest => if d = c then skipWord? word rest else none
  | _ :: _, [] => none

mutual

/-- What follows a value that nobody asked for. The first argument bounds the
    number of values in it and of steps between them. -/
def skipValue? : Nat → List Char → Option (List Char)
  | 0, _ => none
  | fuel + 1, s =>
    match skipSpace s with
    | '"' :: rest => skipString? rest
    | '[' :: rest =>
      match skipSpace rest with
      | ']' :: rest => some rest
      | rest => skipItems? fuel rest
    | '\x7b' :: rest =>
      match skipSpace rest with
      | '\x7d' :: rest => some rest
      | rest => skipFields? fuel rest
    | 'n' :: rest => skipWord? ['u', 'l', 'l'] rest
    | 't' :: rest => skipWord? ['r', 'u', 'e'] rest
    | 'f' :: rest => skipWord? ['a', 'l', 's', 'e'] rest
    | '-' :: rest => skipNumber? rest
    | rest => skipNumber? rest

/-- What follows the items of an array, of which there is one at least. -/
def skipItems? : Nat → List Char → Option (List Char)
  | 0, _ => none
  | fuel + 1, s =>
    match skipValue? fuel s with
    | none => none
    | some rest =>
      match skipSpace rest with
      | ',' :: rest => skipItems? fuel rest
      | ']' :: rest => some rest
      | _ => none

/-- What follows the fields of an object, of which there is one at least. -/
def skipFields? : Nat → List Char → Option (List Char)
  | 0, _ => none
  | fuel + 1, s =>
    match expect? '"' s with
    | none => none
    | some rest =>
      match (skipString? rest).bind (expect? ':') with
      | none => none
      | some rest =>
        match skipValue? fuel rest with
        | none => none
        | some rest =>
          match skipSpace rest with
          | ',' :: rest => skipFields? fuel rest
          | '\x7d' :: rest => some rest
          | _ => none

end

/-- An integer of 64 bits. -/
def integer? (s : List Char) : Option (Int × List Char) := do
  let (negative, rest) := match skipSpace s with
    | '-' :: rest => (true, rest)
    | rest => (false, rest)
  let (digits, rest) ← whole? rest
  let magnitude ← Text.natural? digits
  let n : Int := if negative then -magnitude else magnitude
  if negative ∧ magnitude = 0 then none
  else if ! Text.fitsInt64 n then none
  else match rest with
    | '.' :: _ => none
    | 'e' :: _ => none
    | 'E' :: _ => none
    | rest => some (n, rest)

/-- The integers of an array and its closing bracket. -/
def integerItems? : Nat → List Char → Option (List Int × List Char)
  | 0, _ => none
  | fuel + 1, s => do
    let (n, rest) ← integer? s
    match skipSpace rest with
    | ']' :: rest => return ([n], rest)
    | ',' :: rest =>
      let (ns, rest) ← integerItems? fuel rest
      return (n :: ns, rest)
    | _ => none

/-- An array of integers. -/
def integers? (s : List Char) : Option (List Int × List Char) := do
  let rest ← expect? '[' s
  match skipSpace rest with
  | ']' :: rest => return ([], rest)
  | rest => integerItems? (rest.length + 1) rest

end Json

end OutboxCluster
