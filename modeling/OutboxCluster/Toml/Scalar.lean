import OutboxCluster.Text.Numeral
import OutboxCluster.Toml.Quoted

/-!
# Numbers and Moments

The unquoted values of a document other than the truth values. Digits may be
grouped by single underscores between them. A decimal number has no leading
zeros; a number in another base has a lower-case marker, may have leading
zeros, and has no sign. An integer must fit a signed 64-bit word, and a number
with a fraction or an exponent must not round to positive infinity in double
precision, though it may round to the negative one.

A moment is a date, a time of day, or a date and a time with an optional
offset. Its parts are checked against the calendar; a minute may have a leap
second.

## Main definitions

* `integer?`: A whole number in one of four bases.
* `float?`: A number with a fraction or an exponent, or one of the words for
  infinity and for no number.
* `moment?`: A date, a time, or both.
-/

namespace OutboxCluster

namespace Toml

/-- Digits that may continue a run, each with at most one underscore in front.
    An underscore that no digit follows is refused. -/
def moreDigits? (isDigit : Char → Bool) : Reader (List Char)
  | '_' :: c :: rest =>
    if isDigit c then (moreDigits? isDigit rest).map fun (cs, rest) => (c :: cs, rest) else none
  | ['_'] => none
  | c :: rest =>
    if isDigit c then (moreDigits? isDigit rest).map fun (cs, rest) => (c :: cs, rest)
    else some ([], c :: rest)
  | [] => some ([], [])

/-- A run of at least one digit, which may begin with zeros. -/
def digits? (isDigit : Char → Bool) : Reader (List Char)
  | c :: rest =>
    if isDigit c then (moreDigits? isDigit rest).map fun (cs, rest) => (c :: cs, rest) else none
  | [] => none

/-- Whether a number is negative, from its optional sign. -/
def sign : List Char → Bool × List Char
  | '+' :: rest => (false, rest)
  | '-' :: rest => (true, rest)
  | rest => (false, rest)

/-- The digits of a decimal number: a single zero, or digits that do not begin
    with one. -/
def decimal? : Reader (List Char)
  | '0' :: rest => some (['0'], rest)
  | rest => digits? Char.isDigit rest

/-- The value of digits in a base. -/
def digitsValue (base : Nat) (digits : List Char) : Nat :=
  digits.foldl (fun value c => base * value + (hexDigit? c).getD 0) 0

/-- The integer, if it fits a signed 64-bit word. -/
def bounded? (n : Int) (rest : List Char) : Option (Value × List Char) :=
  if Text.fitsInt64 n then some (.integer n, rest) else none

/-- A number in a base other than ten; the marker has been read. -/
def based? (base : Nat) (s : List Char) : Option (Value × List Char) := do
  let isDigit (c : Char) : Bool := (hexDigit? c).any (· < base)
  let (digits, rest) ← digits? isDigit s
  bounded? (digitsValue base digits) rest

/-- A whole number. -/
def integer? : Reader Value
  | '0' :: 'x' :: rest => based? 16 rest
  | '0' :: 'o' :: rest => based? 8 rest
  | '0' :: 'b' :: rest => based? 2 rest
  | s => do
    let (negative, rest) := sign s
    let (digits, rest) ← decimal? rest
    let n : Int := digitsValue 10 digits
    bounded? (if negative then -n else n) rest

/-- Whether `digits * 10 ^ exponent` rounds to infinity in double precision:
    it reaches the point half-way between the largest finite number and the
    next power of two. Numbers far from the limit are decided by their length,
    so a long exponent costs nothing. -/
def roundsToInfinity (digits : List Char) (exponent : Int) : Bool :=
  let digits := digits.dropWhile (· = '0')
  let magnitude := digits.length + exponent
  if digits.isEmpty then false
  else if magnitude < 300 then false
  else if 320 < magnitude then true
  else
    let limit := Nat.pow 2 1024 - Nat.pow 2 970
    let value := digitsValue 10 digits
    if exponent < 0 then limit * Nat.pow 10 exponent.natAbs ≤ value
    else limit ≤ value * Nat.pow 10 exponent.toNat

/-- An exponent; its letter has been read. -/
def exponent? (s : List Char) : Option (Int × List Char) := do
  let (negative, rest) := sign s
  let (digits, rest) ← digits? Char.isDigit rest
  let n : Int := digitsValue 10 digits
  return (if negative then -n else n, rest)

/-- An exponent with its letter, if there is one. -/
def optionalExponent? : List Char → Option (Int × List Char)
  | 'e' :: rest => exponent? rest
  | 'E' :: rest => exponent? rest
  | rest => some (0, rest)

/-- The words that stand for infinity and for no number. -/
def specialFloat? (s : List Char) : Option (List Char) :=
  match (sign s).2 with
  | 'i' :: 'n' :: 'f' :: rest => some rest
  | 'n' :: 'a' :: 'n' :: rest => some rest
  | _ => none

/-- A number written with a fraction or an exponent. -/
def plainFloat? (s : List Char) : Option (List Char) := do
  let (negative, rest) := sign s
  let (whole, rest) ← decimal? rest
  let (fraction, exponent, rest) ← match rest with
    | '.' :: rest => do
      let (fraction, rest) ← digits? Char.isDigit rest
      let (exponent, rest) ← optionalExponent? rest
      pure (fraction, exponent, rest)
    | 'e' :: rest => (exponent? rest).map fun (exponent, rest) => ([], exponent, rest)
    | 'E' :: rest => (exponent? rest).map fun (exponent, rest) => ([], exponent, rest)
    | _ => none
  if ! negative && roundsToInfinity (whole ++ fraction) (exponent - fraction.length) then
    none
  else
    some rest

/-- A number with a fraction or an exponent, or one of the special words. -/
def float? : Reader Value := fun s =>
  match plainFloat? s with
  | some rest => some (.float, rest)
  | none => (specialFloat? s).map (.float, ·)

/-- A number of exactly `count` digits. -/
def fixed? (count : Nat) (s : List Char) : Option (Nat × List Char) :=
  let digits := s.take count
  if digits.length = count ∧ digits.all Char.isDigit then
    some (digitsValue 10 digits, s.drop count)
  else
    none

/-- A number of two digits within bounds. -/
def twoDigits? (low high : Nat) (s : List Char) : Option (Nat × List Char) := do
  let (n, rest) ← fixed? 2 s
  if low ≤ n ∧ n ≤ high then some (n, rest) else none

/-- What follows a given character. -/
def after? (c : Char) : List Char → Option (List Char)
  | d :: rest => if d = c then some rest else none
  | [] => none

/-- The number of days in a month. -/
def daysIn (year month : Nat) : Nat :=
  if month = 2 then
    if year % 4 = 0 ∧ (year % 100 ≠ 0 ∨ year % 400 = 0) then 29 else 28
  else if month = 4 ∨ month = 6 ∨ month = 9 ∨ month = 11 then 30
  else 31

/-- What follows a date. -/
def date? (s : List Char) : Option (List Char) := do
  let (year, rest) ← fixed? 4 s
  let rest ← after? '-' rest
  let (month, rest) ← twoDigits? 1 12 rest
  let rest ← after? '-' rest
  let (_, rest) ← twoDigits? 1 (daysIn year month) rest
  return rest

/-- What follows a fraction of a second, if there is one. -/
def secondFraction (s : List Char) : List Char :=
  match s with
  | '.' :: c :: rest => if c.isDigit then rest.dropWhile Char.isDigit else s
  | _ => s

/-- What follows a time of day. -/
def time? (s : List Char) : Option (List Char) := do
  let (_, rest) ← twoDigits? 0 23 s
  let rest ← after? ':' rest
  let (_, rest) ← twoDigits? 0 59 rest
  let rest ← after? ':' rest
  let (_, rest) ← twoDigits? 0 60 rest
  return secondFraction rest

/-- What follows an offset from universal time. -/
def offset? : List Char → Option (List Char)
  | [] => none
  | c :: rest =>
    if c = 'Z' ∨ c = 'z' then some rest
    else if c = '+' ∨ c = '-' then do
      let (_, rest) ← twoDigits? 0 23 rest
      let rest ← after? ':' rest
      let (_, rest) ← twoDigits? 0 59 rest
      return rest
    else none

/-- What follows the time of day that may come after a date. -/
def timeAfterDate? : List Char → Option (List Char)
  | [] => none
  | c :: rest =>
    if c = 'T' ∨ c = 't' ∨ c = ' ' then
      (time? rest).map fun rest => (offset? rest).getD rest
    else none

/-- A date, a time of day, or both. -/
def moment? : Reader Value := fun s =>
  match date? s with
  | some rest => some (.moment, (timeAfterDate? rest).getD rest)
  | none => (time? s).map (.moment, ·)

/-- An unquoted value that begins like a number. -/
def number? : Reader Value := fun s =>
  (moment? s).orElse fun _ => (float? s).orElse fun _ => integer? s

/-- A value that is neither an array nor a table. -/
def scalar? : Reader Value
  | 't' :: 'r' :: 'u' :: 'e' :: rest => some (.boolean true, rest)
  | 'f' :: 'a' :: 'l' :: 's' :: 'e' :: rest => some (.boolean false, rest)
  | s =>
    match quoted? s with
    | some (text, rest) => some (.text text, rest)
    | none => number? s

end Toml

end OutboxCluster
