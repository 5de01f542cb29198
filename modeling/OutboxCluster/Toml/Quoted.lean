import OutboxCluster.Toml.Value

/-!
# Quoted Text

The four ways in which a document quotes text. Double quotes allow escapes,
single quotes take every character as it stands, and three quotes of either
kind let the text run over several lines. Text over several lines may hold one
or two quotes in a row, and may end with one or two right before the three
that close it; a line break right after the opening is not part of it.

## Main definitions

* `basic?`, `literal?`: Text on one line, without the opening quote.
* `quoted?`: Text of any of the four kinds.
-/

namespace OutboxCluster

namespace Toml

/-- The value of a hexadecimal digit. -/
def hexDigit? (c : Char) : Option Nat :=
  if '0' ≤ c ∧ c ≤ '9' then some (c.toNat - '0'.toNat)
  else if 'a' ≤ c ∧ c ≤ 'f' then some (c.toNat - 'a'.toNat + 10)
  else if 'A' ≤ c ∧ c ≤ 'F' then some (c.toNat - 'A'.toNat + 10)
  else none

/-- The number written by hexadecimal digits. -/
def hexNumber? (digits : List Char) : Option Nat :=
  digits.foldlM (fun value c => (hexDigit? c).map (16 * value + ·)) 0

/-- The character with the code that the digits write, unless the code belongs
    to no character. -/
def coded? (digits : List Char) : Option Char :=
  match hexNumber? digits with
  | some code =>
    if code < 0xD800 ∨ (0xDFFF < code ∧ code < 0x110000) then some (Char.ofNat code) else none
  | none => none

/-- The character that stands for itself or is named after a backslash. -/
def named? : Char → Option Char
  | 'b' => some '\x08'
  | 't' => some '\t'
  | 'n' => some '\n'
  | 'f' => some '\x0c'
  | 'r' => some '\r'
  | '"' => some '"'
  | '\\' => some '\\'
  | _ => none

/-- The character that an escape stands for; the backslash has been read. -/
def escape? : Reader Char
  | 'u' :: a :: b :: c :: d :: rest => (coded? [a, b, c, d]).map (·, rest)
  | 'U' :: a :: b :: c :: d :: e :: f :: g :: h :: rest =>
    (coded? [a, b, c, d, e, f, g, h]).map (·, rest)
  | c :: rest => (named? c).map (·, rest)
  | [] => none

/-- Double-quoted text on one line; the opening quote has been read. -/
def basicBody? : Nat → Reader (List Char)
  | 0, _ => none
  | _ + 1, [] => none
  | _ + 1, '"' :: rest => some ([], rest)
  | fuel + 1, '\\' :: rest => do
    let (c, rest) ← escape? rest
    let (cs, rest) ← basicBody? fuel rest
    return (c :: cs, rest)
  | fuel + 1, c :: rest =>
    if isPlain c then (basicBody? fuel rest).map fun (cs, rest) => (c :: cs, rest) else none

/-- Double-quoted text on one line; the opening quote has been read. -/
def basic? : Reader String := fun s =>
  (basicBody? (s.length + 1) s).map fun (cs, rest) => (String.ofList cs, rest)

/-- Single-quoted text on one line; the opening quote has been read. -/
def literal? : Reader String := fun s =>
  let (body, rest) := s.span fun c => isPlain c && c ≠ '\''
  match rest with
  | '\'' :: rest => some (String.ofList body, rest)
  | _ => none

/-- Drop the blanks and line breaks in front. -/
def skipSpace : List Char → List Char
  | ' ' :: rest => skipSpace rest
  | '\t' :: rest => skipSpace rest
  | '\n' :: rest => skipSpace rest
  | '\r' :: '\n' :: rest => skipSpace rest
  | other => other

/-- What follows an escaped line break and all the blank space after it; the
    backslash has been read. -/
def joinedLine? (s : List Char) : Option (List Char) :=
  (lineBreak? (skipBlanks s)).map skipSpace

/-- Text over several lines, up to the three quotes that close it. `escapes`
    says whether a backslash is one. -/
def linesBody? (quote : Char) (escapes : Bool) : Nat → Reader (List Char)
  | 0, _ => none
  | fuel + 1, s =>
    let prepend (c : Char) (rest : List Char) :=
      (linesBody? quote escapes fuel rest).map fun (cs, rest) => (c :: cs, rest)
    match s with
    | [] => none
    | c :: rest =>
      if c = quote then
        match s.span (· = quote) with
        | (run, rest) =>
          match run.length, rest with
          | 1, _ :: _ => prepend quote rest
          | 2, _ :: _ =>
            (prepend quote rest).map fun (cs, rest) => (quote :: cs, rest)
          | 3, _ => some ([], rest)
          | 4, _ => some ([quote], rest)
          | 5, _ => some ([quote, quote], rest)
          | _, _ => none
      else if escapes ∧ c = '\\' then
        match joinedLine? rest with
        | some rest => linesBody? quote escapes fuel rest
        | none => match escape? rest with
          | some (c, rest) => prepend c rest
          | none => none
      else match lineBreak? s with
        | some rest => prepend '\n' rest
        | none => if isPlain c then prepend c rest else none

/-- Text over several lines; the three opening quotes have been read. -/
def lines? (quote : Char) (escapes : Bool) : Reader String := fun s =>
  let s := (lineBreak? s).getD s
  (linesBody? quote escapes (s.length + 1) s).map fun (cs, rest) => (String.ofList cs, rest)

/-- Quoted text of any kind. -/
def quoted? : Reader String
  | '"' :: '"' :: '"' :: rest => lines? '"' true rest
  | '\'' :: '\'' :: '\'' :: rest => lines? '\'' false rest
  | '"' :: rest => basic? rest
  | '\'' :: rest => literal? rest
  | _ => none

end Toml

end OutboxCluster
