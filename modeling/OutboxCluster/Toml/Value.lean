/-!
# TOML Values

What a settings document can say, once it has been read. Text, numbers and
truth values are kept; a number with a fraction and a moment in time are only
known to be there, because no setting has either type.

## Main definitions

* `Value`: A value of a document.
* `entry?`: The value under a key of a table.
* `Reader`: A reader of values.
-/

namespace OutboxCluster

namespace Toml

/-- A value of a document. Tables keep their entries in the order in which
    they were written. -/
inductive Value where
  | text (value : String)
  | integer (value : Int)
  | float
  | boolean (value : Bool)
  /-- A date, a time of day, or both. -/
  | moment
  | array (items : List Value)
  | table (entries : List (String × Value))

/-- The value of the first entry with this key. -/
def entry? {α : Type} (key : String) (entries : List (String × α)) : Option α :=
  (entries.find? (·.1 == key)).map (·.2)

/-- A reader takes a value off the front of the remaining characters, or
    refuses them. -/
abbrev Reader (α : Type) := List Char → Option (α × List Char)

/-- The characters that may stand in a comment: all but the control
    characters other than the tab. -/
def isPlain (c : Char) : Bool :=
  c = '\t' || (32 ≤ c.toNat && c.toNat ≠ 127)

/-- Drop the spaces and tabs in front. -/
def skipBlanks (s : List Char) : List Char :=
  s.dropWhile fun c => c = ' ' || c = '\t'

/-- What follows a line break in front. -/
def lineBreak? : List Char → Option (List Char)
  | '\n' :: rest => some rest
  | '\r' :: '\n' :: rest => some rest
  | _ => none

/-- What follows the end of a line: blanks and a comment may precede it, and
    the end of the document is one. -/
def lineEnd? (s : List Char) : Option (List Char) :=
  let rest := match skipBlanks s with
    | '#' :: comment => comment.dropWhile isPlain
    | other => other
  if rest.isEmpty then some [] else lineBreak? rest

/-- What follows blanks, line breaks and comments. A comment has to end with
    its line. -/
def skipFill : Bool → List Char → Option (List Char)
  | inComment, [] => if inComment then none else some []
  | _, '\n' :: rest => skipFill false rest
  | _, '\r' :: '\n' :: rest => skipFill false rest
  | true, c :: rest => if isPlain c then skipFill true rest else none
  | false, ' ' :: rest => skipFill false rest
  | false, '\t' :: rest => skipFill false rest
  | false, '#' :: rest => skipFill true rest
  | false, c :: rest => some (c :: rest)

end Toml

end OutboxCluster
