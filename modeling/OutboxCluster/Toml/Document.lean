import OutboxCluster.Toml.Scalar
import OutboxCluster.Toml.Tree

/-!
# TOML Documents

Reading a whole document. A document is read in two passes: its lines become
statements, and the statements build its tables. A statement is a header, a
header of an array of tables, or a key with its value; what a header opens is
finished by the next header or by the end.

Arrays and inline tables nest at most 79 deep, and a key has at most 79 parts.
The first bound is also what the reader of values recurses on.

## Main definitions

* `Statement`: One statement of a document.
* `value?`: A value, with a bound on its depth.
* `statements?`: The statements of a document.
* `Builder`: Tables under construction and the one that is open.
* `document?`: The entries of a document.
-/

namespace OutboxCluster

namespace Toml

/-- One statement of a document. -/
inductive Statement where
  | header (path : List String)
  | arrayHeader (path : List String)
  | pair (path : List String) (name : String) (value : Value)

/-- Whether a character may stand in a key without quotes. -/
def isBare (c : Char) : Bool :=
  c.isAlphanum || c = '-' || c = '_'

/-- One part of a key. -/
def keyPart? : Reader String
  | '"' :: rest => basic? rest
  | '\'' :: rest => literal? rest
  | s =>
    let (name, rest) := s.span isBare
    if name.isEmpty then none else some (String.ofList name, rest)

/-- The parts of a key, with the blanks around them. -/
def keyParts? : Nat → Reader (List String)
  | 0, _ => none
  | fuel + 1, s => do
    let (part, rest) ← keyPart? (skipBlanks s)
    match skipBlanks rest with
    | '.' :: rest =>
      let (parts, rest) ← keyParts? fuel rest
      return (part :: parts, rest)
    | rest => return ([part], rest)

/-- A key of at most 79 parts, with the blanks around it. -/
def key? : Reader (List String) := keyParts? 79

/-- A key, an equals sign and a value, with the blanks around them. -/
def pair? (value : Reader Value) : Reader (List String × String × Value) := fun s => do
  let (parts, rest) ← key? s
  let rest ← after? '=' rest
  let (v, rest) ← value (skipBlanks rest)
  match parts.reverse with
  | [] => none
  | name :: path => return ((path.reverse, name, v), skipBlanks rest)

/-- The items of an array and its closing bracket; the opening one or a comma
    has been read. -/
def arrayItems? (value : Reader Value) : Nat → Reader (List Value)
  | 0, _ => none
  | fuel + 1, s => do
    match ← skipFill false s with
    | ']' :: rest => return ([], rest)
    | rest =>
      let (item, rest) ← value rest
      match ← skipFill false rest with
      | ']' :: rest => return ([item], rest)
      | ',' :: rest =>
        let (items, rest) ← arrayItems? value fuel rest
        return (item :: items, rest)
      | _ => none

/-- The pairs of an inline table and its closing brace, added to the entries
    that were read before. No comma may come before the brace. -/
def inlinePairs? (value : Reader Value) : Nat → Entries → Reader Entries
  | 0, _, _ => none
  | fuel + 1, entries, s => do
    let ((path, name, v), rest) ← pair? value s
    let entries ← insertPair path name v entries
    match rest with
    | '\x7d' :: rest => return (entries, rest)
    | ',' :: rest => inlinePairs? value fuel entries rest
    | _ => none

/-- An inline table; its opening brace has been read. -/
def inlineTable? (value : Reader Value) : Reader Value := fun s =>
  match skipBlanks s with
  | '\x7d' :: rest => some (.table [], rest)
  | _ => (inlinePairs? value (s.length + 1) [] s).map fun (entries, rest) =>
    (.table (entryValues entries), rest)

/-- A value whose arrays and inline tables nest at most `depth` deep. -/
def value? : Nat → Reader Value
  | 0, s => scalar? s
  | depth + 1, s =>
    match s with
    | '[' :: rest => (arrayItems? (value? depth) (rest.length + 1) rest).map fun (items, rest) =>
      (.array items, rest)
    | '\x7b' :: rest => inlineTable? (value? depth) rest
    | s => scalar? s

/-- A header, an array header, or a pair, with the end of its line. -/
def statement? (s : List Char) : Option (Statement × List Char) :=
  match s with
  | '[' :: '[' :: rest => do
    let (path, rest) ← key? rest
    let rest ← after? ']' rest
    let rest ← after? ']' rest
    return (.arrayHeader path, ← lineEnd? rest)
  | '[' :: rest => do
    let (path, rest) ← key? rest
    let rest ← after? ']' rest
    return (.header path, ← lineEnd? rest)
  | s => do
    let ((path, name, v), rest) ← pair? (value? 79) s
    return (.pair path name v, ← lineEnd? rest)

/-- The statements of a document. Each line uses up a unit of the first
    argument, and there are no more lines than characters. -/
def statements? : Nat → List Char → Option (List Statement)
  | 0, s => if s.isEmpty then some [] else none
  | fuel + 1, s =>
    match skipBlanks s with
    | [] => some []
    | '#' :: rest => do statements? fuel (← lineEnd? ('#' :: rest))
    | rest =>
      match lineBreak? rest with
      | some rest => statements? fuel rest
      | none => do
        let (statement, rest) ← statement? rest
        return statement :: (← statements? fuel rest)

/-- The finished tables, and the one that the last header opened. -/
structure Builder where
  root : Entries := []
  /-- Where the open table belongs; empty for the document itself. -/
  path : List String := []
  /-- Whether the open table is an element of an array of tables. -/
  element : Bool := false
  current : Entries := []

namespace Builder

/-- Split a path into the way and the last name. -/
def split (path : List String) : List String × String :=
  (path.dropLast, path.getLast?.getD "")

/-- Put the open table where it belongs. -/
def close (b : Builder) : Option Entries :=
  if b.path.isEmpty then some b.current
  else
    let (way, name) := split b.path
    let add (_ : Origin) (entries : Entries) : Option (Unit × Entries) :=
      match b.element, entry? name entries with
      | true, none => some ((), entries ++ [(name, .tables [b.current])])
      | true, some (.tables elements) =>
        some ((), put name (.tables (elements ++ [b.current])) entries)
      | false, none => some ((), entries ++ [(name, .table .opened b.current)])
      | _, _ => none
    (descend .passed add way .opened b.root).map (·.2)

/-- Open a table by its header. A table that exists only because longer
    headers passed through it goes on with what they put into it. -/
def openTable (b : Builder) (path : List String) : Option Builder := do
  let root ← b.close
  let (way, name) := split path
  let take (_ : Origin) (entries : Entries) : Option (Entries × Entries) :=
    match entry? name entries with
    | none => some ([], entries)
    | some (.table .passed below) => some (below, remove name entries)
    | some _ => none
  let (entries, root) ← descend .passed take way .opened root
  return { root, path, element := false, current := entries }

/-- Open the next element of an array of tables. -/
def openElement (b : Builder) (path : List String) : Option Builder := do
  let root ← b.close
  let (way, name) := split path
  let check (_ : Origin) (entries : Entries) : Option (Unit × Entries) :=
    match entry? name entries with
    | none | some (.tables _) => some ((), entries)
    | some _ => none
  let (_, root) ← descend .passed check way .opened root
  return { root, path, element := true, current := [] }

/-- Carry out one statement. -/
def run (b : Builder) : Statement → Option Builder
  | .header path => b.openTable path
  | .arrayHeader path => b.openElement path
  | .pair path name value => (insertPair path name value b.current).map ({ b with current := · })

end Builder

/-- The entries of a document. A byte order mark in front is not part of it. -/
def document? (text : String) : Option (List (String × Value)) := do
  let s := match text.toList with
    | '\ufeff' :: rest => rest
    | s => s
  let statements ← statements? (s.length + 1) s
  let b ← statements.foldlM Builder.run {}
  return entryValues (← b.close)

end Toml

end OutboxCluster
