import RegionStore.Toml.Calendar
import RegionStore.Toml.Number
import RegionStore.Toml.Text
import RegionStore.Toml.Tree

/-!
Documents: key-value pairs and headers, one on each line. Readers that nest take the number of
steps they may make; each step takes at least one character, so the length of the text is enough.
How deep values nest is limited apart from that.
-/
namespace RegionStore.Toml

def isBare (c : Char) : Bool := c.isAlphanum || c == '_' || c == '-'

def simpleKey : Reader String
  | '"' :: rest => (basic rest).map fun (cs, rest) => (.ofList cs, rest)
  | '\'' :: rest => (literal rest).map fun (cs, rest) => (.ofList cs, rest)
  | cs =>
    let name := cs.takeWhile isBare
    if name.isEmpty then none else some (.ofList name, cs.drop name.length)

/-- How many parts a dotted key may have, and how deep arrays and inline tables may nest. -/
def nestingLimit : Nat := 79

/-- The parts of a dotted key, of which there are at most `limit`, with spaces around each. -/
def keyPath : (limit : Nat) → Reader (List String)
  | 0, _ => none
  | limit + 1, cs => do
    let (key, rest) ← simpleKey (skipSpaces cs)
    match skipSpaces rest with
    | '.' :: rest =>
      let (path, rest) ← keyPath limit rest
      some (key :: path, rest)
    | rest => some ([key], rest)

/-- The path to a key and the key itself. -/
def splitLast : List String → Option (List String × String)
  | [] => none
  | [key] => some ([], key)
  | first :: rest => (splitLast rest).map fun (path, key) => (first :: path, key)

/-- What is left of a fractional number that is refused starts with a character that nothing
accepts, so it does not matter that its whole part can be read. -/
def numeric (cs : List Char) : Option (Value × List Char) :=
  time cs <|> float cs <|> integer cs

mutual

/-- A value that nests at most `levels` deep. -/
def value : (steps levels : Nat) → Reader Value
  | 0, _, _ => none
  | steps + 1, levels, cs =>
    match cs with
    | '[' :: rest =>
      if levels = 0 then none
      else (items steps (levels - 1) rest).map fun (vs, rest) => (.array vs, rest)
    | '{' :: rest =>
      if levels = 0 then none
      else match skipSpaces rest with
        | '}' :: rest => some (.table [], rest)
        | rest => (pairs steps (levels - 1) [] rest).map fun (fields, rest) =>
            (.table (fieldValues fields), rest)
    | '"' :: _ => (text cs).map fun (cs, rest) => (.text (.ofList cs), rest)
    | '\'' :: _ => (text cs).map fun (cs, rest) => (.text (.ofList cs), rest)
    | 't' :: 'r' :: 'u' :: 'e' :: rest => some (.boolean true, rest)
    | 'f' :: 'a' :: 'l' :: 's' :: 'e' :: rest => some (.boolean false, rest)
    | _ => numeric cs

/-- The items of an array, after its bracket or a comma. -/
def items : (steps levels : Nat) → Reader (List Value)
  | 0, _, _ => none
  | steps + 1, levels, cs => do
    match ← filler false cs with
    | ']' :: rest => some ([], rest)
    | cs =>
      let (v, rest) ← value steps levels cs
      match ← filler false rest with
      | ',' :: rest =>
        let (vs, rest) ← items steps levels rest
        some (v :: vs, rest)
      | ']' :: rest => some ([v], rest)
      | _ => none

/-- The pairs of an inline table, which stands on one line, after its brace or a comma. -/
def pairs : (steps levels : Nat) → Fields → Reader Fields
  | 0, _, _, _ => none
  | steps + 1, levels, fields, cs => do
    let (keys, rest) ← keyPath nestingLimit cs
    let (path, key) ← splitLast keys
    let rest ← after '=' rest
    let (v, rest) ← value steps levels (skipSpaces rest)
    let fields ← fields.put path key v .header
    match skipSpaces rest with
    | ',' :: rest => pairs steps levels fields rest
    | '}' :: rest => some (fields, rest)
    | _ => none

end

/-- What has been read of a document: its tables, and the path of the header that is open. -/
structure Progress where
  fields : Fields
  header : List String

/-- Reads one statement up to the end of its line. -/
def statement (p : Progress) (cs : List Char) : Option (Progress × List Char) :=
  match skipSpaces cs with
  | [] => some (p, [])
  | '\n' :: rest => some (p, rest)
  | '#' :: rest => (lineEnd true rest).map (p, ·)
  | '[' :: '[' :: rest => do
    let (keys, rest) ← keyPath nestingLimit rest
    let (path, key) ← splitLast keys
    let rest ← lineEnd false (← after ']' (← after ']' rest))
    let fields ← p.fields.within .implied (Fields.openItem key) path .header
    some (⟨fields, keys⟩, rest)
  | '[' :: rest => do
    let (keys, rest) ← keyPath nestingLimit rest
    let (path, key) ← splitLast keys
    let rest ← lineEnd false (← after ']' rest)
    let fields ← p.fields.within .implied (Fields.openTable key) path .header
    some (⟨fields, keys⟩, rest)
  | cs => do
    let (keys, rest) ← keyPath nestingLimit cs
    let (path, key) ← splitLast keys
    let rest ← after '=' rest
    let (v, rest) ← value cs.length nestingLimit (skipSpaces rest)
    let rest ← lineEnd false rest
    let fields ← p.fields.within .implied (Fields.put path key v) p.header .header
    some ({ p with fields }, rest)

def statements : Nat → Progress → List Char → Option Progress
  | _, p, [] => some p
  | 0, _, _ => none
  | steps + 1, p, cs => do
    let (p, rest) ← statement p cs
    statements steps p rest

/-- A document may start with a byte order mark. -/
def dropMark : List Char → List Char
  | '\ufeff' :: rest => rest
  | cs => cs

/-- The fields of the top-level table. -/
def document? (input : String) : Option (List (String × Value)) := do
  let cs ← unifyLines (dropMark input.toList)
  let p ← statements cs.length ⟨[], []⟩ cs
  some (fieldValues p.fields)

end RegionStore.Toml
