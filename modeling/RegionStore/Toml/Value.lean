/-!
Values of a TOML document, and readers of text.
-/
namespace RegionStore.Toml

/-- Fractional numbers and points in time are recognised, but nothing here has a use for what
they say. -/
inductive Value where
  | text (content : String)
  | integer (n : Int)
  | float
  | boolean (b : Bool)
  | time
  | array (items : List Value)
  | table (fields : List (String × Value))
  deriving Repr

/-- Reads a value off the front of a text and answers with the rest. -/
abbrev Reader (α : Type) := List Char → Option (α × List Char)

/-- Puts a character in front of the ones that were read. -/
def prepend (c : Char) (read : Option (List Char × List Char)) :
    Option (List Char × List Char) :=
  read.map fun (cs, rest) => (c :: cs, rest)

def isSpace (c : Char) : Bool := c == ' ' || c == '\t'

def skipSpaces (cs : List Char) : List Char := cs.dropWhile isSpace

/-- The characters that may stand for themselves in comments and in quotes. -/
def isPlain (c : Char) : Bool := c == '\t' || (' ' ≤ c && c != '\x7f')

/-- Every line ends in a line feed; a carriage return may only stand right before one. -/
def unifyLines : List Char → Option (List Char)
  | [] => some []
  | '\r' :: '\n' :: rest => (unifyLines rest).map ('\n' :: ·)
  | c :: rest => if c = '\r' then none else (unifyLines rest).map (c :: ·)

/-- The rest of a line after a statement: spaces and a comment, up to and with the line feed. -/
def lineEnd (comment : Bool) : List Char → Option (List Char)
  | [] => some []
  | c :: rest =>
    if c = '\n' then some rest
    else if comment then (if isPlain c then lineEnd true rest else none)
    else if c = '#' then lineEnd true rest
    else if isSpace c then lineEnd false rest
    else none

/-- Skips spaces, line feeds and comments between the items of an array. -/
def filler (comment : Bool) : List Char → Option (List Char)
  | [] => some []
  | c :: rest =>
    if c = '\n' then filler false rest
    else if comment then (if isPlain c then filler true rest else none)
    else if c = '#' then filler true rest
    else if isSpace c then filler false rest
    else some (c :: rest)

end RegionStore.Toml
