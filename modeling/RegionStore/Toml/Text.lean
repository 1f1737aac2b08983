import RegionStore.Toml.Value

/-!
Quoted text: with escapes between double quotes, as it stands between single ones, and either
over several lines between three of them.
-/
namespace RegionStore.Toml

def hexValue? (c : Char) : Option Nat :=
  if c.isDigit then some (c.toNat - '0'.toNat)
  else if 'a' ≤ c ∧ c ≤ 'f' then some (c.toNat - 'a'.toNat + 10)
  else if 'A' ≤ c ∧ c ≤ 'F' then some (c.toNat - 'A'.toNat + 10)
  else none

/-- The character whose code point is given in hexadecimal. -/
def scalar? (digits : List Char) : Option Char := do
  let values ← digits.mapM hexValue?
  let code := values.foldl (fun n d => 16 * n + d) 0
  if h : code.isValidChar then some (Char.ofNatAux code h) else none

/-- The character that an escape of one letter stands for. -/
def escaped? : Char → Option Char
  | 'b' => some '\x08'
  | 't' => some '\t'
  | 'n' => some '\n'
  | 'f' => some '\x0c'
  | 'r' => some '\r'
  | '"' => some '"'
  | '\\' => some '\\'
  | _ => none

def basic : Reader (List Char)
  | [] => none
  | '"' :: rest => some ([], rest)
  | '\\' :: 'u' :: a :: b :: c :: d :: rest =>
    (scalar? [a, b, c, d]).bind (prepend · (basic rest))
  | '\\' :: 'U' :: a :: b :: c :: d :: e :: f :: g :: h :: rest =>
    (scalar? [a, b, c, d, e, f, g, h]).bind (prepend · (basic rest))
  | '\\' :: c :: rest => (escaped? c).bind (prepend · (basic rest))
  | c :: rest => if isPlain c then prepend c (basic rest) else none

def literal : Reader (List Char)
  | [] => none
  | '\'' :: rest => some ([], rest)
  | c :: rest => if isPlain c then prepend c (literal rest) else none

/-- Up to two quotes may stand right before the three that end the text. -/
def closing (quote : Char) (rest : List Char) : List Char × List Char :=
  let extra := min 2 (rest.takeWhile (· == quote)).length
  (List.replicate extra quote, rest.drop extra)

def isGap (c : Char) : Bool := isSpace c || c == '\n'

/-- A backslash at the end of a line drops the line feed and all the space after it. -/
def multilineBasic (skipping : Bool) : Reader (List Char)
  | [] => none
  | '"' :: '"' :: '"' :: rest => some (closing '"' rest)
  | '\\' :: 'u' :: a :: b :: c :: d :: rest =>
    (scalar? [a, b, c, d]).bind (prepend · (multilineBasic false rest))
  | '\\' :: 'U' :: a :: b :: c :: d :: e :: f :: g :: h :: rest =>
    (scalar? [a, b, c, d, e, f, g, h]).bind (prepend · (multilineBasic false rest))
  | '\\' :: c :: rest =>
    if isGap c then
      if (skipSpaces (c :: rest)).head? = some '\n' then multilineBasic true rest else none
    else (escaped? c).bind (prepend · (multilineBasic false rest))
  | c :: rest =>
    if skipping && isGap c then multilineBasic true rest
    else if c == '\n' || isPlain c then prepend c (multilineBasic false rest)
    else none

def multilineLiteral : Reader (List Char)
  | [] => none
  | '\'' :: '\'' :: '\'' :: rest => some (closing '\'' rest)
  | c :: rest => if c == '\n' || isPlain c then prepend c (multilineLiteral rest) else none

/-- A line feed right after the opening quotes does not count. -/
def dropFirstLine : List Char → List Char
  | '\n' :: rest => rest
  | cs => cs

def text : Reader (List Char)
  | '"' :: '"' :: '"' :: rest => multilineBasic false (dropFirstLine rest)
  | '"' :: rest => basic rest
  | '\'' :: '\'' :: '\'' :: rest => multilineLiteral (dropFirstLine rest)
  | '\'' :: rest => literal rest
  | _ => none

end RegionStore.Toml
