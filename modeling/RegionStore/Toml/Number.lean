import RegionStore.Binary64
import RegionStore.Toml.Value

/-!
Numbers. Underscores may stand between digits, a decimal number has no leading zeros, whole
numbers have to fit in 64 bits, and a positive fractional one must not be too large for binary64.
-/
namespace RegionStore.Toml

def digitsAfter (isDigit : Char → Bool) : Reader (List Char)
  | [] => some ([], [])
  | '_' :: c :: rest => if isDigit c then prepend c (digitsAfter isDigit rest) else none
  | c :: rest =>
    if isDigit c then prepend c (digitsAfter isDigit rest)
    else if c = '_' then none
    else some ([], c :: rest)

/-- One digit or more. -/
def digits (isDigit : Char → Bool) : Reader (List Char)
  | [] => none
  | c :: rest => if isDigit c then prepend c (digitsAfter isDigit rest) else none

/-- Decimal digits without a leading zero. -/
def decimalDigits : Reader (List Char)
  | '0' :: rest => some (['0'], rest)
  | cs => digits Char.isDigit cs

def unsign : List Char → Bool × List Char
  | '-' :: rest => (true, rest)
  | '+' :: rest => (false, rest)
  | cs => (false, cs)

/-- A digit in any base up to sixteen. -/
def digitValue (c : Char) : Nat :=
  if c.isDigit then c.toNat - '0'.toNat else c.toLower.toNat - 'a'.toNat + 10

def isDigitOf (base : Nat) (c : Char) : Bool :=
  (c.isDigit || ('a' ≤ c.toLower && c.toLower ≤ 'f')) && digitValue c < base

def valueIn (base : Nat) (ds : List Char) : Nat :=
  ds.foldl (fun n c => base * n + digitValue c) 0

def fits (n : Int) : Option Int :=
  if -9223372036854775808 ≤ n ∧ n ≤ 9223372036854775807 then some n else none

def based (base : Nat) (cs : List Char) : Option (Value × List Char) := do
  let (ds, rest) ← digits (isDigitOf base) cs
  let n ← fits (valueIn base ds)
  some (.integer n, rest)

def integer : Reader Value
  | '0' :: 'x' :: rest => based 16 rest
  | '0' :: 'o' :: rest => based 8 rest
  | '0' :: 'b' :: rest => based 2 rest
  | cs => do
    let (negative, cs) := unsign cs
    let (ds, rest) ← decimalDigits cs
    let n : Int := valueIn 10 ds
    let n ← fits (if negative then -n else n)
    some (.integer n, rest)

/-- What follows the letter of an exponent. -/
def exponent (cs : List Char) : Option (Int × List Char) := do
  let (negative, cs) := unsign cs
  let (ds, rest) ← digits Char.isDigit cs
  let n : Int := valueIn 10 ds
  some (if negative then -n else n, rest)

def optionalExponent : Reader Int
  | 'e' :: rest => exponent rest
  | 'E' :: rest => exponent rest
  | cs => some (0, cs)

/-- The digits after the point, and the exponent. At least one of the two has to be there. -/
def fraction : Reader (List Char × Int)
  | '.' :: rest => do
    let (ds, rest) ← digits Char.isDigit rest
    let (places, rest) ← optionalExponent rest
    some ((ds, places), rest)
  | 'e' :: rest => (exponent rest).map fun (places, rest) => (([], places), rest)
  | 'E' :: rest => (exponent rest).map fun (places, rest) => (([], places), rest)
  | _ => none

/-- Whether a number is infinite in binary64, given its digits around the point and the number
of places by which the point is moved to the right. The largest finite number has 309 digits
before the point, so only numbers of that length need a look at their digits. -/
def overflows (whole after : List Char) (places : Int) : Bool :=
  let significant := (whole ++ after).dropWhile (· == '0')
  let before : Int := significant.length - after.length + places
  if significant.isEmpty then false
  else if before = 309 then
    Binary64.infiniteFrom ≤ valueIn 10 ((significant ++ List.replicate 309 '0').take 309)
  else 309 < before

def float : Reader Value := fun cs =>
  let (negative, cs) := unsign cs
  match cs with
  | 'i' :: 'n' :: 'f' :: rest => some (.float, rest)
  | 'n' :: 'a' :: 'n' :: rest => some (.float, rest)
  | cs => do
    let (whole, rest) ← decimalDigits cs
    let ((after, places), rest) ← fraction rest
    if !negative && overflows whole after places then none else some (.float, rest)

end RegionStore.Toml
