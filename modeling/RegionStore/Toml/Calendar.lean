import RegionStore.Toml.Value

/-!
Dates and times of day. A date may be followed by a time, and that by an offset.
-/
namespace RegionStore.Toml

def twoDigits (low high : Nat) : Reader Nat
  | a :: b :: rest =>
    let n := 10 * (a.toNat - '0'.toNat) + (b.toNat - '0'.toNat)
    if a.isDigit && b.isDigit && low ≤ n && n ≤ high then some (n, rest) else none
  | _ => none

def isLeapYear (year : Nat) : Bool := year % 4 == 0 && (year % 100 != 0 || year % 400 == 0)

def daysIn (year month : Nat) : Nat :=
  if month = 2 then (if isLeapYear year then 29 else 28)
  else if month ∈ [4, 6, 9, 11] then 30
  else 31

def after (c : Char) : List Char → Option (List Char)
  | [] => none
  | d :: rest => if c = d then some rest else none

def date (cs : List Char) : Option (List Char) := do
  let (century, cs) ← twoDigits 0 99 cs
  let (year, cs) ← twoDigits 0 99 cs
  let (month, cs) ← twoDigits 1 12 (← after '-' cs)
  let (_, cs) ← twoDigits 1 (daysIn (100 * century + year) month) (← after '-' cs)
  some cs

/-- The fraction of a second, if there is one. -/
def secondFraction : List Char → List Char
  | '.' :: c :: rest => if c.isDigit then rest.dropWhile Char.isDigit else '.' :: c :: rest
  | cs => cs

def timeOfDay (cs : List Char) : Option (List Char) := do
  let (_, cs) ← twoDigits 0 23 cs
  let (_, cs) ← twoDigits 0 59 (← after ':' cs)
  let (_, cs) ← twoDigits 0 60 (← after ':' cs)
  some (secondFraction cs)

def offset (cs : List Char) : Option (List Char) := do
  let (_, cs) ← twoDigits 0 23 cs
  let (_, cs) ← twoDigits 0 59 (← after ':' cs)
  some cs

/-- The offset after a time, if there is one. -/
def optionalOffset : List Char → List Char
  | 'Z' :: rest => rest
  | 'z' :: rest => rest
  | '+' :: rest => (offset rest).getD ('+' :: rest)
  | '-' :: rest => (offset rest).getD ('-' :: rest)
  | cs => cs

/-- The time of day after a date, if there is one. -/
def optionalTime : List Char → List Char
  | [] => []
  | c :: rest =>
    if c == 'T' || c == 't' || c == ' ' then
      ((timeOfDay rest).map optionalOffset).getD (c :: rest)
    else c :: rest

def time : Reader Value := fun cs =>
  match date cs with
  | some rest => some (.time, optionalTime rest)
  | none => (timeOfDay cs).map fun rest => (.time, rest)

end RegionStore.Toml
