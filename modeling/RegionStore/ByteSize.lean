import RegionStore.Text.Blank
import RegionStore.Text.Quoted

/-!
Sizes in words: digits, then a suffix for a power of 1024. Case does not matter, "KB" and "KiB"
mean the same, and blanks may stand around and between the two parts.
-/
namespace RegionStore.ByteSize

/-- One more than the largest size. -/
def limit : Nat := UInt64.size

inductive Malformed where
  | noNumber (text : List Char)
  | unknownSuffix (suffix : List Char)
  /-- The digits alone are too large. -/
  | numberTooLarge (text : List Char)
  /-- The digits are not, but the size is. -/
  | sizeTooLarge (text : List Char)
  deriving DecidableEq, Repr

def Malformed.message : Malformed → String
  | noNumber text => "size " ++ Text.quoted text ++ " does not start with a number"
  | unknownSuffix suffix => "unknown size suffix " ++ Text.quoted suffix
  | numberTooLarge text =>
    "invalid size " ++ Text.quoted text ++ ": number too large to fit in target type"
  | sizeTooLarge text => "size " ++ Text.quoted text ++ " does not fit in usize"

def kibi : Nat := 1024

def mebi : Nat := 1024 * kibi

def gibi : Nat := 1024 * mebi

/-- Suffixes in upper case, each with the number of bytes it stands for. -/
def suffixes : List (List Char × Nat) := [
  ([], 1), (['B'], 1),
  (['K'], kibi), (['K', 'B'], kibi), (['K', 'I', 'B'], kibi),
  (['M'], mebi), (['M', 'B'], mebi), (['M', 'I', 'B'], mebi),
  (['G'], gibi), (['G', 'B'], gibi), (['G', 'I', 'B'], gibi)]

/-- The number that decimal digits stand for. -/
def decimal (digits : List Char) : Nat :=
  digits.foldl (fun n c => 10 * n + (c.toNat - '0'.toNat)) 0

theorem decimal_append_singleton (digits : List Char) (c : Char) :
    decimal (digits ++ [c]) = 10 * decimal digits + (c.toNat - '0'.toNat) := by
  simp [decimal]

/-- Reads a size. A wrong suffix is reported in place of a number that is too large. -/
def read (input : List Char) : Except Malformed Nat :=
  let text := Text.trim input
  let digits := text.takeWhile Char.isDigit
  let suffix := (Text.trim (text.dropWhile Char.isDigit)).map Char.toUpper
  if digits.isEmpty then .error (.noNumber text)
  else match suffixes.lookup suffix with
    | none => .error (.unknownSuffix suffix)
    | some unit =>
      if limit ≤ decimal digits then .error (.numberTooLarge text)
      else if limit ≤ decimal digits * unit then .error (.sizeTooLarge text)
      else .ok (decimal digits * unit)

def parse (input : String) : Except Malformed Nat := read input.toList

end RegionStore.ByteSize
