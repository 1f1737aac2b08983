import RegionStore.Text.Unprintable

/-!
Text in double quotes, with whatever could not be told apart on a terminal written as an escape.
-/
namespace RegionStore.Text

def hexDigits (n : Nat) : List Char := Nat.toDigits 16 n

/-- The form of one character inside quotes. -/
def escape (c : Char) : List Char :=
  match c with
  | '\x00' => ['\\', '0']
  | '\t' => ['\\', 't']
  | '\r' => ['\\', 'r']
  | '\n' => ['\\', 'n']
  | '"' => ['\\', '"']
  | '\\' => ['\\', '\\']
  | c =>
    if isUnprintable c then ['\\', 'u', '\x7b'] ++ hexDigits c.toNat ++ ['\x7d'] else [c]

def quoted (cs : List Char) : String := String.ofList ('"' :: cs.flatMap escape ++ ['"'])

end RegionStore.Text
