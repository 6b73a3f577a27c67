/-!
# Quoted text

A quoted text stands between double quotes; quotes and backslashes are escaped by a backslash,
control characters below a space by a short letter or four hexadecimal digits.
-/

namespace ShapeSchema.Text

/-- Lower-case hexadecimal digit of a number below sixteen. -/
def hexDigit (n : Nat) : Char :=
  if n < 10 then Char.ofNat (48 + n) else Char.ofNat (87 + n)

/-- Written form of one character inside quotes. -/
def escape (c : Char) : List Char :=
  if c = '"' then ['\\', '"']
  else if c = '\\' then ['\\', '\\']
  else if c.toNat < 0x20 then
    match c.toNat with
    | 8 => ['\\', 'b']
    | 9 => ['\\', 't']
    | 10 => ['\\', 'n']
    | 12 => ['\\', 'f']
    | 13 => ['\\', 'r']
    | n => ['\\', 'u', '0', '0', hexDigit (n / 16), hexDigit (n % 16)]
  else [c]

/-- Characters of a text between quotes. -/
def quotedChars (cs : List Char) : List Char := '"' :: cs.flatMap escape ++ ['"']

/-- A text between quotes. -/
def quoted (s : String) : String := String.ofList (quotedChars s.toList)

end ShapeSchema.Text
