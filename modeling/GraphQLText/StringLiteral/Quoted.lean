/-!
# Quoted strings

The literal of a string between a pair of double quotes.  A quote and a backslash are
escaped by a backslash, the line terminators and the tab by a letter, the other control
characters by their code in four hexadecimal digits; every other character stands for
itself.  So a quoted literal always keeps to one line.
-/

namespace GraphQLText.Quoted

/-- A digit of a hexadecimal number, in upper case. -/
def hexDigit (n : Nat) : Char := (Nat.digitChar (n % 16)).toUpper

/-- A character as a quoted literal writes it. -/
def escapeChar (c : Char) : List Char :=
  if c = '\r' then ['\\', 'r']
  else if c = '\n' then ['\\', 'n']
  else if c = '\t' then ['\\', 't']
  else if c = '"' then ['\\', '"']
  else if c = '\\' then ['\\', '\\']
  else if c.toNat < 0x20 then
    ['\\', 'u', '0', '0', hexDigit (c.toNat / 16), hexDigit c.toNat]
  else [c]

/-- The quoted literal of a string. -/
def encode (s : List Char) : List Char := '"' :: s.flatMap escapeChar ++ ['"']

end GraphQLText.Quoted
