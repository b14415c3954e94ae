import ContractForge.Text.Hex

/-!
# String literals

`escape s` is the body of a string literal that denotes `s`: quotes and backslashes get a backslash,
the control characters that have a short escape use it, and every other control character is
written as a unicode escape of four hex digits. `literal s` puts it between quotes.
-/

namespace ContractForge.Java

/-- The character is a control character. -/
def isControl (c : Char) : Bool :=
  c.toNat < 0x20 || (0x7f ≤ c.toNat && c.toNat < 0xa0)

/-- How one character is written inside a string literal. -/
def escapeChar (c : Char) : List Char :=
  if c = '"' then ['\\', '"']
  else if c = '\\' then ['\\', '\\']
  else if c = '\n' then ['\\', 'n']
  else if c = '\r' then ['\\', 'r']
  else if c = '\t' then ['\\', 't']
  else if c = '\x08' then ['\\', 'b']
  else if c = '\x0c' then ['\\', 'f']
  else if isControl c then '\\' :: 'u' :: Text.hexFixed 4 c.toNat
  else [c]

/-- The body of the string literal that denotes a text. -/
def escapeChars (s : List Char) : List Char :=
  s.flatMap escapeChar

/-- The body of the string literal that denotes a text, without the quotes. -/
def escape (s : String) : String :=
  String.ofList (escapeChars s.toList)

/-- The string literal that denotes a text. -/
def literal (s : String) : String :=
  "\"" ++ escape s ++ "\""

end ContractForge.Java
