import ContractForge.Text.Hex
import ContractForge.Text.Unprintable

/-!
# Quoted lists of texts

`quotedList texts` shows a list inside a message: each text between quotes, with quotes and
backslashes escaped and unprintable characters shown by their code in hex, and the whole list in
brackets.
-/

namespace ContractForge.Text

/-- How a character is shown inside a quoted text. -/
def showChar (c : Char) : List Char :=
  if c = '"' then ['\\', '"']
  else if c = '\\' then ['\\', '\\']
  else if c = '\t' then ['\\', 't']
  else if c = '\r' then ['\\', 'r']
  else if c = '\n' then ['\\', 'n']
  else if c = '\x00' then ['\\', '0']
  else if isUnprintable c then ['\\', 'u', '{'] ++ hexDigits c.toNat ++ ['}']
  else [c]

/-- A text between quotes. -/
def quoted (s : String) : String :=
  String.ofList ('"' :: s.toList.flatMap showChar ++ ['"'])

/-- A bracketed list of quoted texts. -/
def quotedList (texts : List String) : String :=
  "[" ++ ", ".intercalate (texts.map quoted) ++ "]"

end ContractForge.Text
