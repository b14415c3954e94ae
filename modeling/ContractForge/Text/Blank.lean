/-!
# Blank characters

`isBlank` is the Unicode property of white space: 25 characters, among them the line separators and
the no-break spaces. `trimStart` drops the blanks a text begins with.
-/

namespace ContractForge.Text

/-- The character is white space. -/
def isBlank (c : Char) : Bool :=
  ('\t' ≤ c && c ≤ '\r') || c = ' ' || c = '\u0085' || c = '\u00a0' || c = '\u1680' ||
  ('\u2000' ≤ c && c ≤ '\u200a') || c = '\u2028' || c = '\u2029' || c = '\u202f' ||
  c = '\u205f' || c = '\u3000'

/-- A text without the blanks it begins with. -/
def trimStart (s : List Char) : List Char :=
  s.dropWhile isBlank

end ContractForge.Text
