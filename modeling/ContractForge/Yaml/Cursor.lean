/-!
# Reading YAML text

* Classes of characters: line breaks, blanks, and the characters that a document may hold at all.
* `Yaml.Cursor` : the text still to be read, and how far the reading has come. A NUL stands for the
  end of the text, which is no loss since no document may hold one.
* `skip`, `skipLine`, `skipWhile`, `takeBreak` : ways to move on.
-/

namespace ContractForge.Yaml

/-- The character may occur in a document. -/
def isAllowed (c : Char) : Bool :=
  c = '\t' || c = '\n' || c = '\r' || (' ' ≤ c && c ≤ '~') || c = '\u0085' ||
  ('\u00a0' ≤ c && c ≤ '\ufffd') || 0x10000 ≤ c.toNat

/-- The character ends a line. -/
def isBreak (c : Char) : Bool :=
  c = '\n' || c = '\r' || c = '\u0085' || c = '\u2028' || c = '\u2029'

/-- The character is a space or a tab. -/
def isBlank (c : Char) : Bool :=
  c = ' ' || c = '\t'

/-- The character is the end of the text. -/
def isEnd (c : Char) : Bool :=
  c = '\x00'

def isBreakOrEnd (c : Char) : Bool :=
  isBreak c || isEnd c

def isBlankOrEnd (c : Char) : Bool :=
  isBlank c || isBreakOrEnd c

/-- The character may stand in a name of an anchor, a directive or a tag handle. -/
def isWordChar (c : Char) : Bool :=
  c.isAlphanum || c = '-' || c = '_'

/-- How many bytes characters take. -/
def byteCount : List Char → Nat
  | [] => 0
  | c :: cs => c.utf8Size + byteCount cs

/-- The text still to be read, and the position it starts at: the bytes before it, of `size` in the
whole text, its line, and the characters before it on the line. -/
structure Cursor where
  rest : List Char
  size : Nat
  index : Nat := 0
  line : Nat := 0
  column : Nat := 0

namespace Cursor

/-- The cursor at the start of a text. -/
def start (text : List Char) : Cursor :=
  { rest := text, size := byteCount text }

/-- How many bytes are still to be read. -/
def left (s : Cursor) : Nat :=
  s.size - s.index

/-- The character `k` places on. -/
def ahead (s : Cursor) (k : Nat) : Char :=
  s.rest.getD k '\x00'

/-- The next character. -/
def next (s : Cursor) : Char :=
  s.ahead 0

/-- Several characters on, within the line. -/
def skipMany (s : Cursor) (count : Nat) : Cursor :=
  { s with
    rest := s.rest.drop count
    index := s.index + byteCount (s.rest.take count)
    column := s.column + count }

/-- One character on, within the line. -/
def skip (s : Cursor) : Cursor :=
  s.skipMany 1

/-- Past a line break, if there is one. -/
def skipLine (s : Cursor) : Cursor :=
  let width := if s.next = '\r' && s.ahead 1 = '\n' then 2 else if isBreak s.next then 1 else 0
  if width = 0 then s
  else
    { s.skipMany width with line := s.line + 1, column := 0 }

/-- The line break at the cursor as text, and the cursor past it. All breaks read as a line feed but
the two Unicode separators, which stand for themselves. -/
def takeBreak (s : Cursor) : List Char × Cursor :=
  let text := if isBreak s.next then [if s.next.toNat < 0x2028 then '\n' else s.next] else []
  (text, s.skipLine)

/-- The characters of the line that satisfy a condition, up to the first that does not. -/
def takeWhile (s : Cursor) (p : Char → Bool) : List Char × Cursor :=
  let text := s.rest.takeWhile fun c => p c && !isBreak c
  (text, s.skipMany text.length)

/-- Past the characters of the line that satisfy a condition. -/
def skipWhile (s : Cursor) (p : Char → Bool) : Cursor :=
  (s.takeWhile p).2

/-- A document marker of three equal characters stands at the start of the line. -/
def atMarker (s : Cursor) (c : Char) : Bool :=
  s.column = 0 && s.next = c && s.ahead 1 = c && s.ahead 2 = c && isBlankOrEnd (s.ahead 3)

/-- Any document marker stands at the start of the line. -/
def atAnyMarker (s : Cursor) : Bool :=
  s.atMarker '-' || s.atMarker '.'

end Cursor
end ContractForge.Yaml
