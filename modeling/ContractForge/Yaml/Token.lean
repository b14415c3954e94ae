import ContractForge.Yaml.Scalar

/-!
# YAML tokens

* `Yaml.Token` : what a text is cut into. Starts and ends of block collections are tokens too,
  though only the indentation shows them.
* `takeAnchorName?`, `takeTag?`, `takeDirective?` : the tokens that are not scalars and are longer
  than one character.
-/

namespace ContractForge.Yaml

/-- The text of a tag, in octets: percent escapes may spell octets that are no character. -/
abbrev TagText := List UInt8

/-- The tag text that a string spells. -/
def TagText.ofString (s : String) : TagText :=
  s.toUTF8.data.toList

/-- What counts of a tag text: the octets before the first zero. -/
def TagText.upToZero (text : TagText) : TagText :=
  text.takeWhile (· ≠ 0)

/-- A token. -/
inductive Token where
  | versionDirective (major minor : Nat)
  | tagDirective (handle : List Char) (stem : TagText)
  | documentStart
  | documentEnd
  | blockSequenceStart
  | blockMappingStart
  | blockEnd
  | flowSequenceStart
  | flowSequenceEnd
  | flowMappingStart
  | flowMappingEnd
  | flowEntry
  | blockEntry
  | key
  | value
  | reference (name : List Char)
  | anchor (name : List Char)
  | tag (handle : List Char) (suffix : TagText)
  | scalar (style : Style) (text : List Char)
  deriving DecidableEq

/-- The character may follow the name of an anchor. -/
def endsAnchor (c : Char) : Bool :=
  isBlankOrEnd c || ['?', ':', ',', ']', '}', '%', '@', '`'].contains c

/-- The name after an anchor or alias indicator, and the cursor after it. -/
def takeAnchorName? (s : Cursor) : Option (List Char × Cursor) :=
  let (name, s) := s.skip.takeWhile isWordChar
  if name.isEmpty || !endsAnchor s.next then none else some (name, s)

/-! ## Tags -/

/-- The octet of a percent escape at the cursor. -/
def percentOctet? (s : Cursor) : Option Nat :=
  if s.next = '%' then do
    let high ← Text.hexValue? (s.ahead 1)
    let low ← Text.hexValue? (s.ahead 2)
    return 16 * high + low
  else none

/-- How many octets follow a leading octet, by its highest bits. -/
def trailingCount? (lead : Nat) : Option Nat :=
  if lead < 0x80 then some 0
  else if lead < 0xC0 then none
  else if lead < 0xE0 then some 1
  else if lead < 0xF0 then some 2
  else if lead < 0xF8 then some 3
  else none

/-- Reads octets that continue a leading one, collected in reverse. -/
def takeTrailing? : Nat → TagText → Cursor → Option (TagText × Cursor)
  | 0, text, s => some (text, s)
  | count + 1, text, s => do
    let octet ← percentOctet? s
    if 0x80 ≤ octet && octet < 0xC0 then
      takeTrailing? count (octet.toUInt8 :: text) (s.skipMany 3)
    else none

/-- Reads a leading octet in percent escapes with those that it asks for, collected in reverse.
Whether they are the shortest spelling of a character, or of any at all, is not looked at. -/
def takePercent? (text : TagText) (s : Cursor) : Option (TagText × Cursor) := do
  let lead ← percentOctet? s
  takeTrailing? (← trailingCount? lead) (lead.toUInt8 :: text) (s.skipMany 3)

/-- The character may stand in a tag; brackets and commas only where `wide`. -/
def isTagChar (wide : Bool) (c : Char) : Bool :=
  isWordChar c || ";/?:@&=+$.!~*'()".toList.contains c || (wide && [',', '[', ']'].contains c)

/-- Reads the characters of a tag, collected in reverse. -/
def takeTagChars? (wide : Bool) : Nat → TagText → Cursor → Option (TagText × Cursor)
  | 0, text, s => some (text, s)
  | fuel + 1, text, s =>
    if s.next = '%' then do
      let (text, s) ← takePercent? text s
      takeTagChars? wide fuel text s
    else if isTagChar wide s.next then
      takeTagChars? wide fuel (s.next.toNat.toUInt8 :: text) s.skip
    else some (text, s)

/-- What counts of the characters of a tag, at least one, and the cursor after them. -/
def takeTagText? (wide : Bool) (s : Cursor) : Option (TagText × Cursor) := do
  let (text, s) ← takeTagChars? wide s.left [] s
  if text.isEmpty then none else return (TagText.upToZero text.reverse, s)

/-- The handle at the cursor: an exclamation mark, a word and perhaps another mark. -/
def takeHandle? (s : Cursor) : Option (List Char × Cursor) :=
  if s.next = '!' then
    let (word, s) := s.skip.takeWhile isWordChar
    if s.next = '!' then some ('!' :: word ++ ['!'], s.skip) else some ('!' :: word, s)
  else none

/-- The handle names a set of tags of its own, and does not only begin one. -/
def isNamedHandle (handle : List Char) : Bool :=
  1 < handle.length && handle.getLast? = some '!'

/-- Handle and suffix of the tag at the cursor. A tag in angle brackets has an empty handle, and so
has the lone mark. -/
def takeTagParts? (s : Cursor) : Option (List Char × TagText × Cursor) :=
  if s.ahead 1 = '<' then do
    let (text, s) ← takeTagText? true (s.skipMany 2)
    if s.next = '>' then return ([], text, s.skip) else none
  else do
    let (handle, s) ← takeHandle? s
    if isNamedHandle handle then
      let (suffix, s) ← takeTagText? false s
      return (handle, suffix, s)
    else
      let word := TagText.ofString (String.ofList handle.tail)
      let (text, s) ← takeTagChars? false s.left word.reverse s
      let suffix := TagText.upToZero text.reverse
      if suffix.isEmpty then return ([], .ofString "!", s) else return (['!'], suffix, s)

/-- The tag at the cursor. A blank must follow it, or a comma in a flow. -/
def takeTag? (flow : Bool) (s : Cursor) : Option (Token × Cursor) := do
  let (handle, suffix, s) ← takeTagParts? s
  if isBlankOrEnd s.next || (flow && s.next = ',') then return (.tag handle suffix, s) else none

/-! ## Directives -/

/-- The longest version number, in digits. -/
def longestNumber : Nat := 9

/-- A version number at the cursor. -/
def takeNumber? (s : Cursor) : Option (Nat × Cursor) :=
  let (digits, s) := s.takeWhile Char.isDigit
  if digits.isEmpty || longestNumber < digits.length then none
  else some (digits.foldl (fun n c => 10 * n + (c.toNat - '0'.toNat)) 0, s)

/-- The directive at the cursor, with the rest of its line. -/
def takeDirective? (s : Cursor) : Option (Token × Cursor) := do
  let (name, s) := s.skip.takeWhile isWordChar
  if !isBlankOrEnd s.next then none
  let s := s.skipWhile isBlank
  let (token, s) ←
    if name = "YAML".toList then do
      let (major, s) ← takeNumber? s
      if s.next ≠ '.' then none
      let (minor, s) ← takeNumber? s.skip
      return (Token.versionDirective major minor, s)
    else if name = "TAG".toList then do
      let (handle, s) ← takeHandle? s
      if !isNamedHandle handle && handle ≠ ['!'] then none
      if !isBlank s.next then none
      let (stem, s) ← takeTagText? true (s.skipWhile isBlank)
      if !isBlankOrEnd s.next then none
      return (Token.tagDirective handle stem, s)
    else none
  return (token, ← skipToLineEnd? s)

end ContractForge.Yaml
