import ContractForge.Yaml.Token

/-!
# Cutting YAML into tokens

`Yaml.tokens?` gives the tokens of a text. The lexer keeps the columns of the open block
collections, and for every level of flow the place at which a simple key may have begun: when the
colon is met, the key and the start of its mapping are put in there.
-/

namespace ContractForge.Yaml

/-- A place at which a key may have begun. -/
structure KeyStart where
  /-- How many tokens come before it. -/
  tokenCount : Nat
  index : Nat
  line : Nat
  column : Nat
  /-- It must turn out to be a key, since it begins a line of a block mapping. -/
  isRequired : Bool

/-- The text still to be read, the tokens so far, and what the coming ones depend on. -/
structure Lexer where
  cursor : Cursor
  tokens : Array Token := #[]
  /-- The columns of the open block collections, innermost first. -/
  indents : List Nat := []
  /-- The possible key of every level of flow, innermost first; the last is that of the block. -/
  keys : List (Option KeyStart) := [none]
  /-- A simple key may begin here. -/
  keyAllowed : Bool := true

namespace Lexer

/-- The cursor is inside a flow collection. -/
def inFlow (l : Lexer) : Bool :=
  1 < l.keys.length

/-- The longest simple key, in bytes. -/
def longestKey : Nat := 1024

/-- Adds a token. -/
def emit (l : Lexer) (token : Token) : Lexer :=
  { l with tokens := l.tokens.push token }

/-- Moves the cursor. -/
def move (l : Lexer) (f : Cursor → Cursor) : Lexer :=
  { l with cursor := f l.cursor }

/-- Puts a token in after the first `count`, or at the end. -/
def insert (l : Lexer) (count : Nat) (token : Token) : Lexer :=
  { l with tokens := l.tokens.insertIdxIfInBounds count token }

/-- A column lies further in than the innermost block collection. -/
def isDeeper (l : Lexer) (column : Nat) : Bool :=
  match l.indents with
  | [] => true
  | c :: _ => c < column

/-- Opens a block collection at a column that lies further in. Its start is put after the first
`count` tokens. -/
def openBlock (l : Lexer) (column count : Nat) (token : Token) : Lexer :=
  if !l.inFlow && l.isDeeper column then
    { l.insert count token with indents := column :: l.indents }
  else l

/-- Closes the block collections further in than a column, or all of them. -/
def closeBlocks (l : Lexer) (column : Option Nat) : Lexer :=
  if l.inFlow then l
  else
    let isLeft (c : Nat) : Bool := match column with | some k => k < c | none => true
    { l with
      tokens := l.tokens ++ (l.indents.takeWhile isLeft).map fun _ => Token.blockEnd
      indents := l.indents.dropWhile isLeft }

/-- Drops the possible key of this level; a required one cannot be dropped. -/
def dropKey? (l : Lexer) : Option Lexer :=
  match l.keys with
  | some k :: rest => if k.isRequired then none else some { l with keys := none :: rest }
  | _ => some l

/-- Takes note that a key may begin here. -/
def noteKey? (l : Lexer) : Option Lexer :=
  if l.keyAllowed then do
    let l ← l.dropKey?
    let s := l.cursor
    let start : KeyStart :=
      { tokenCount := l.tokens.size, index := s.index, line := s.line, column := s.column
        isRequired := !l.inFlow && l.indents.head? = some s.column }
    return { l with keys := some start :: l.keys.tail }
  else some l

/-- Drops the possible keys that are left behind: a key is on one line and not too long. -/
def dropStaleKeys? (l : Lexer) : Option Lexer := do
  let keys ← l.keys.mapM fun key =>
    match key with
    | none => some none
    | some k =>
      if k.line < l.cursor.line || k.index + longestKey < l.cursor.index then
        if k.isRequired then none else some none
      else some (some k)
  return { l with keys }

/-- Past blanks, comments and line breaks, up to the next token. -/
def skipToToken : Nat → Lexer → Lexer
  | 0, l => l
  | fuel + 1, l =>
    let s := l.cursor
    let s := if s.column = 0 && s.next = '\ufeff' then s.skip else s
    let s := s.skipWhile fun c => c = ' ' || ((l.inFlow || !l.keyAllowed) && c = '\t')
    let s := if s.next = '#' then s.skipWhile fun _ => true else s
    if isBreak s.next then
      skipToToken fuel { l with cursor := s.skipLine, keyAllowed := l.keyAllowed || !l.inFlow }
    else { l with cursor := s }

/-- A token of one or more characters at the start of a line, outside all collections. -/
def atLineStart? (l : Lexer) : Option Lexer := do
  let l ← (l.closeBlocks none).dropKey?
  return { l with keyAllowed := false }

/-- The start of a flow collection. -/
def openFlow? (l : Lexer) (token : Token) : Option Lexer := do
  let l ← l.noteKey?
  return ({ l with keys := none :: l.keys, keyAllowed := true }.emit token).move Cursor.skip

/-- The end of a flow collection. -/
def closeFlow? (l : Lexer) (token : Token) : Option Lexer := do
  let l ← l.dropKey?
  let keys := if l.inFlow then l.keys.tail else l.keys
  return ({ l with keys, keyAllowed := false }.emit token).move Cursor.skip

/-- The comma of a flow collection. -/
def flowEntry? (l : Lexer) : Option Lexer := do
  let l ← l.dropKey?
  return ({ l with keyAllowed := true }.emit .flowEntry).move Cursor.skip

/-- The dash of a block sequence. -/
def blockEntry? (l : Lexer) : Option Lexer := do
  if !l.inFlow && !l.keyAllowed then none
  let l ← (l.openBlock l.cursor.column l.tokens.size .blockSequenceStart).dropKey?
  return ({ l with keyAllowed := true }.emit .blockEntry).move Cursor.skip

/-- The question mark before a key. -/
def explicitKey? (l : Lexer) : Option Lexer := do
  if !l.inFlow && !l.keyAllowed then none
  let l ← (l.openBlock l.cursor.column l.tokens.size .blockMappingStart).dropKey?
  return ({ l with keyAllowed := !l.inFlow }.emit .key).move Cursor.skip

/-- The colon before a value. It makes a key of what may be one. -/
def value? (l : Lexer) : Option Lexer := do
  match l.keys with
  | some k :: rest =>
    let l := (l.insert k.tokenCount .key).openBlock k.column k.tokenCount .blockMappingStart
    return ({ l with keys := none :: rest, keyAllowed := false }.emit .value).move Cursor.skip
  | _ =>
    if !l.inFlow && !l.keyAllowed then none
    let l := l.openBlock l.cursor.column l.tokens.size .blockMappingStart
    return ({ l with keyAllowed := !l.inFlow }.emit .value).move Cursor.skip

/-- A token that may begin a key, and the cursor after it. -/
def content? (l : Lexer) (take : Cursor → Option (Token × Cursor)) : Option Lexer := do
  let l ← l.noteKey?
  let (token, cursor) ← take l.cursor
  return { l with cursor, keyAllowed := false }.emit token

/-- A plain scalar. A line break after it allows a key. -/
def plain? (l : Lexer) : Option Lexer := do
  let l ← l.noteKey?
  let indent := match l.indents with | [] => 0 | c :: _ => c + 1
  let (text, cursor, broken) ← takePlain? l.inFlow indent l.cursor
  return { l with cursor, keyAllowed := broken }.emit (.scalar .plain text)

/-- A block scalar. -/
def block? (l : Lexer) (style : Style) : Option Lexer := do
  let l ← l.dropKey?
  let (text, cursor) ← takeBlock? (style = .literal) l.indents.head? l.cursor
  return { l with cursor, keyAllowed := true }.emit (.scalar style text)

/-- The character begins no plain scalar. -/
def isIndicator (c : Char) : Bool :=
  "-?:,[]{}#&*!|>'\"%@`".toList.contains c

/-- A plain scalar begins at the cursor. -/
def startsPlain (flow : Bool) (s : Cursor) : Bool :=
  !(isBlankOrEnd s.next || isIndicator s.next) ||
    (s.next = '-' && !isBlank (s.ahead 1)) ||
    (!flow && (s.next = '?' || s.next = ':') && !isBlankOrEnd (s.ahead 1))

/-- Reads the token at the cursor, which stands at no blank. -/
def token? (l : Lexer) : Option Lexer :=
  let s := l.cursor
  let c := s.next
  let isApart := l.inFlow || isBlankOrEnd (s.ahead 1)
  if s.column = 0 && c = '%' then do
    let l ← l.atLineStart?
    let (token, cursor) ← takeDirective? s
    return { l with cursor }.emit token
  else if s.atMarker '-' then do
    return ((← l.atLineStart?).emit .documentStart).move (·.skipMany 3)
  else if s.atMarker '.' then do
    return ((← l.atLineStart?).emit .documentEnd).move (·.skipMany 3)
  else if c = '[' then l.openFlow? .flowSequenceStart
  else if c = '{' then l.openFlow? .flowMappingStart
  else if c = ']' then l.closeFlow? .flowSequenceEnd
  else if c = '}' then l.closeFlow? .flowMappingEnd
  else if c = ',' then l.flowEntry?
  else if c = '-' && isBlankOrEnd (s.ahead 1) then l.blockEntry?
  else if c = '?' && isApart then l.explicitKey?
  else if c = ':' && isApart then l.value?
  else if c = '*' then
    l.content? fun s => (takeAnchorName? s).map fun (name, s) => (.reference name, s)
  else if c = '&' then
    l.content? fun s => (takeAnchorName? s).map fun (name, s) => (.anchor name, s)
  else if c = '!' then l.content? (takeTag? l.inFlow)
  else if c = '|' && !l.inFlow then l.block? .literal
  else if c = '>' && !l.inFlow then l.block? .folded
  else if c = '\'' then
    l.content? fun s => (takeQuoted? s).map fun (text, s) => (.scalar .singleQuoted text, s)
  else if c = '"' then
    l.content? fun s => (takeQuoted? s).map fun (text, s) => (.scalar .doubleQuoted text, s)
  else if startsPlain l.inFlow s then l.plain?
  else none

/-- Closes everything at the end of the text. -/
def finish? (l : Lexer) : Option (Array Token) := do
  return (← (l.closeBlocks none).dropKey?).tokens

/-- Reads tokens up to the end of the text, `fuel` of them at most. -/
def run? : Nat → Lexer → Option (Array Token)
  | 0, _ => none
  | fuel + 1, l => do
    let l ← (l.skipToToken (l.cursor.left + 1)).dropStaleKeys?
    let l := l.closeBlocks (some l.cursor.column)
    if isEnd l.cursor.next then l.finish?
    else run? fuel (← l.token?)

end Lexer

/-- The tokens of a text. -/
def tokens? (text : String) : Option (List Token) := do
  if text.toList.all isAllowed then
    let tokens ← Lexer.run? (text.length + 1) { cursor := Cursor.start text.toList }
    return tokens.toList
  else none

end ContractForge.Yaml
