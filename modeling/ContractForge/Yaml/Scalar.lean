import ContractForge.Text.Hex
import ContractForge.Yaml.Cursor

/-!
# YAML scalars

The three ways to write a scalar, each read from a cursor at its first character: `takePlain?`,
`takeQuoted?` and `takeBlock?`. Line breaks inside a scalar are folded: a single one becomes a
space, and of several the first is dropped. Only a literal block keeps them all.
-/

namespace ContractForge.Yaml

/-- How a scalar is written. -/
inductive Style where
  | plain
  | singleQuoted
  | doubleQuoted
  | literal
  | folded
  deriving DecidableEq

/-- Line breaks between two stretches of text: the first, and the ones after it. -/
structure Breaks where
  first : List Char := []
  further : List Char := []

/-- What breaks come to when lines are joined. -/
def Breaks.folded (b : Breaks) : List Char :=
  if b.first.head? = some '\n' then (if b.further.isEmpty then [' '] else b.further)
  else b.first ++ b.further

/-- Blanks and breaks after a stretch of text. -/
structure Gap where
  blanks : List Char := []
  breaks : Breaks := {}
  /-- A break has been read. -/
  broken : Bool := false

/-- The text that a gap comes to. -/
def Gap.text (g : Gap) : List Char :=
  if g.broken then g.breaks.folded else g.blanks

/-- Reads blanks and breaks. Tabs before column `indent` of a later line are refused; `indent` is
zero where they are fine. -/
def takeGap? (indent : Nat) : Nat → Gap → Cursor → Option (Gap × Cursor)
  | 0, g, s => some (g, s)
  | fuel + 1, g, s =>
    if isBlank s.next then
      if g.broken then
        if s.column < indent && s.next = '\t' then none
        else takeGap? indent fuel g s.skip
      else takeGap? indent fuel { g with blanks := g.blanks ++ [s.next] } s.skip
    else if isBreak s.next then
      let (text, s) := s.takeBreak
      if g.broken then
        let breaks := { g.breaks with further := g.breaks.further ++ text }
        takeGap? indent fuel { g with breaks } s
      else
        takeGap? indent fuel { blanks := [], breaks := { first := text }, broken := true } s
    else some (g, s)

/-! ## Plain scalars -/

/-- The character is one of the brackets and commas that end a plain scalar in a flow. -/
def isFlowIndicator (c : Char) : Bool :=
  c = ',' || c = '[' || c = ']' || c = '{' || c = '}'

/-- A colon in a flow right before an indicator belongs to no scalar. -/
def isStrayColon (flow : Bool) (s : Cursor) : Bool :=
  flow && s.next = ':' && (isFlowIndicator (s.ahead 1) || s.ahead 1 = '?')

/-- A plain scalar ends here, in the middle of its line. -/
def endsPlain (flow : Bool) (s : Cursor) : Bool :=
  (s.next = ':' && isBlankOrEnd (s.ahead 1)) || (flow && isFlowIndicator s.next)

/-- Reads a stretch of a plain scalar without blanks; the text is collected in reverse. -/
def takeWord? (flow : Bool) : Nat → List Char → Cursor → Option (List Char × Cursor)
  | 0, text, s => some (text, s)
  | fuel + 1, text, s =>
    if isBlankOrEnd s.next then some (text, s)
    else if isStrayColon flow s then none
    else if endsPlain flow s then some (text, s)
    else takeWord? flow fuel (s.next :: text) s.skip

/-- Reads a plain scalar that has come as far as a gap. The last component tells whether the scalar
was followed by a line break. -/
def takePlainFrom? (flow : Bool) (indent : Nat) :
    Nat → List Char → Gap → Cursor → Option (List Char × Cursor × Bool)
  | 0, text, g, s => some (text.reverse, s, g.broken)
  | fuel + 1, text, g, s =>
    if s.atAnyMarker || s.next = '#' then some (text.reverse, s, g.broken)
    else do
      let start := if endsPlain flow s || isBlankOrEnd s.next then text else g.text.reverse ++ text
      let (text, after) ← takeWord? flow s.left start s
      let g := if after.index = s.index then g else {}
      if isBlank after.next || isBreak after.next then
        let (g, s) ← takeGap? indent after.left g after
        if !flow && s.column < indent then return (text.reverse, s, g.broken)
        else takePlainFrom? flow indent fuel text g s
      else return (text.reverse, after, g.broken)

/-- The text of a plain scalar, the cursor after it, and whether a line break followed it. The
scalar ends before a line that is set in less than `indent`. -/
def takePlain? (flow : Bool) (indent : Nat) (s : Cursor) : Option (List Char × Cursor × Bool) :=
  takePlainFrom? flow indent (s.left + 1) [] {} s

/-! ## Quoted scalars -/

/-- The character that an escape letter stands for. -/
def simpleEscape? (c : Char) : Option Char :=
  match c with
  | '0' => some '\x00'
  | 'a' => some '\x07'
  | 'b' => some '\x08'
  | 't' | '\t' => some '\t'
  | 'n' => some '\n'
  | 'v' => some '\x0b'
  | 'f' => some '\x0c'
  | 'r' => some '\r'
  | 'e' => some '\x1b'
  | ' ' => some ' '
  | '"' => some '"'
  | '/' => some '/'
  | '\\' => some '\\'
  | 'N' => some '\u0085'
  | '_' => some '\u00a0'
  | 'L' => some '\u2028'
  | 'P' => some '\u2029'
  | _ => none

/-- How many hex digits follow an escape letter. -/
def codeLength? (c : Char) : Option Nat :=
  match c with
  | 'x' => some 2
  | 'u' => some 4
  | 'U' => some 8
  | _ => none

/-- The value of some hex digits. -/
def hexNumber? (digits : List Char) : Option Nat :=
  digits.foldlM (fun n c => (Text.hexValue? c).map (16 * n + ·)) 0

/-- The character of an escape whose backslash is next, and the cursor after it. -/
def takeEscape? (s : Cursor) : Option (Char × Cursor) :=
  match codeLength? (s.ahead 1) with
  | some count => do
    let digits := (s.rest.drop 2).take count
    if digits.length < count then none
    let code ← hexNumber? digits
    if code.isValidChar then return (Char.ofNat code, s.skipMany (2 + count)) else none
  | none => (simpleEscape? (s.ahead 1)).map fun c => (c, s.skipMany 2)

/-- Reads a stretch of a quoted scalar without blanks; the text is collected in reverse. The last
component tells that an escaped line break ended it. -/
def takeQuotedWord? (quote : Char) : Nat → List Char → Cursor → Option (List Char × Cursor × Bool)
  | 0, text, s => some (text, s, false)
  | fuel + 1, text, s =>
    if isBlankOrEnd s.next then some (text, s, false)
    else if quote = '\'' && s.next = '\'' && s.ahead 1 = '\'' then
      takeQuotedWord? quote fuel ('\'' :: text) (s.skipMany 2)
    else if s.next = quote then some (text, s, false)
    else if quote = '"' && s.next = '\\' then
      if isBreak (s.ahead 1) then some (text, s.skip.skipLine, true)
      else
        match takeEscape? s with
        | some (c, s) => takeQuotedWord? quote fuel (c :: text) s
        | none => none
    else takeQuotedWord? quote fuel (s.next :: text) s.skip

/-- Reads a quoted scalar whose opening quote has been read. -/
def takeQuotedFrom? (quote : Char) : Nat → List Char → Cursor → Option (List Char × Cursor)
  | 0, _, _ => none
  | fuel + 1, text, s =>
    if s.atAnyMarker || isEnd s.next then none
    else do
      let (text, s, escaped) ← takeQuotedWord? quote s.left text s
      if s.next = quote then return (text.reverse, s.skip)
      else
        let (g, s) ← takeGap? 0 s.left { broken := escaped } s
        takeQuotedFrom? quote fuel (g.text.reverse ++ text) s

/-- The text of a quoted scalar, and the cursor after it. -/
def takeQuoted? (s : Cursor) : Option (List Char × Cursor) :=
  takeQuotedFrom? s.next (s.left + 1) [] s.skip

/-! ## Block scalars -/

/-- What becomes of the line breaks at the end of a block. -/
inductive Chomping where
  | strip
  | clip
  | keep
  deriving DecidableEq

/-- The head of a block scalar: its chomping and how far it is set in, if that is given. -/
structure BlockHead where
  chomping : Chomping := .clip
  increment : Option Nat := none

/-- Reads a chomping indicator. -/
def takeChomping (s : Cursor) : Option Chomping × Cursor :=
  if s.next = '+' then (some .keep, s.skip)
  else if s.next = '-' then (some .strip, s.skip)
  else (none, s)

/-- Reads an indentation indicator; zero is refused. -/
def takeIncrement? (s : Cursor) : Option (Option Nat × Cursor) :=
  if s.next = '0' then none
  else if s.next.isDigit then some (some (s.next.toNat - '0'.toNat), s.skip)
  else some (none, s)

/-- Past blanks and a comment up to the end of the line; anything else is refused. -/
def skipToLineEnd? (s : Cursor) : Option Cursor :=
  let s := s.skipWhile isBlank
  let s := if s.next = '#' then s.skipWhile fun _ => true else s
  if isBreakOrEnd s.next then some s.skipLine else none

/-- Reads the indicators of a block scalar, in either order, and the rest of its first line. -/
def takeBlockHead? (s : Cursor) : Option (BlockHead × Cursor) := do
  let (chomping, s) := takeChomping s
  let (increment, s) ← takeIncrement? s
  let (chomping, s) :=
    match chomping with
    | none => if increment.isSome then takeChomping s else (none, s)
    | some c => (some c, s)
  return ({ chomping := chomping.getD .clip, increment }, ← skipToLineEnd? s)

/-- Reads the empty lines before a line of a block. An `indent` of zero is not known yet, and
becomes the deepest indentation seen. -/
def takeBlockBreaks? (least : Nat) (indent : Nat) :
    Nat → List Char → Nat → Cursor → Option (List Char × Nat × Cursor)
  | 0, text, deepest, s => some (text, if indent = 0 then max deepest least else indent, s)
  | fuel + 1, text, deepest, s =>
    let width := (s.rest.takeWhile (· = ' ')).length
    let s := s.skipMany (if indent = 0 then width else min width (indent - s.column))
    let deepest := max deepest s.column
    if (indent = 0 || s.column < indent) && s.next = '\t' then none
    else if isBreak s.next then
      let (more, s) := s.takeBreak
      takeBlockBreaks? least indent fuel (text ++ more) deepest s
    else some (text, if indent = 0 then max deepest least else indent, s)

/-- Reads the lines of a block. `breaks` is what lies between the text and the next line. -/
def takeBlockLines? (literal : Bool) (least indent : Nat) :
    Nat → List Char → Breaks → Bool → Cursor → Option (List Char × Breaks × Cursor)
  | 0, text, breaks, _, s => some (text, breaks, s)
  | fuel + 1, text, breaks, afterBlank, s =>
    if s.column = indent && !isEnd s.next then do
      let startsBlank := isBlank s.next
      let joined :=
        if !literal && breaks.first.head? = some '\n' && !afterBlank && !startsBlank then
          breaks.folded
        else breaks.first ++ breaks.further
      let (line, s) := s.takeWhile fun _ => true
      let (first, s) := s.takeBreak
      let (further, _, s) ← takeBlockBreaks? least indent s.left [] 0 s
      takeBlockLines? literal least indent fuel (line.reverse ++ joined.reverse ++ text)
        { first, further } startsBlank s
    else some (text, breaks, s)

/-- The text of a block scalar, and the cursor after it. `parent` is how far the collection around
the block is set in, if there is one. -/
def takeBlock? (literal : Bool) (parent : Option Nat) (s : Cursor) :
    Option (List Char × Cursor) := do
  let (head, s) ← takeBlockHead? s.skip
  let least := max 1 (match parent with | some column => column + 1 | none => 0)
  let indent := match head.increment with | some n => parent.getD 0 + n | none => 0
  let (further, indent, s) ← takeBlockBreaks? least indent s.left [] 0 s
  let (text, breaks, s) ←
    takeBlockLines? literal least indent (s.left + 1) [] { further } false s
  let tail :=
    match head.chomping with
    | .strip => []
    | .clip => breaks.first
    | .keep => breaks.first ++ breaks.further
  return (text.reverse ++ tail, s)

end ContractForge.Yaml
