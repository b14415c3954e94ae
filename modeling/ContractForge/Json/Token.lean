import ContractForge.Text.Hex

/-!
# JSON tokens

`Json.Token.scan?` cuts a JSON text into brackets, commas, colons and scalars. It fails on a text
that no document contains: an unknown word, a malformed number, an unclosed string, a control
character or a malformed escape inside a string.

A string may hold escapes of unpaired surrogates. It is a string of the grammar then, but it denotes
no text, so its content is `none`.
-/

namespace ContractForge.Json

/-- A token. Numbers keep their spelling. -/
inductive Token where
  | openArray
  | closeArray
  | openObject
  | closeObject
  | comma
  | colon
  | null
  | bool (value : Bool)
  | number (spelling : List Char)
  | string (content : Option String)
  deriving DecidableEq

/-- A character of a string, or a surrogate from an escape. -/
inductive StringItem where
  | char (c : Char)
  | surrogate (code : Nat)

/-- The item that an escaped code stands for. -/
def StringItem.ofCode (code : Nat) : StringItem :=
  if 0xD800 ≤ code ∧ code < 0xE000 then surrogate code else char (Char.ofNat code)

/-- The text of a string, in which surrogates come in pairs. -/
def textOfItems : List StringItem → Option (List Char)
  | [] => some []
  | .char c :: rest => (textOfItems rest).map (c :: ·)
  | .surrogate high :: .surrogate low :: rest =>
    if high < 0xDC00 ∧ 0xDC00 ≤ low then
      (textOfItems rest).map
        (Char.ofNat (0x10000 + (high - 0xD800) * 0x400 + (low - 0xDC00)) :: ·)
    else none
  | .surrogate _ :: _ => none

/-- The character that a short escape stands for. -/
def shortEscape? (c : Char) : Option Char :=
  match c with
  | '"' => some '"'
  | '\\' => some '\\'
  | '/' => some '/'
  | 'b' => some '\x08'
  | 'f' => some '\x0c'
  | 'n' => some '\n'
  | 'r' => some '\r'
  | 't' => some '\t'
  | _ => none

/-- The code of four hex digits. -/
def hexCode? (a b c d : Char) : Option Nat := do
  let a ← Text.hexValue? a
  let b ← Text.hexValue? b
  let c ← Text.hexValue? c
  let d ← Text.hexValue? d
  return ((a * 16 + b) * 16 + c) * 16 + d

/-- The items of a string whose opening quote has been read, and the text after its closing one. -/
def stringItems? : List Char → Option (List StringItem × List Char)
  | [] => none
  | '"' :: rest => some ([], rest)
  | '\\' :: 'u' :: a :: b :: c :: d :: rest => do
    let code ← hexCode? a b c d
    let (items, rest) ← stringItems? rest
    return (.ofCode code :: items, rest)
  | '\\' :: e :: rest => do
    let c ← shortEscape? e
    let (items, rest) ← stringItems? rest
    return (.char c :: items, rest)
  | c :: rest =>
    if c.toNat < 0x20 || c = '\\' then none
    else do
      let (items, rest) ← stringItems? rest
      return (.char c :: items, rest)

/-- The ASCII digits at the start of a text, and the rest. -/
def digits (s : List Char) : List Char × List Char :=
  (s.takeWhile Char.isDigit, s.dropWhile Char.isDigit)

/-- The digits of a whole part, which has no leading zero unless it is zero. -/
def wholePart? (s : List Char) : Option (List Char × List Char) :=
  match s with
  | '0' :: rest => some (['0'], rest)
  | _ =>
    match digits s with
    | ([], _) => none
    | found => some found

/-- A point with digits, or nothing. -/
def fraction? (s : List Char) : Option (List Char × List Char) :=
  match s with
  | '.' :: rest =>
    match digits rest with
    | ([], _) => none
    | (ds, rest) => some ('.' :: ds, rest)
  | _ => some ([], s)

/-- An exponent, or nothing. -/
def exponent? (s : List Char) : Option (List Char × List Char) :=
  match s with
  | e :: rest =>
    if e = 'e' || e = 'E' then
      let (sign, rest) :=
        match rest with
        | '+' :: rest => (['+'], rest)
        | '-' :: rest => (['-'], rest)
        | _ => ([], rest)
      match digits rest with
      | ([], _) => none
      | (ds, rest) => some (e :: sign ++ ds, rest)
    else some ([], s)
  | [] => some ([], [])

/-- The number at the start of a text, and the rest. -/
def number? (s : List Char) : Option (List Char × List Char) := do
  let (sign, s) :=
    match s with
    | '-' :: rest => (['-'], rest)
    | _ => ([], s)
  let (whole, s) ← wholePart? s
  let (frac, s) ← fraction? s
  let (exp, s) ← exponent? s
  return (sign ++ whole ++ frac ++ exp, s)

/-- The token at the start of a text, which begins with no blank, and the rest. -/
def Token.next? : List Char → Option (Token × List Char)
  | '[' :: rest => some (openArray, rest)
  | ']' :: rest => some (closeArray, rest)
  | '{' :: rest => some (openObject, rest)
  | '}' :: rest => some (closeObject, rest)
  | ',' :: rest => some (comma, rest)
  | ':' :: rest => some (colon, rest)
  | 'n' :: 'u' :: 'l' :: 'l' :: rest => some (null, rest)
  | 't' :: 'r' :: 'u' :: 'e' :: rest => some (bool true, rest)
  | 'f' :: 'a' :: 'l' :: 's' :: 'e' :: rest => some (bool false, rest)
  | '"' :: rest => do
    let (items, rest) ← stringItems? rest
    return (string ((textOfItems items).map String.ofList), rest)
  | s => do
    let (spelling, rest) ← number? s
    return (number spelling, rest)

/-- The character separates tokens. -/
def isSpace (c : Char) : Bool :=
  c = ' ' || c = '\n' || c = '\t' || c = '\r'

/-- The tokens of a text, `fuel` of them at most. -/
def Token.scanWith : Nat → List Char → Option (List Token)
  | 0, _ => none
  | fuel + 1, s =>
    match s.dropWhile isSpace with
    | [] => some []
    | s => do
      let (token, rest) ← next? s
      let tokens ← scanWith fuel rest
      return token :: tokens

/-- The tokens of a text. -/
def Token.scan? (text : String) : Option (List Token) :=
  scanWith (text.length + 1) text.toList

end ContractForge.Json
