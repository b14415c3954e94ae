import ContractForge.Text.Hex

/-!
# TOML scalars

Keys and values that hold no other values: strings of four kinds, integers, floats, and dates and
times. Each `take…?` reads one from the start of a text and gives the text after it.

Dates, times and floats are checked in full, but only the fact that they stand there is kept.
-/

namespace ContractForge.Toml

/-- A blank within a line. -/
def isBlank (c : Char) : Bool :=
  c = ' ' || c = '\t'

/-- The character may stand in a comment: a tab, or no ASCII control. -/
def isCommentChar (c : Char) : Bool :=
  c = '\t' || (' ' ≤ c && c ≠ '\x7f')

/-- A text without the blanks it begins with. -/
def skipBlanks (s : List Char) : List Char :=
  s.dropWhile isBlank

/-- A text without the line break it begins with, which must be there. -/
def takeNewline? : List Char → Option (List Char)
  | '\n' :: rest => some rest
  | '\r' :: '\n' :: rest => some rest
  | _ => none

/-- A text without the comment it begins with, if it begins with one. -/
def skipComment (s : List Char) : List Char :=
  match s with
  | '#' :: rest => rest.dropWhile isCommentChar
  | _ => s

/-! ## Strings -/

/-- The character that a short escape stands for. -/
def simpleEscape? (c : Char) : Option Char :=
  match c with
  | 'b' => some '\x08'
  | 'f' => some '\x0c'
  | 'n' => some '\n'
  | 'r' => some '\r'
  | 't' => some '\t'
  | '"' => some '"'
  | '\\' => some '\\'
  | _ => none

/-- A character given by `count` hex digits. -/
def takeCode? (count : Nat) (s : List Char) : Option (Char × List Char) := do
  let digits := s.take count
  if digits.length < count then none
  let code ← digits.foldlM (fun n c => (Text.hexValue? c).map (16 * n + ·)) 0
  if code.isValidChar then return (Char.ofNat code, s.drop count) else none

/-- The character of an escape whose backslash has been read. -/
def takeEscape? : List Char → Option (Char × List Char)
  | 'u' :: rest => takeCode? 4 rest
  | 'U' :: rest => takeCode? 8 rest
  | c :: rest => (simpleEscape? c).map (·, rest)
  | [] => none

/-- Reads a string of one line up to its closing quote. The text is collected in reverse. -/
def takeLine? (quote : Char) : Nat → List Char → List Char → Option (String × List Char)
  | 0, _, _ => none
  | fuel + 1, text, s =>
    match s with
    | [] => none
    | c :: rest =>
      if c = quote then some (String.ofList text.reverse, rest)
      else if c = '\\' && quote = '"' then
        match takeEscape? rest with
        | some (c, rest) => takeLine? quote fuel (c :: text) rest
        | none => none
      else if isCommentChar c then takeLine? quote fuel (c :: text) rest
      else none

/-- Blanks and line breaks after an escaped line break. -/
def skipBlankLines : Nat → List Char → List Char
  | 0, s => s
  | fuel + 1, s =>
    match takeNewline? (skipBlanks s) with
    | some rest => skipBlankLines fuel rest
    | none => skipBlanks s

/-- Reads a string of several lines up to its closing quotes. Up to two quotes may stand right
before those. The text is collected in reverse. -/
def takeLines? (quote : Char) : Nat → List Char → List Char → Option (String × List Char)
  | 0, _, _ => none
  | fuel + 1, text, s =>
    match s with
    | [] => none
    | c :: rest =>
      if c = quote then
        let run := (s.takeWhile (· = quote)).length
        let kept := if run < 3 then run else min (run - 3) 2
        let text := List.replicate kept quote ++ text
        if run < 3 then takeLines? quote fuel text (s.drop run)
        else some (String.ofList text.reverse, s.drop (kept + 3))
      else if c = '\\' && quote = '"' then
        match takeNewline? (skipBlanks rest) with
        | some rest => takeLines? quote fuel text (skipBlankLines rest.length rest)
        | none =>
          match takeEscape? rest with
          | some (c, rest) => takeLines? quote fuel (c :: text) rest
          | none => none
      else if isCommentChar c then takeLines? quote fuel (c :: text) rest
      else
        match takeNewline? s with
        | some rest => takeLines? quote fuel ('\n' :: text) rest
        | none => none

/-- A string of one line, at its opening quote. -/
def takeSimpleString? : List Char → Option (String × List Char)
  | quote :: rest => takeLine? quote (rest.length + 1) [] rest
  | [] => none

/-- A string of any kind, at its opening quotes. -/
def takeString? (s : List Char) : Option (String × List Char) :=
  match s with
  | first :: second :: third :: rest =>
    if first = second && first = third then
      let rest := (takeNewline? rest).getD rest
      takeLines? first (rest.length + 1) [] rest
    else takeSimpleString? s
  | _ => takeSimpleString? s

/-! ## Numbers -/

/-- Digits of some kind with single underscores between them. -/
def takeDigits? (isDigit : Char → Bool) : List Char → Option (List Char × List Char)
  | [] => none
  | [c] => if isDigit c then some ([c], []) else none
  | c :: '_' :: rest =>
    if isDigit c then (takeDigits? isDigit rest).map fun (digits, rest) => (c :: digits, rest)
    else none
  | c :: d :: rest =>
    if !isDigit c then none
    else if isDigit d then
      (takeDigits? isDigit (d :: rest)).map fun (digits, rest) => (c :: digits, rest)
    else some ([c], d :: rest)

/-- The number that digits stand for. -/
def numberOf (base : Nat) (digits : List Char) : Nat :=
  digits.foldl (fun n c => base * n + (Text.hexValue? c).getD 0) 0

/-- A sign, if there is one: true for minus. -/
def takeSign (s : List Char) : Bool × List Char :=
  match s with
  | '+' :: rest => (false, rest)
  | '-' :: rest => (true, rest)
  | _ => (false, s)

/-- The digits of a decimal number, of which only zero begins with a zero. -/
def takeWhole? (s : List Char) : Option (List Char × List Char) :=
  match s with
  | '0' :: rest => some (['0'], rest)
  | _ => takeDigits? Char.isDigit s

/-- The first magnitude that does not fit into 63 bits. -/
def magnitudeLimit : Nat := 1 <<< 63

/-- The integer of a sign and a magnitude, if it has at most 64 bits. -/
def integer? (isNegative : Bool) (n : Nat) : Option Int :=
  if isNegative then (if n ≤ magnitudeLimit then some (-n) else none)
  else if n < magnitudeLimit then some n
  else none

/-- An integer: decimal with a sign, or hexadecimal, octal or binary without one. -/
def takeInteger? (s : List Char) : Option (Int × List Char) :=
  match s with
  | '0' :: 'x' :: rest => do
    let (digits, rest) ← takeDigits? (fun c => (Text.hexValue? c).isSome) rest
    return (← integer? false (numberOf 16 digits), rest)
  | '0' :: 'o' :: rest => do
    let (digits, rest) ← takeDigits? (fun c => '0' ≤ c && c ≤ '7') rest
    return (← integer? false (numberOf 8 digits), rest)
  | '0' :: 'b' :: rest => do
    let (digits, rest) ← takeDigits? (fun c => c = '0' || c = '1') rest
    return (← integer? false (numberOf 2 digits), rest)
  | _ => do
    let (isNegative, rest) := takeSign s
    let (digits, rest) ← takeWhole? rest
    return (← integer? isNegative (numberOf 10 digits), rest)

/-- The number `n · 10 ^ exponent` is too large for a float of 64 bits: it rounds to infinity. -/
def overflows (n : Nat) (exponent : Int) : Bool :=
  let digits : Int := (toString n).length
  if n = 0 || digits + exponent < 300 then false
  else if 320 < digits + exponent then true
  else
    let limit := (1 <<< 1024) - (1 <<< 970)
    if 0 ≤ exponent then limit ≤ n * Nat.pow 10 exponent.toNat
    else limit * Nat.pow 10 (-exponent).toNat ≤ n

/-- An exponent with its sign. -/
def takeExponent? (s : List Char) : Option (Int × List Char) :=
  match s with
  | e :: rest =>
    if e = 'e' || e = 'E' then do
      let (isNegative, rest) := takeSign rest
      let (digits, rest) ← takeDigits? Char.isDigit rest
      let n : Int := numberOf 10 digits
      return (if isNegative then -n else n, rest)
    else none
  | [] => none

/-- The text after a float, which has a fraction or an exponent or is a special word. A positive
number that is too large is refused. -/
def takeFloat? (s : List Char) : Option (List Char) := do
  let (isNegative, body) := takeSign s
  match body with
  | 'i' :: 'n' :: 'f' :: rest | 'n' :: 'a' :: 'n' :: rest => return rest
  | _ =>
    let (whole, rest) ← takeWhole? body
    let (fraction, rest) ←
      match rest with
      | '.' :: rest => takeDigits? Char.isDigit rest
      | _ => some ([], rest)
    let hasExponent :=
      match rest with
      | e :: _ => e = 'e' || e = 'E'
      | [] => false
    if fraction.isEmpty && !hasExponent then none
    let (exponent, rest) ← if hasExponent then takeExponent? rest else some (0, rest)
    if !isNegative && overflows (numberOf 10 (whole ++ fraction)) (exponent - fraction.length) then
      none
    return rest

/-! ## Dates and times -/

/-- A number of exactly `count` digits within bounds. -/
def takeField? (count low high : Nat) (s : List Char) : Option (Nat × List Char) :=
  let digits := s.take count
  let n := numberOf 10 digits
  if digits.length = count && digits.all Char.isDigit && low ≤ n && n ≤ high then
    some (n, s.drop count)
  else none

/-- A given character. -/
def takeChar? (c : Char) (s : List Char) : Option (List Char) :=
  match s with
  | d :: rest => if d = c then some rest else none
  | [] => none

/-- The number of days in a month. -/
def daysIn (year month : Nat) : Nat :=
  let isLeap := year % 4 = 0 && (year % 100 ≠ 0 || year % 400 = 0)
  if month = 2 then (if isLeap then 29 else 28)
  else if [4, 6, 9, 11].contains month then 30
  else 31

/-- The text after a date. -/
def takeDate? (s : List Char) : Option (List Char) := do
  let (year, s) ← takeField? 4 0 9999 s
  let s ← takeChar? '-' s
  let (month, s) ← takeField? 2 1 12 s
  let s ← takeChar? '-' s
  let (_, s) ← takeField? 2 1 (daysIn year month) s
  return s

/-- The text after a time of day. -/
def takeTime? (s : List Char) : Option (List Char) := do
  let (_, s) ← takeField? 2 0 23 s
  let s ← takeChar? ':' s
  let (_, s) ← takeField? 2 0 59 s
  let s ← takeChar? ':' s
  let (_, s) ← takeField? 2 0 60 s
  match s with
  | '.' :: rest =>
    let after := rest.dropWhile Char.isDigit
    if after.length = rest.length then none else return after
  | _ => return s

/-- The text after an offset from universal time, which need not be there. -/
def takeOffset? (s : List Char) : Option (List Char) :=
  match s with
  | c :: rest =>
    if c = 'Z' || c = 'z' then some rest
    else if c = '+' || c = '-' then do
      let (_, rest) ← takeField? 2 0 23 rest
      let rest ← takeChar? ':' rest
      let (_, rest) ← takeField? 2 0 59 rest
      return rest
    else some s
  | [] => some s

/-- The character may stand between date and time. -/
def isTimeMark (c : Char) : Bool :=
  c = 'T' || c = 't' || c = ' '

/-- The text after a date, a date with a time, or a time. -/
def takeMoment? (s : List Char) : Option (List Char) :=
  match takeDate? s with
  | none => takeTime? s
  | some s =>
    match s with
    | c :: d :: rest =>
      if isTimeMark c && d.isDigit then do takeOffset? (← takeTime? (d :: rest))
      else some s
    | _ => some s

end ContractForge.Toml
