import ContractForge.Toml.Scalar
import ContractForge.Toml.Table

/-!
# TOML documents

`Toml.parse?` gives the root table of a text, or `none` where the text is no document. Values and
keys are nested less than `nestingLimit` deep.
-/

namespace ContractForge.Toml

/-- The depth of nesting, and the number of parts of a key, that is too much. -/
def nestingLimit : Nat := 80

/-! ## Keys -/

/-- The character may stand in a key without quotes. -/
def isKeyChar (c : Char) : Bool :=
  c.isAlphanum || c = '-' || c = '_'

/-- One part of a key. -/
def takeKeyPart? (s : List Char) : Option (String × List Char) :=
  match s with
  | c :: _ =>
    if c = '"' || c = '\'' then takeSimpleString? s
    else
      let word := s.takeWhile isKeyChar
      if word.isEmpty then none else some (String.ofList word, s.drop word.length)
  | [] => none

/-- The parts of a dotted key, with blanks around them. -/
def takeKeyParts? : Nat → List Char → Option (List String × List Char)
  | 0, _ => none
  | fuel + 1, s => do
    let (part, s) ← takeKeyPart? (skipBlanks s)
    match skipBlanks s with
    | '.' :: rest =>
      let (parts, s) ← takeKeyParts? fuel rest
      return (part :: parts, s)
    | s => return ([part], s)

/-- A dotted key: the path and the last part. -/
def takeKey? (s : List Char) : Option ((List String × String) × List Char) := do
  let (parts, s) ← takeKeyParts? nestingLimit s
  if nestingLimit ≤ parts.length then none
  return ((parts.dropLast, parts.getLastD ""), s)

/-! ## Values -/

/-- Past blanks, comments and line breaks. -/
def skipLines : Nat → List Char → List Char
  | 0, s => s
  | fuel + 1, s =>
    let s := skipComment (skipBlanks s)
    match takeNewline? s with
    | some rest => skipLines fuel rest
    | none => s

/-- A value that begins with a sign or a digit. -/
def takeNumber? (s : List Char) : Option (Item × List Char) :=
  match takeMoment? s with
  | some rest => some (.moment, rest)
  | none =>
    match takeFloat? s with
    | some rest => some (.float, rest)
    | none => (takeInteger? s).map fun (n, rest) => (.integer n, rest)

/-- A value that holds no other values. -/
def takeScalar? (s : List Char) : Option (Item × List Char) :=
  match s with
  | 't' :: 'r' :: 'u' :: 'e' :: rest => some (.flag true, rest)
  | 'f' :: 'a' :: 'l' :: 's' :: 'e' :: rest => some (.flag false, rest)
  | 'i' :: 'n' :: 'f' :: rest => some (.float, rest)
  | 'n' :: 'a' :: 'n' :: rest => some (.float, rest)
  | c :: _ =>
    if c = '"' || c = '\'' then (takeString? s).map fun (text, rest) => (.text text, rest)
    else if c = '+' || c = '-' || c.isDigit then takeNumber? s
    else none
  | [] => none

mutual

/-- A value, `depth` arrays and tables inside others. -/
def takeValue? (depth : Nat) : Nat → List Char → Option (Item × List Char)
  | 0, _ => none
  | fuel + 1, s =>
    match s with
    | '[' :: rest =>
      if nestingLimit ≤ depth + 1 then none
      else (takeItems? (depth + 1) fuel rest).map fun (items, s) => (.array items, s)
    | '{' :: rest =>
      if nestingLimit ≤ depth + 1 then none
      else
        match skipBlanks rest with
        | '}' :: rest => some (.table { isInline := true } [], rest)
        | _ =>
          (takeInline? (depth + 1) fuel { origin := { isInline := true } } rest).map
            fun (table, s) => (table.toItem, s)
    | _ => takeScalar? s

/-- The items of an array up to its closing bracket. -/
def takeItems? (depth : Nat) : Nat → List Char → Option (List Item × List Char)
  | 0, _ => none
  | fuel + 1, s =>
    match skipLines s.length s with
    | ']' :: rest => some ([], rest)
    | s => do
      let (item, s) ← takeValue? depth fuel s
      match skipLines s.length s with
      | ',' :: rest =>
        let (items, s) ← takeItems? depth fuel rest
        return (item :: items, s)
      | ']' :: rest => return ([item], rest)
      | _ => none

/-- The entries of an inline table, at least one, up to its closing brace. -/
def takeInline? (depth : Nat) : Nat → Table → List Char → Option (Table × List Char)
  | 0, _, _ => none
  | fuel + 1, table, s => do
    let ((path, key), s) ← takeKey? s
    let s ← takeChar? '=' s
    let (item, s) ← takeValue? depth fuel (skipBlanks s)
    let table ← Table.insertAt? true path key item table
    match skipBlanks s with
    | ',' :: rest => takeInline? depth fuel table rest
    | '}' :: rest => return (table, rest)
    | _ => none

end

/-! ## Lines -/

/-- The rest of a line: blanks, perhaps a comment, and a line break or the end. -/
def takeLineEnd? (s : List Char) : Option (List Char) :=
  match skipComment (skipBlanks s) with
  | [] => some []
  | s => takeNewline? s

/-- What has been read of a document. -/
structure Draft where
  root : Table := {}
  /-- The table that entries go into at present. -/
  current : Table := {}
  /-- The place of the current table; it is the root itself where there is none. -/
  place : Option (List String × String) := none
  /-- The current table belongs to an array of tables. -/
  isElement : Bool := false

namespace Draft

/-- The root with the current table in its place. -/
def settle? (d : Draft) : Option Table :=
  match d.place with
  | none => some d.current
  | some (path, key) =>
    if d.isElement then Table.append? path key d.current d.root
    else Table.close? path key d.current d.root

/-- A header begins a table. -/
def openTable? (d : Draft) (path : List String) (key : String) : Option Draft := do
  let (root, current) ← Table.open? path key (← d.settle?)
  return { root, current, place := some (path, key) }

/-- A header begins an element of an array of tables. -/
def openElement? (d : Draft) (path : List String) (key : String) : Option Draft := do
  let root ← Table.checkArray? path key (← d.settle?)
  return { root, place := some (path, key), isElement := true }

/-- Reads a header, of which the first bracket is next. -/
def header? (d : Draft) (s : List Char) : Option (Draft × List Char) := do
  match s with
  | '[' :: '[' :: rest =>
    let ((path, key), s) ← takeKey? rest
    let s ← takeLineEnd? (← takeChar? ']' (← takeChar? ']' s))
    return (← d.openElement? path key, s)
  | _ =>
    let ((path, key), s) ← takeKey? (s.drop 1)
    let s ← takeLineEnd? (← takeChar? ']' s)
    return (← d.openTable? path key, s)

/-- Reads an entry. -/
def entry? (d : Draft) (s : List Char) : Option (Draft × List Char) := do
  let ((path, key), s) ← takeKey? s
  let s ← takeChar? '=' s
  let (item, s) ← takeValue? 0 (s.length + 1) (skipBlanks s)
  let s ← takeLineEnd? s
  return ({ d with current := ← Table.insertAt? false path key item d.current }, s)

/-- Reads lines up to the end of the text. -/
def lines? : Nat → Draft → List Char → Option Draft
  | 0, _, _ => none
  | fuel + 1, d, s =>
    match skipBlanks s with
    | [] => some d
    | '#' :: rest => do lines? fuel d (← takeLineEnd? ('#' :: rest))
    | '[' :: rest => do
      let (d, s) ← d.header? ('[' :: rest)
      lines? fuel d s
    | s =>
      match takeNewline? s with
      | some rest => lines? fuel d rest
      | none => do
        let (d, s) ← d.entry? s
        lines? fuel d s

end Draft

/-- The root table of a text, which may begin with a byte order mark. -/
def parse? (text : String) : Option Table := do
  let s :=
    match text.toList with
    | '\ufeff' :: rest => rest
    | s => s
  (← Draft.lines? (s.length + 1) {} s).settle?

end ContractForge.Toml
