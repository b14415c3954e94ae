import ContractForge.Text.Split

/-!
# Paths as text

Nothing here looks at a file system: these functions only rearrange the slash-separated segments of
a path.

* `Path.join` : one path after another; an absolute second path stands alone.
* `Path.parent?`, `Path.fileName` : all but the last component, and the last component. Repeated and
  trailing slashes and `.` segments are no components; `..` is one.
* `Path.absolute` : a path from the working directory, freed of `.` segments and repeated slashes.
* `Path.normalize` : a logical path with its `.` and `..` segments resolved.
-/

namespace ContractForge.Path

open Text (segments joinSegments)

/-- The segment names no component: it is empty or a dot. -/
def isVoid (segment : List Char) : Bool :=
  segment = [] || segment = ['.']

/-- One path after another, with a slash between them unless there is one already. -/
def join (a b : String) : String :=
  if b.toList.head? = some '/' || a.isEmpty then b
  else if a.toList.getLast? = some '/' then a ++ b
  else a ++ "/" ++ b

/-- Segments without the void ones at their end. -/
def dropVoidEnd (parts : List (List Char)) : List (List Char) :=
  (parts.reverse.dropWhile isVoid).reverse

/-- A path in two: the part that marks where it starts (a slash for an absolute path, a dot for one
that begins with `./`) and the segments after it. -/
def anchor (path : List Char) : List Char × List (List Char) :=
  match path with
  | '/' :: rest => (['/'], segments '/' rest)
  | _ =>
    match segments '/' path with
    | ['.'] :: rest => (['.'], rest)
    | parts => ([], parts)

/-- An anchored path put back together. -/
def unanchor (start : List Char) (parts : List (List Char)) : List Char :=
  if start = ['.'] && !parts.isEmpty then '.' :: '/' :: joinSegments '/' parts
  else start ++ joinSegments '/' parts

/-- The path without its last component; a path without components has no parent. -/
def parent? (path : String) : Option String :=
  let (start, parts) := anchor path.toList
  match (dropVoidEnd parts).reverse with
  | [] => if start = ['.'] then some "" else none
  | _ :: before => some (String.ofList (unanchor start (dropVoidEnd before.reverse)))

/-- The last component, or nothing for a path without components. -/
def fileName (path : String) : String :=
  String.ofList ((dropVoidEnd (anchor path.toList).2).getLast?.getD [])

/-- The path and what is left of it by taking parents, the whole path first. -/
def ancestors (path : String) : List String :=
  go (path.length + 1) path
where
  /-- At most `n` steps up. -/
  go : Nat → String → List String
    | 0, _ => []
    | n + 1, p =>
      p :: match parent? p with
        | some q => go n q
        | none => []

/-- A path from the working directory on, without `.` segments and repeated slashes. A slash at the
end and two slashes at the start are kept, and the empty path stays empty. -/
def absolute (workingDir path : String) : String :=
  let chars := path.toList
  let parts := (segments '/' chars).filter fun s => !isVoid s
  let relative := joinSegments '/' parts
  let start : List Char :=
    match chars with
    | '/' :: '/' :: '/' :: _ => ['/']
    | '/' :: '/' :: _ => ['/', '/']
    | '/' :: _ => ['/']
    | _ => if parts.isEmpty then workingDir.toList else (join workingDir "").toList
  let full := start ++ relative
  if chars.isEmpty then ""
  else if chars.getLast? = some '/' && full.getLast? ≠ some '/' then String.ofList (full ++ ['/'])
  else String.ofList full

/-- The segments kept so far, latest first, after one more: `.` changes nothing and `..` takes the
latest away. -/
def reduceStep (kept : List (List Char)) (segment : List Char) : List (List Char) :=
  if segment = ['.'] then kept
  else if segment = ['.', '.'] then kept.tail
  else segment :: kept

/-- The segments that remain when `.` and `..` are resolved from left to right. -/
def reduce (parts : List (List Char)) : List (List Char) :=
  (parts.foldl reduceStep []).reverse

/-- A logical path with its `.` and `..` segments resolved; other segments, empty ones included,
stay as they are. -/
def normalizeChars (path : List Char) : List Char :=
  joinSegments '/' (reduce (segments '/' path))

/-- A logical path with its `.` and `..` segments resolved. -/
def normalize (path : String) : String :=
  String.ofList (normalizeChars path.toList)

end ContractForge.Path
