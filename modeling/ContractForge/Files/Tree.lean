import ContractForge.Files.Path

/-!
# File trees

A file tree is a value: the files and directories at their locations, and the working directory that
relative paths start from. The root is always a directory.

* `FileTree.find?` : what stands at a location. This is the view by which the operations are known.
* `FileTree.locate` : the location a path leads to. Every component but the last must be a
  directory, `..` goes to the directory above, and a slash at the end asks for a directory.
* `isFile`, `isDirectory`, `read`, `readText`, `list` : look at the tree.
* `makeDirectory`, `makeDirectories`, `write`, `remove` : change it.

`FileFault.message` words the failures as the operating system does.
-/

namespace ContractForge

/-- Why a file operation fails. -/
inductive FileFault where
  | notFound
  | alreadyExists
  | notDirectory
  | isDirectory
  | nameTooLong
  | nulInPath
  | notUtf8
  deriving DecidableEq

def FileFault.message : FileFault → String
  | notFound => "No such file or directory (os error 2)"
  | alreadyExists => "File exists (os error 17)"
  | notDirectory => "Not a directory (os error 20)"
  | isDirectory => "Is a directory (os error 21)"
  | nameTooLong => "File name too long (os error 36)"
  | nulInPath => "file name contained an unexpected NUL byte"
  | notUtf8 => "stream did not contain valid UTF-8"

/-- What stands at a location. -/
inductive Entry where
  | file (content : ByteArray)
  | directory

/-- The names that lead from the root to a place in the tree. -/
abbrev Location := List String

/-- Files and directories at their locations; only the first entry of a location counts. -/
structure FileTree where
  workingDir : Location := []
  entries : List (Location × Entry) := []

namespace FileTree

/-- The entry at a location. -/
def find? (t : FileTree) (l : Location) : Option Entry :=
  if l = [] then some .directory else (t.entries.find? (·.1 == l)).map (·.2)

/-- A list of entries with one entry put in its place, or at the end if its location is new. -/
def insertEntry (l : Location) (e : Entry) : List (Location × Entry) → List (Location × Entry)
  | [] => [(l, e)]
  | x :: xs => if x.1 = l then (l, e) :: xs else x :: insertEntry l e xs

theorem find?_insertEntry (l : Location) (e : Entry) (es : List (Location × Entry))
    (l' : Location) :
    (insertEntry l e es).find? (·.1 == l') =
      if l' = l then some (l, e) else es.find? (·.1 == l') := by
  induction es with
  | nil => grind [insertEntry]
  | cons x xs ih => grind [insertEntry]

/-- The tree with an entry at a location, in place of what was there. -/
def put (t : FileTree) (l : Location) (e : Entry) : FileTree :=
  { t with entries := insertEntry l e t.entries }

theorem find?_put (t : FileTree) {l : Location} (h : l ≠ []) (e : Entry) (l' : Location) :
    (t.put l e).find? l' = if l' = l then some e else t.find? l' := by
  simp only [find?, put, find?_insertEntry]
  grind

/-- The longest name that a directory can hold, in bytes. -/
def longestName : Nat := 255

/-- The length from which a whole path is refused, in bytes. -/
def pathLimit : Nat := 4096

/-- One component further from a location, which must be a directory. -/
def step (t : FileTree) (l : Location) (name : String) : Except FileFault Location :=
  match t.find? l with
  | none => .error .notFound
  | some (.file _) => .error .notDirectory
  | some .directory =>
    if name = "" || name = "." then .ok l
    else if name = ".." then .ok l.dropLast
    else if longestName < name.utf8ByteSize then .error .nameTooLong
    else .ok (l ++ [name])

/-- The components of a path, as names. -/
def components (path : String) : List String :=
  (Text.segments '/' path.toList).map String.ofList

/-- The location from which a path is followed. -/
def start (t : FileTree) (path : String) : Location :=
  if path.toList.head? = some '/' then [] else t.workingDir

/-- Refuses a path that no file operation accepts. -/
def checkPath (path : String) : Except FileFault Unit :=
  if path.toList.contains '\x00' then .error .nulInPath
  else if path.isEmpty then .error .notFound
  else if pathLimit ≤ path.utf8ByteSize then .error .nameTooLong
  else .ok ()

/-- The location a path leads to, whether or not anything stands there. -/
def locate (t : FileTree) (path : String) : Except FileFault Location := do
  checkPath path
  (components path).foldlM t.step (t.start path)

/-- The entry a path leads to. -/
def lookup (t : FileTree) (path : String) : Except FileFault Entry := do
  let l ← t.locate path
  match t.find? l with
  | some e => .ok e
  | none => .error .notFound

/-- The path leads to a regular file. -/
def isFile (t : FileTree) (path : String) : Bool :=
  match t.lookup path with
  | .ok (.file _) => true
  | _ => false

/-- The path leads to a directory. -/
def isDirectory (t : FileTree) (path : String) : Bool :=
  match t.lookup path with
  | .ok .directory => true
  | _ => false

/-- The content of a file. -/
def read (t : FileTree) (path : String) : Except FileFault ByteArray := do
  match ← t.lookup path with
  | .file content => .ok content
  | .directory => .error .isDirectory

/-- The content of a file as text. -/
def readText (t : FileTree) (path : String) : Except FileFault String := do
  match String.fromUTF8? (← t.read path) with
  | some text => .ok text
  | none => .error .notUtf8

/-- The names in the directory at a location. -/
def namesIn (t : FileTree) (l : Location) : List String :=
  t.entries.filterMap fun (place, _) => if place.dropLast = l then place.getLast? else none

/-- The names in a directory, in no particular order. -/
def list (t : FileTree) (path : String) : Except FileFault (List String) := do
  let l ← t.locate path
  match t.find? l with
  | some .directory => .ok (t.namesIn l)
  | some (.file _) => .error .notDirectory
  | none => .error .notFound

/-- The components of a path without the empty ones at its end. -/
def properComponents (path : String) : List String :=
  ((components path).reverse.dropWhile (· == "")).reverse

/-- The directory in which a path would put something new: the one that the components before the
last lead to. -/
def container (t : FileTree) (path : String) : Except FileFault Location := do
  checkPath path
  let l ← (properComponents path).dropLast.foldlM t.step (t.start path)
  t.step l ""

/-- The last component of a path, without the slashes after it. -/
def lastComponent (path : String) : String :=
  (properComponents path).getLastD ""

/-- The last component is a name of its own, and not `.`, `..` or the root. -/
def endsInName (path : String) : Bool :=
  lastComponent path ∉ ["", ".", ".."]

/-- Makes one directory. -/
def makeDirectory (t : FileTree) (path : String) : Except FileFault FileTree := do
  let above ← t.container path
  let l ← t.step above (lastComponent path)
  if endsInName path && (t.find? l).isNone then .ok (t.put l .directory)
  else .error .alreadyExists

/-- Makes one directory unless it is there already. -/
def ensureDirectory (t : FileTree) (path : String) : Except FileFault Unit × FileTree :=
  match t.makeDirectory path with
  | .ok t => (.ok (), t)
  | .error fault => (if t.isDirectory path then .ok () else .error fault, t)

/-- Makes the first directory of a list in which each is followed by the one it lies in. Those it
lies in are made first where they are missing, and stay when a later one fails. -/
def makeAlong (t : FileTree) : List String → Except FileFault Unit × FileTree
  | [] => (.ok (), t)
  | path :: above =>
    match t.makeDirectory path with
    | .error .notFound =>
      match t.makeAlong above with
      | (.ok (), t) => t.ensureDirectory path
      | failed => failed
    | _ => t.ensureDirectory path

/-- Makes a directory and those above it that are missing. -/
def makeDirectories (t : FileTree) (path : String) : Except FileFault Unit × FileTree :=
  t.makeAlong ((Path.ancestors path).filter (· ≠ ""))

/-- Writes a file, in place of the file that was there. Its directory must exist. -/
def write (t : FileTree) (path : String) (content : ByteArray) : Except FileFault FileTree := do
  let above ← t.container path
  if !endsInName path || path.toList.getLast? = some '/' then .error .isDirectory
  else do
    let l ← t.step above (lastComponent path)
    match t.find? l with
    | some .directory => .error .isDirectory
    | _ => .ok (t.put l (.file content))

/-- Removes a file, or a directory with everything below it. -/
def remove (t : FileTree) (path : String) : Except FileFault FileTree := do
  let l ← t.locate path
  match t.find? l with
  | none => .error .notFound
  | some _ => .ok { t with entries := t.entries.filter fun (place, _) => !l.isPrefixOf place }

/-- The files below a location, each with the names that lead to it from there. -/
def filesBelow (t : FileTree) (l : Location) : List (List String × ByteArray) :=
  t.entries.filterMap fun (place, e) =>
    match e with
    | .file content => if l.isPrefixOf place then some (place.drop l.length, content) else none
    | .directory => none

end FileTree
end ContractForge
