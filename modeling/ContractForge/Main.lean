import ContractForge.CommandLine.Footprint

/-!
# The program

`main` copies what a run looks at into a file tree, carries out the run there, and puts what is new
in the tree back onto the disk.
-/

namespace ContractForge.CommandLine

/-- Adds the entry at a path, when the directory it lies in is in the tree. -/
def addEntry (t : FileTree) (path : String) : IO FileTree := do
  match t.locate path with
  | .error _ | .ok [] => return t
  | .ok l =>
    let place := (← IO.currentDir) / path
    if ← place.isDir then return t.put l .directory
    match ← (IO.FS.readBinFile path).toBaseIO with
    | .ok content => return t.put l (.file content)
    | .error _ => return t

/-- Adds the entry at a path and the directories above it. -/
def addPath (t : FileTree) (path : String) : IO FileTree :=
  ((Path.ancestors path).reverse.filter (· ≠ "")).foldlM addEntry t

/-- The paths in a directory; none where there is no directory. -/
def pathsIn (directory : String) : IO (List String) := do
  let place := (← IO.currentDir) / directory
  match ← place.readDir.toBaseIO with
  | .ok found => return found.toList.map fun e => Path.join directory e.fileName
  | .error _ => return []

/-- Adds a directory with everything below it, at most `depth` levels. -/
def addBelow : Nat → FileTree → String → IO FileTree
  | 0, t, _ => return t
  | depth + 1, t, path => do
    let t ← addPath t path
    (← pathsIn path).foldlM (addBelow depth) t

/-- Adds a place of the disk. -/
def addPlace (t : FileTree) : Place → IO FileTree
  | .entry path => addPath t path
  | .listing directory => do
    (← pathsIn directory).foldlM addEntry (← addPath t directory)
  | .below directory => addBelow FileTree.pathLimit t directory

/-- The tree that holds the working directory alone. -/
def emptyTree : IO FileTree := do
  let workingDir := (← IO.currentDir).toString
  let start := (FileTree.components workingDir).filter (· ≠ "")
  addPath { workingDir := start } workingDir

/-- Puts an entry onto the disk. -/
def store (l : Location) (e : Entry) : IO Unit := do
  let path := "/" ++ "/".intercalate l
  match e with
  | .directory => IO.FS.createDirAll path
  | .file content => IO.FS.writeBinFile path content

/-- The tree with everything that the arguments make a run look at. -/
def treeFor (args : List String) : IO FileTree := do
  let t ← emptyTree
  match Request.parse args with
  | .error _ => return t
  | .ok request =>
    let t ← (inputs request).foldlM addPlace t
    (searched t request).foldlM addPlace t

end ContractForge.CommandLine

open ContractForge.CommandLine

def main (args : List String) : IO UInt32 := do
  let before ← treeFor args
  let outcome := run before args
  for (l, e) in changes before outcome.files do
    store l e
  IO.print outcome.output
  if let some report := outcome.report then
    IO.eprintln report
  return outcome.exitCode.toUInt32
