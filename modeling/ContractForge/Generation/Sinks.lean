import ContractForge.Generation.Pass

/-!
# Sinks

* `MemorySink` : keeps the artifacts in the order in which they are written. `get?` looks a name up.
* `FileSink` : writes every artifact into a file below a root, at `pathFor` its name, and makes the
  directories that the file needs.
-/

namespace ContractForge

/-- Names and contents, in the order in which they were written. -/
structure MemorySink where
  artifacts : List (String × String) := []

namespace MemorySink

/-- The content first written under a name. -/
def get? (s : MemorySink) (name : String) : Option String :=
  (s.artifacts.find? (·.1 == name)).map (·.2)

def names (s : MemorySink) : List String :=
  s.artifacts.map (·.1)

/-- Writing in memory never fails. -/
def sink : Sink MemorySink where
  write s name a := (.ok (), { s with artifacts := s.artifacts ++ [(name, a.content)] })

end MemorySink

/-- A root directory and the extension of the files below it. -/
structure FileSink where
  root : String
  extension : String := "java"

namespace FileSink

/-- The file for a qualified name: a directory for each part of the namespace. -/
def pathFor (s : FileSink) (name : String) : String :=
  Path.join s.root (namespacePath name ++ "." ++ s.extension)

/-- Makes the directory that a file lies in. -/
def makeParent (t : FileTree) (path : String) : Except GenerationError Unit × FileTree :=
  match Path.parent? path with
  | none => (.ok (), t)
  | some dir =>
    match t.makeDirectories dir with
    | (.ok (), t) => (.ok (), t)
    | (.error fault, t) => (.error (.io dir fault), t)

/-- Writes one artifact into its file, after making the directory for it. -/
def write (s : FileSink) (t : FileTree) (name : String) (a : Artifact) :
    Except GenerationError Unit × FileTree :=
  let path := s.pathFor name
  match makeParent t path with
  | (.error e, t) => (.error e, t)
  | (.ok (), t) =>
    match t.write path a.content.toUTF8 with
    | .ok t => (.ok (), t)
    | .error fault => (.error (.io path fault), t)

/-- The sink on a file tree. -/
def sink (s : FileSink) : Sink FileTree where
  write := s.write

end FileSink
end ContractForge
