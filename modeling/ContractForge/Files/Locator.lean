import ContractForge.Config
import ContractForge.Files.Tree

/-!
# Locating resources

A locator finds the file for a logical path. It starts from a directory and tries, there and in
every directory above it, the path itself, the path below the sources of the configured language and
the path below the resource sources.

* `Locator.candidates` : the files it tries, in order.
* `Locator.resolve` : the first of them that is a regular file.
-/

namespace ContractForge

/-- Where a search starts, and the language whose sources it looks into. -/
structure Locator where
  root : String
  language : String

namespace Locator

/-- The locator that starts from a path, which may be relative. -/
def start (t : FileTree) (root : String) (config : Config) : Locator where
  root := Path.absolute ("/" ++ "/".intercalate t.workingDir) root
  language := config.sourceLanguage

/-- The places below a directory at which a path may be found. -/
def layers (l : Locator) : List String :=
  ["", Path.join "src/main" l.language, "src/main/resources"]

/-- A logical path without the slashes it begins with. -/
def relative (path : String) : String :=
  String.ofList (path.toList.dropWhile (· = '/'))

/-- The files that are tried for a logical path, nearer directories first. -/
def candidates (l : Locator) (path : String) : List String :=
  if relative path = "" then []
  else
    (Path.ancestors l.root).flatMap fun dir =>
      l.layers.map fun layer => Path.join (Path.join dir layer) (relative path)

/-- The first candidate that is a regular file. -/
def resolve (l : Locator) (t : FileTree) (path : String) : Option String :=
  (l.candidates path).find? t.isFile

end Locator
end ContractForge
