import ContractForge.Declaration.Basic

/-!
# Classes and their source text

* `Java.Class`, `Java.Field`, `Java.Method` : a class with its interfaces, fields, static block and
  methods. Generators build these; only this module knows how they are laid out.
* `Java.Method.overriding` : the public method that implements a method of a contract.
* `Java.Class.render` : the source text. Fields come first, then the static block if it has lines,
  then the methods; every member after the fields is set off by an empty line.
-/

namespace ContractForge.Java

/-- A field, with a declaration that lacks only its semicolon. -/
structure Field where
  declaration : String
  annotations : List String := []

/-- A method or constructor, with its signature and body lines as text. -/
structure Method where
  signature : String
  annotations : List String := []
  body : List String := []

/-- A top-level class. -/
structure Class where
  package : String
  name : String
  implements : List String := []
  fields : List Field := []
  staticInit : List String := []
  methods : List Method := []

/-- The public method that implements a contract method. -/
def Method.overriding (m : ContractForge.Method) (body : List String) : Method where
  signature :=
    "public " ++ m.returns.sourceName ++ " " ++ m.name ++ "(" ++
      ", ".intercalate (m.params.map fun p => p.type.sourceName ++ " " ++ p.name) ++ ")"
  annotations := ["Override"]
  body

/-- The step by which nested lines are set in. -/
def indent (line : String) : String :=
  "    " ++ line

/-- An annotation on a line of its own. -/
def annotationLine (name : String) : String :=
  "@" ++ name

/-- A brace-delimited block under its head. -/
def block (head : String) (body : List String) : List String :=
  (head ++ " \x7b") :: body.map indent ++ ["\x7d"]

/-- The lines of a field. -/
def Field.lines (f : Field) : List String :=
  f.annotations.map annotationLine ++ [f.declaration ++ ";"]

/-- The lines of a method. -/
def Method.lines (m : Method) : List String :=
  m.annotations.map annotationLine ++ block m.signature m.body

namespace Class

/-- The static block, when there is anything in it, and the methods, each as its lines. -/
def members (c : Class) : List (List String) :=
  (if c.staticInit.isEmpty then [] else [block "static" c.staticInit]) ++ c.methods.map (·.lines)

/-- The lines before the first member: package, remark and the head of the class. -/
def headLines (c : Class) : List String :=
  (if c.package.isEmpty then [] else ["package " ++ c.package ++ ";", ""]) ++
    ["// Generated by contractgen. Do not edit.",
     "public class " ++ c.name ++
       (if c.implements.isEmpty then "" else " implements " ++ ", ".intercalate c.implements) ++
       " \x7b"]

/-- A line inside the class; an empty line is not set in. -/
def memberLine (line : String) : String :=
  if line.isEmpty then "" else indent line

/-- The class line by line. -/
def lines (c : Class) : List String :=
  c.headLines ++ (c.fields.flatMap (·.lines)).map indent ++
    c.members.flatMap (fun m => "" :: m.map memberLine) ++ ["\x7d"]

/-- The source text of a class, every line ended by a line feed. -/
def render (c : Class) : String :=
  String.join (c.lines.map (· ++ "\n"))

end Class
end ContractForge.Java
