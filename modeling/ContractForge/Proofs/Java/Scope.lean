import ContractForge.Java.Class

/-!
# Names in the body of a method

In the body of a method, a parameter hides the fields, packages and classes of its name.

* `Part` : a part of a body line, by the names in it: one that is meant for something outside of the
  method, one of a parameter, or none.
* `Draft` : a method whose body is known by its parts. `Draft.method` is the method in source text;
  `Draft.overriding` is that of a method which implements a declared one.
* `Draft.AsMeant` : no parameter has the name with which an expression begins that is meant for a field,
  a package or a class.
-/

namespace ContractForge.Java

/-- A part of a line. -/
inductive Part where
  /-- Text in which no such name stands: keywords, literals, punctuation, and the names of types,
  methods, members and local variables. -/
  | text (s : String)
  /-- A name, with dots or without, that begins an expression and is meant for a field, or for a class
  in its package. -/
  | own (name : String)
  /-- The name of a parameter. -/
  | argument (name : String)
  deriving DecidableEq

namespace Part

def source : Part → String
  | text s => s
  | own name => name
  | argument name => name

def own? : Part → Option String
  | own name => some name
  | _ => none

def argument? : Part → Option String
  | argument name => some name
  | _ => none

end Part

/-- The names in some lines that are meant for something outside of the method. -/
def ownNames (lines : List (List Part)) : List String :=
  lines.flatMap fun line => line.filterMap Part.own?

/-- The names in some lines that are meant for parameters. -/
def argumentNames (lines : List (List Part)) : List String :=
  lines.flatMap fun line => line.filterMap Part.argument?

@[simp] theorem ownNames_nil : ownNames [] = [] := rfl

@[simp] theorem ownNames_cons (line : List Part) (lines : List (List Part)) :
    ownNames (line :: lines) = line.filterMap Part.own? ++ ownNames lines :=
  List.flatMap_cons

@[simp] theorem ownNames_append (lines more : List (List Part)) :
    ownNames (lines ++ more) = ownNames lines ++ ownNames more :=
  List.flatMap_append

@[simp] theorem argumentNames_nil : argumentNames [] = [] := rfl

@[simp] theorem argumentNames_cons (line : List Part) (lines : List (List Part)) :
    argumentNames (line :: lines) = line.filterMap Part.argument? ++ argumentNames lines :=
  List.flatMap_cons

@[simp] theorem argumentNames_append (lines more : List (List Part)) :
    argumentNames (lines ++ more) = argumentNames lines ++ argumentNames more :=
  List.flatMap_append

/-- The source text of a line. -/
def lineSource (line : List Part) : String :=
  String.join (line.map Part.source)

@[simp] theorem lineSource_nil : lineSource [] = "" := rfl

@[simp] theorem lineSource_cons (part : Part) (line : List Part) :
    lineSource (part :: line) = part.source ++ lineSource line := by
  rw [lineSource, List.map_cons, String.join_cons, lineSource]

@[simp] theorem lineSource_append (line more : List Part) :
    lineSource (line ++ more) = lineSource line ++ lineSource more := by
  rw [lineSource, List.map_append, String.join_append, lineSource, lineSource]

/-- A parameter with its type in source text. -/
structure DraftParameter where
  type : String
  name : String

/-- A method whose body is known by its parts. -/
structure Draft where
  annotations : List String
  /-- The signature before the parameters. -/
  head : String
  params : List DraftParameter
  body : List (List Part)
  /-- What is written as a parameter is one. -/
  passed : argumentNames body ⊆ params.map (·.name)

namespace Draft

/-- The method in source text. -/
def method (d : Draft) : Method where
  signature := d.head ++ "(" ++ ", ".intercalate (d.params.map fun p => p.type ++ " " ++ p.name) ++ ")"
  annotations := d.annotations
  body := d.body.map lineSource

end Draft

/-- The part of a name before its first dot. -/
def firstPart (name : String) : String :=
  String.ofList (name.toList.takeWhile (· ≠ '.'))

/-- What is meant for something outside of the method is not hidden by a parameter. -/
def Draft.AsMeant (d : Draft) : Prop :=
  ∀ name ∈ ownNames d.body, firstPart name ∉ d.params.map (·.name)

instance (d : Draft) : Decidable d.AsMeant :=
  inferInstanceAs (Decidable (∀ name ∈ ownNames d.body, firstPart name ∉ d.params.map (·.name)))

/-! ### Methods that implement declared ones -/

/-- A method that implements a declared one. -/
def Draft.overriding (m : ContractForge.Method) (body : List (List Part))
    (h : argumentNames body ⊆ m.params.map (·.name)) : Draft where
  annotations := ["Override"]
  head := "public " ++ m.returns.sourceName ++ " " ++ m.name
  params := m.params.map fun p => ⟨p.type.sourceName, p.name⟩
  body
  passed := by simpa only [List.map_map, Function.comp_def] using h

theorem Draft.method_overriding {m : ContractForge.Method} {body : List (List Part)}
    (h : argumentNames body ⊆ m.params.map (·.name)) :
    (Draft.overriding m body h).method = .overriding m (body.map lineSource) := by
  simp only [Draft.method, Draft.overriding, Method.overriding, List.map_map, Function.comp_def]

theorem Draft.asMeant_overriding_iff {m : ContractForge.Method} {body : List (List Part)}
    (h : argumentNames body ⊆ m.params.map (·.name)) :
    (Draft.overriding m body h).AsMeant ↔
      ∀ p ∈ m.params, ∀ name ∈ ownNames body, p.name ≠ firstPart name := by
  simp only [Draft.AsMeant, Draft.overriding, List.map_map, List.mem_map, Function.comp_apply,
    not_exists, not_and]
  exact ⟨fun hfree p hp name hname => hfree name hname p hp,
    fun hfree name hname p hp => hfree p hp name hname⟩

end ContractForge.Java
