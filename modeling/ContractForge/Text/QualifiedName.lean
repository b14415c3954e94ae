import ContractForge.Text.Split

/-!
# Qualified names

A qualified name is a namespace and a simple name joined by a dot; in the root namespace, which is
the empty text, it is the simple name alone.

* `QualifiedName.split` : namespace and simple name, cut at the last dot.
* `qualify` : the qualified name of a simple name in a namespace.
* `namespacePath` : a namespace as a path, with slashes for dots; `pathNamespace` goes back.
-/

namespace ContractForge

/-- Namespace and simple name of a qualified name, cut at the last dot. -/
def QualifiedName.split (name : String) : String × String :=
  match Text.splitLast? '.' name.toList with
  | some (space, simple) => (String.ofList space, String.ofList simple)
  | none => ("", name)

/-- The qualified name of a simple name; in the root namespace no dot is written. -/
def qualify (space simple : String) : String :=
  if space.isEmpty then simple else space ++ "." ++ simple

/-- A text with every `a` replaced by `b`. -/
def Text.substitute (a b : Char) (s : String) : String :=
  String.ofList (s.toList.map fun c => if c = a then b else c)

/-- A dotted namespace as a slash-separated path. -/
def namespacePath (space : String) : String :=
  Text.substitute '.' '/' space

/-- A slash-separated path as a dotted namespace. -/
def pathNamespace (path : String) : String :=
  Text.substitute '/' '.' path

theorem dot_not_mem_namespacePath (space : String) : '.' ∉ (namespacePath space).toList := by
  rw [namespacePath, Text.substitute, String.toList_ofList]
  intro hmem
  obtain ⟨c, -, hc⟩ := List.mem_map.mp hmem
  split at hc
  next => cases hc
  next hne => exact hne hc

/-- A name without a dot is a simple name of the root namespace. -/
theorem QualifiedName.split_of_not_mem {name : String} (h : '.' ∉ name.toList) :
    QualifiedName.split name = ("", name) := by
  simp [QualifiedName.split, Text.splitLast?_eq_none_iff.2 h]

/-- A qualified name is cut at its last dot. -/
theorem split_qualify {simple : String} (h : '.' ∉ simple.toList) (space : String) :
    QualifiedName.split (qualify space simple) = (space, simple) := by
  by_cases hspace : space = ""
  · subst hspace
    exact QualifiedName.split_of_not_mem h
  · have hcut : Text.splitLast? '.' (qualify space simple).toList = some (space.toList, simple.toList) := by
      refine Text.splitLast?_eq_some_iff.mpr ⟨?_, h⟩
      rw [qualify, if_neg (by simpa using hspace)]
      simp
    simp only [QualifiedName.split, hcut, String.ofList_toList]

theorem qualify_eq_iff {space space' simple simple' : String} (h : '.' ∉ simple.toList)
    (h' : '.' ∉ simple'.toList) :
    qualify space simple = qualify space' simple' ↔ space = space' ∧ simple = simple' := by
  constructor
  · intro heq
    have hsplit := congrArg QualifiedName.split heq
    rw [split_qualify h, split_qualify h'] at hsplit
    exact Prod.mk.inj hsplit
  · rintro ⟨rfl, rfl⟩
    rfl

end ContractForge
