import ContractForge.Declaration.Basic
import ContractForge.Java.Class
import ContractForge.Proofs.Text.Segments
import ContractForge.Text.Hex

/-!
# Legal names

* `Alphabet` : what counts as a letter or as a digit beyond ASCII. Nothing here depends on it.
* `Alphabet.isIdentifier`, `Alphabet.isQualified` : an identifier, and identifiers joined by dots.
* `Alphabet.LegalHead` : the lines of a class that name its package, the class and its interfaces are
  well formed.

The two parts of a qualified name are legal (`isNamespace_space`, `isIdentifier_simpleName`). A namespace
made from directories is legal exactly if these are identifiers where slashes and dots cut them
(`isQualified_pathNamespace`).
-/

namespace ContractForge.Java

open Text (segments)

/-- The letters and digits beyond ASCII. -/
structure Alphabet where
  foreignLetter : Char → Bool
  foreignDigit : Char → Bool

namespace Alphabet

def isLetter (A : Alphabet) (c : Char) : Bool :=
  c.isAlpha || (0x80 ≤ c.toNat && A.foreignLetter c)

def isDigit (A : Alphabet) (c : Char) : Bool :=
  c.isDigit || (0x80 ≤ c.toNat && A.foreignDigit c)

/-- The character may begin an identifier. -/
def isStart (A : Alphabet) (c : Char) : Bool :=
  A.isLetter c || c = '_' || c = '$'

/-- The character may stand in an identifier. -/
def isPart (A : Alphabet) (c : Char) : Bool :=
  A.isStart c || A.isDigit c

/-- The characters make up an identifier. -/
def isIdentifier (A : Alphabet) : List Char → Bool
  | [] => false
  | c :: rest => A.isStart c && rest.all A.isPart

/-- The text is a sequence of identifiers with dots between them. -/
def isQualified (A : Alphabet) (name : String) : Bool :=
  (segments '.' name.toList).all A.isIdentifier

/-- The text is the root namespace or a qualified name. -/
def isNamespace (A : Alphabet) (space : String) : Bool :=
  space = "" || A.isQualified space

/-- The package, the name and the interfaces of a class are legal. -/
structure LegalHead (A : Alphabet) (cls : Class) : Prop where
  package : A.isNamespace cls.package = true
  name : A.isIdentifier cls.name.toList = true
  implements : ∀ name ∈ cls.implements, A.isQualified name = true

variable {A : Alphabet}

theorem isPart_of_isStart {c : Char} (h : A.isStart c = true) : A.isPart c = true := by
  rw [isPart, h, Bool.true_or]

theorem isStart_of_isAlpha {c : Char} (h : c.isAlpha = true) : A.isStart c = true := by
  simp only [isStart, isLetter, h, Bool.true_or]

theorem isPart_of_isAlphanum {c : Char} (h : c.isAlphanum = true) : A.isPart c = true := by
  rcases Bool.or_eq_true_iff.mp h with halpha | hdigit
  · exact isPart_of_isStart (isStart_of_isAlpha halpha)
  · simp only [isPart, isDigit, hdigit, Bool.true_or, Bool.or_true]

theorem isPart_hexDigit {n : Nat} (h : n < 16) : A.isPart (Text.hexDigit n) = true := by
  have halphanum : ∀ k < 16, (Text.hexDigit k).isAlphanum = true := by decide
  exact isPart_of_isAlphanum (halphanum n h)

/-- An identifier with more characters is one if these may stand in identifiers. -/
theorem isIdentifier_append {name : List Char} (h : A.isIdentifier name = true) (more : List Char) :
    A.isIdentifier (name ++ more) = more.all A.isPart := by
  cases name with
  | nil => cases h
  | cons c rest =>
    obtain ⟨hstart, hrest⟩ := Bool.and_eq_true_iff.mp h
    rw [List.cons_append, isIdentifier, hstart, List.all_append, hrest, Bool.true_and, Bool.true_and]

/-! ### The parts of a qualified name -/

theorem isNamespace_space {c : Contract} (h : A.isQualified c.name = true) :
    A.isNamespace c.space = true := by
  unfold Contract.space QualifiedName.split
  split
  next space simple hsplit =>
    obtain ⟨hwhole, -⟩ := Text.splitLast?_eq_some_iff.mp hsplit
    rw [isQualified, hwhole, Text.segments_append_sep, List.all_append, Bool.and_eq_true] at h
    rw [isNamespace, isQualified, String.toList_ofList, h.1, Bool.or_true]
  next => rfl

theorem isIdentifier_simpleName {c : Contract} (h : A.isQualified c.name = true) :
    A.isIdentifier c.simpleName.toList = true := by
  unfold Contract.simpleName QualifiedName.split
  split
  next space simple hsplit =>
    obtain ⟨hwhole, hfree⟩ := Text.splitLast?_eq_some_iff.mp hsplit
    rw [isQualified, hwhole, Text.segments_append_sep, Text.segments_of_not_mem hfree,
      List.all_append, Bool.and_eq_true] at h
    simpa using h.2
  next hsplit =>
    have hfree := Text.splitLast?_eq_none_iff.mp hsplit
    rw [isQualified, Text.segments_of_not_mem hfree] at h
    simpa using h

theorem isIdentifier_implName {c : Contract} (h : A.isQualified c.name = true) :
    A.isIdentifier c.implName.toList = true := by
  have hletters : "Impl".toList.all Char.isAlphanum = true := by decide
  rw [Contract.implName, String.toList_append, isIdentifier_append (isIdentifier_simpleName h),
    List.all_eq_true]
  exact fun ch hch => isPart_of_isAlphanum (List.all_eq_true.mp hletters ch hch)

/-! ### Namespaces made from directories -/

/-- Where one separator is replaced by another, the text is cut at both. -/
theorem segments_map_replace_both {a b : Char} (s : List Char) :
    segments b (s.map fun c => if c = a then b else c) = (segments a s).flatMap (segments b) := by
  induction s with
  | nil => rfl
  | cons c cs ih =>
    obtain ⟨p, ps, hp⟩ := List.exists_cons_of_ne_nil (Text.segments_ne_nil a cs)
    rw [hp, List.flatMap_cons] at ih
    rw [List.map_cons, segments, segments, ih, hp]
    by_cases hc : c = a
    · rw [if_pos hc, if_pos rfl, if_pos hc]
      rfl
    · rw [if_neg hc, if_neg hc, List.flatMap_cons, segments]
      by_cases hb : c = b
      · rw [if_pos hb, if_pos hb]
        rfl
      · obtain ⟨q, qs, hq⟩ := List.exists_cons_of_ne_nil (Text.segments_ne_nil b p)
        rw [if_neg hb, if_neg hb, hq]
        rfl

theorem isQualified_pathNamespace (dirs : String) :
    A.isQualified (pathNamespace dirs) =
      (segments '/' dirs.toList).all fun dir => (segments '.' dir).all A.isIdentifier := by
  rw [isQualified, pathNamespace, Text.substitute, String.toList_ofList,
    segments_map_replace_both, List.all_flatMap]

/-! ### The widest alphabet -/

/-- All that is not ASCII counts as a letter. -/
def widest : Alphabet where
  foreignLetter _ := true
  foreignDigit _ := false

end Alphabet
end ContractForge.Java
