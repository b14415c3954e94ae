import ContractForge.Declaration.Basic
import Mathlib.Data.List.Basic

/-!
# The names of implementations

* `Contract.className` : the qualified name of the class that implements a contract for a locale.
* `Overlap` : the name of another contract begins with that of an implementation, and the locale makes
  up for what follows.

Two implementations have one name if their contracts have one namespace and one simple name and the
locale is the same, or if they overlap, and in no other case (`className_eq_iff`). What decides is that
`Impl` does not begin with an end of its own, and that a simple name has no dot.
-/

namespace ContractForge

/-- The qualified name of the class that implements a contract for a locale. -/
def Contract.className (c : Contract) (locale : String) : String :=
  qualify c.space (c.implName ++ locale)

/-- Another contract is named after what begins with the implementation of the first, and the locale of
the first ends with that of the other. -/
inductive Overlap (c : Contract) (locale : String) (c' : Contract) (locale' : String) : Prop
  /-- The other contract stands in the same namespace. -/
  | beside (rest : String) (space : c'.space = c.space) (simple : c'.simpleName = c.implName ++ rest)
      (longer : locale = rest ++ "Impl" ++ locale')
  /-- It stands in a namespace that goes on from the class. -/
  | below (rest : String) (space : c'.space = qualify c.space (c.implName ++ rest))
      (longer : locale = rest ++ "." ++ (c'.implName ++ locale'))

/-! ### Names that are put together -/

theorem qualify_empty (simple : String) : qualify "" simple = simple :=
  rfl

theorem qualify_of_ne {space : String} (h : space ≠ "") (simple : String) :
    qualify space simple = space ++ "." ++ simple :=
  if_neg (by simpa using h)

theorem qualify_inj {space simple simple' : String} :
    qualify space simple = qualify space simple' ↔ simple = simple' := by
  unfold qualify
  split_ifs
  · exact Iff.rfl
  · simp [← String.toList_inj]

/-- A namespace that is a qualified name. -/
theorem qualify_qualify {inner : String} (h : inner ≠ "") (space simple : String) :
    qualify (qualify space inner) simple = qualify space (inner ++ "." ++ simple) := by
  have houter : qualify space inner ≠ "" := by
    unfold qualify
    split_ifs <;> simp [h]
  rw [qualify_of_ne houter]
  by_cases hspace : space = ""
  · rw [hspace, qualify_empty, qualify_empty]
  · rw [qualify_of_ne hspace, qualify_of_ne hspace]
    simp [← String.toList_inj]

/-- The longer of two namespaces of the same qualified name goes on from the shorter at a dot. -/
theorem exists_inner_of_longer {space space' simple simple' : String} {between : List Char}
    (hspace : space ≠ "") (hne : space ≠ space')
    (hlonger : space'.toList = space.toList ++ between)
    (h : ".".toList ++ simple.toList = between ++ (".".toList ++ simple'.toList)) :
    ∃ inner, space' = qualify space inner ∧ simple = inner ++ "." ++ simple' := by
  cases between with
  | nil =>
    rw [List.append_nil, String.toList_inj] at hlonger
    exact absurd hlonger.symm hne
  | cons first inner =>
    have hfirst : '.' = first := (List.cons.inj h).1
    refine ⟨String.ofList inner, ?_, ?_⟩
    · rw [qualify_of_ne hspace, ← String.toList_inj, hlonger, ← hfirst]
      simp
    · rw [← String.toList_inj, show simple.toList = _ from (List.cons.inj h).2]
      simp

/-- One of two namespaces of the same qualified name goes on from the other. -/
theorem qualify_eq_qualify {space space' simple simple' : String}
    (h : qualify space simple = qualify space' simple') :
    space = space' ∧ simple = simple' ∨
      (∃ inner, space' = qualify space inner ∧ simple = inner ++ "." ++ simple') ∨
      ∃ inner, space = qualify space' inner ∧ simple' = inner ++ "." ++ simple := by
  by_cases hsame : space = space'
  · subst hsame
    exact .inl ⟨rfl, qualify_inj.mp h⟩
  by_cases hspace : space = ""
  · subst hspace
    rw [qualify_empty, qualify_of_ne (Ne.symm hsame)] at h
    exact .inr (.inl ⟨space', rfl, h⟩)
  by_cases hspace' : space' = ""
  · subst hspace'
    rw [qualify_empty, qualify_of_ne hspace] at h
    exact .inr (.inr ⟨space, rfl, h.symm⟩)
  rw [qualify_of_ne hspace, qualify_of_ne hspace', ← String.toList_inj] at h
  simp only [String.toList_append, List.append_assoc] at h
  rcases List.append_eq_append_iff.mp h with ⟨between, hlonger, heq⟩ | ⟨between, hlonger, heq⟩
  · exact .inr (.inl (exists_inner_of_longer hspace hsame hlonger heq))
  · exact .inr (.inr (exists_inner_of_longer hspace' (Ne.symm hsame) hlonger heq))

theorem dot_not_mem_simpleName (c : Contract) : '.' ∉ c.simpleName.toList := by
  rw [Contract.simpleName, QualifiedName.split]
  split
  next space simple hcut =>
    rw [String.toList_ofList]
    exact (Text.splitLast?_eq_some_iff.mp hcut).2
  next hcut => exact Text.splitLast?_eq_none_iff.mp hcut

theorem dot_not_mem_implName (c : Contract) : '.' ∉ c.implName.toList := by
  have himpl : '.' ∉ "Impl".toList := by decide
  rw [Contract.implName, String.toList_append, List.mem_append, not_or]
  exact ⟨dot_not_mem_simpleName c, himpl⟩

theorem implName_ne_empty (c : Contract) (rest : String) : c.implName ++ rest ≠ "" := by
  simp [Contract.implName]

theorem className_congr {c c' : Contract} (hname : c.name = c'.name) (locale : String) :
    c.className locale = c'.className locale := by
  simp only [Contract.className, Contract.space, Contract.implName, Contract.simpleName, hname]

theorem className_inj {c : Contract} {locale locale' : String} :
    c.className locale = c.className locale' ↔ locale = locale' := by
  rw [Contract.className, Contract.className, qualify_inj]
  simp [← String.toList_inj]

/-! ### The ways to share a name -/

/-- No end of `Impl` is a beginning of it, so that a second `Impl` stands behind the first. -/
theorem impl_append_eq {between locale locale' : List Char} (hne : between ≠ [])
    (h : "Impl".toList ++ locale = between ++ ("Impl".toList ++ locale')) :
    ∃ rest, between = "Impl".toList ++ rest ∧ locale = rest ++ ("Impl".toList ++ locale') := by
  rcases List.append_eq_append_iff.mp h with ⟨rest, hbetween, hlocale⟩ | ⟨rest, himpl, hlocale⟩
  · exact ⟨rest, hbetween, hlocale⟩
  · cases rest with
    | nil =>
      rw [List.append_nil] at himpl
      exact ⟨[], by rw [← himpl, List.append_nil], hlocale.symm⟩
    | cons first rest =>
      -- an `I` would follow the first letter of `Impl`
      obtain ⟨letter, further, rfl⟩ := List.exists_cons_of_ne_nil hne
      have hfirst : 'I' = first := (List.cons.inj hlocale).1
      have hmem : first ∈ ['m', 'p', 'l'] := by
        rw [show ['m', 'p', 'l'] = further ++ first :: rest from (List.cons.inj himpl).2]
        exact List.mem_append_right _ List.mem_cons_self
      rw [← hfirst] at hmem
      exact absurd hmem (by decide)

theorem Overlap.className_eq {c c' : Contract} {locale locale' : String}
    (h : Overlap c locale c' locale') : c.className locale = c'.className locale' := by
  cases h with
  | beside rest hspace hsimple hlonger =>
    rw [Contract.className, Contract.className, hspace, Contract.implName, Contract.implName, hsimple,
      hlonger, Contract.implName, qualify_inj]
    simp only [String.append_assoc]
  | below rest hspace hlonger =>
    rw [Contract.className, Contract.className, hspace, qualify_qualify (implName_ne_empty c rest),
      hlonger]
    simp only [String.append_assoc]

/-- In one namespace, an implementation of the same name has the same simple name or overlaps. -/
theorem overlap_of_beside {c c' : Contract} {locale locale' : String} {between : List Char}
    (hspace : c.space = c'.space) (hsimple : c'.simpleName.toList = c.simpleName.toList ++ between)
    (h : "Impl".toList ++ locale.toList = between ++ ("Impl".toList ++ locale'.toList)) :
    c.simpleName = c'.simpleName ∧ locale = locale' ∨ Overlap c locale c' locale' := by
  by_cases hbetween : between = []
  · subst hbetween
    rw [List.append_nil, String.toList_inj] at hsimple
    rw [List.nil_append, List.append_cancel_left_eq, String.toList_inj] at h
    exact .inl ⟨hsimple.symm, h⟩
  · obtain ⟨rest, rfl, hlocale⟩ := impl_append_eq hbetween h
    refine .inr (.beside (String.ofList rest) hspace.symm ?_ ?_)
    · rw [← String.toList_inj, hsimple, Contract.implName]
      simp
    · rw [← String.toList_inj, hlocale]
      simp

/-- Before the first dot of a class name stands the whole name of the implementation. -/
theorem exists_rest_of_dot {c : Contract} {locale inner tail : String}
    (h : c.implName ++ locale = inner ++ "." ++ tail) :
    ∃ rest, inner = c.implName ++ rest ∧ locale = rest ++ "." ++ tail := by
  rw [← String.toList_inj] at h
  simp only [String.toList_append, List.append_assoc] at h
  rcases List.append_eq_append_iff.mp h with ⟨rest, hinner, hlocale⟩ | ⟨rest, himpl, hlocale⟩
  · refine ⟨String.ofList rest, ?_, ?_⟩
    · rw [← String.toList_inj, hinner]
      simp
    · rw [← String.toList_inj, hlocale]
      simp
  · cases rest with
    | nil =>
      refine ⟨"", ?_, ?_⟩
      · rw [← String.toList_inj, String.append_empty, himpl, List.append_nil]
      · rw [String.empty_append, ← String.toList_inj]
        simpa using hlocale.symm
    | cons first rest =>
      have hfirst : '.' = first := (List.cons.inj hlocale).1
      have hmem : '.' ∈ c.implName.toList := by
        rw [himpl, ← hfirst]
        exact List.mem_append_right _ List.mem_cons_self
      exact absurd hmem (dot_not_mem_implName c)

/-- In a namespace that goes on from the other, an implementation of the same name overlaps. -/
theorem overlap_of_below {c c' : Contract} {locale locale' inner : String}
    (hspace : c'.space = qualify c.space inner)
    (h : c.implName ++ locale = inner ++ "." ++ (c'.implName ++ locale')) :
    Overlap c locale c' locale' := by
  obtain ⟨rest, rfl, hlocale⟩ := exists_rest_of_dot h
  exact .below rest hspace hlocale

/-- Implementations have one name if they are the same or overlap. -/
theorem className_eq_iff {c c' : Contract} {locale locale' : String} :
    c.className locale = c'.className locale' ↔
      (c.space = c'.space ∧ c.simpleName = c'.simpleName ∧ locale = locale') ∨
        Overlap c locale c' locale' ∨ Overlap c' locale' c locale := by
  constructor
  · intro h
    rcases qualify_eq_qualify h with ⟨hspace, hname⟩ | ⟨inner, hspace, hname⟩ | ⟨inner, hspace, hname⟩
    · have hchars := congrArg String.toList hname
      simp only [Contract.implName, String.toList_append, List.append_assoc] at hchars
      rcases List.append_eq_append_iff.mp hchars with ⟨between, hlonger, hrest⟩ | ⟨between, hlonger, hrest⟩
      · rcases overlap_of_beside hspace hlonger hrest with ⟨hsimple, hlocale⟩ | hover
        · exact .inl ⟨hspace, hsimple, hlocale⟩
        · exact .inr (.inl hover)
      · rcases overlap_of_beside hspace.symm hlonger hrest with ⟨hsimple, hlocale⟩ | hover
        · exact .inl ⟨hspace, hsimple.symm, hlocale.symm⟩
        · exact .inr (.inr hover)
    · exact .inr (.inl (overlap_of_below hspace hname))
    · exact .inr (.inr (overlap_of_below hspace hname))
  · rintro (⟨hspace, hsimple, rfl⟩ | hover | hover)
    · rw [Contract.className, Contract.className, hspace, Contract.implName, Contract.implName, hsimple]
    · exact hover.className_eq
    · exact hover.className_eq.symm

/-- A class without a locale has no room for another contract. -/
theorem not_overlap_empty {c c' : Contract} {locale' : String} : ¬Overlap c "" c' locale' := by
  rintro (⟨rest, -, -, hlonger⟩ | ⟨rest, -, hlonger⟩)
  · have hlength := congrArg String.length hlonger
    have himpl : "Impl".length = 4 := by decide
    simp only [String.length_empty, String.length_append] at hlength
    omega
  · have hlength := congrArg String.length hlonger
    have hdot : ".".length = 1 := by decide
    simp only [String.length_empty, String.length_append] at hlength
    omega

theorem className_empty_eq_iff {c c' : Contract} {locale : String} :
    c.className "" = c'.className locale ↔
      (c'.space = c.space ∧ c'.simpleName = c.simpleName ∧ locale = "") ∨ Overlap c' locale c "" := by
  rw [eq_comm, className_eq_iff]
  simp only [not_overlap_empty, or_false]

end ContractForge
