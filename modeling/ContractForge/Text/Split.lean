/-!
# Cutting text at a separator

* `segments sep s` : the parts of `s` between the separators, in order. There is always at least
  one part, and joining the parts with the separator gives `s` back.
* `splitLast? sep s` : the text before and after the last separator, if there is one.
* `stripStart?`, `stripEnd?` : the text without a given beginning or end.

Each comes with the one equation by which other modules know it.
-/

namespace ContractForge.Text

/-- The parts of a text between the separators; a text without a separator is its only part. -/
def segments (sep : Char) : List Char → List (List Char)
  | [] => [[]]
  | c :: cs =>
    if c = sep then [] :: segments sep cs
    else
      match segments sep cs with
      | [] => [[c]]
      | s :: rest => (c :: s) :: rest

/-- The parts put back together with the separator between them. -/
def joinSegments (sep : Char) (parts : List (List Char)) : List Char :=
  [sep].intercalate parts

theorem segments_ne_nil (sep : Char) (s : List Char) : segments sep s ≠ [] := by
  cases s with
  | nil => simp [segments]
  | cons c cs => grind [segments]

/-- Cutting loses nothing. -/
theorem joinSegments_segments (sep : Char) (s : List Char) :
    joinSegments sep (segments sep s) = s := by
  induction s with
  | nil => rfl
  | cons c cs ih =>
    obtain ⟨p, ps, hp⟩ := List.exists_cons_of_ne_nil (segments_ne_nil sep cs)
    rw [hp] at ih
    by_cases h : c = sep <;> cases ps <;> simp_all [segments, joinSegments, List.intercalate]

/-- The text before and after the last separator. -/
def splitLast? (sep : Char) : List Char → Option (List Char × List Char)
  | [] => none
  | c :: cs =>
    match splitLast? sep cs with
    | some (before, after) => some (c :: before, after)
    | none => if c = sep then some ([], cs) else none

/-- A text has no last separator exactly when it has none at all. -/
theorem splitLast?_eq_none_iff {sep : Char} {s : List Char} :
    splitLast? sep s = none ↔ sep ∉ s := by
  induction s with
  | nil => simp [splitLast?]
  | cons c cs ih => grind [splitLast?]

/-- The two sides of a cut make up the text, and the second side is free of the separator. -/
theorem splitLast?_eq_some_iff {sep : Char} {s before after : List Char} :
    splitLast? sep s = some (before, after) ↔ s = before ++ sep :: after ∧ sep ∉ after := by
  induction s generalizing before with
  | nil => simp [splitLast?]
  | cons c cs ih =>
    cases before with
    | nil => grind [splitLast?, splitLast?_eq_none_iff]
    | cons b bs => grind [splitLast?]

/-- What follows `start` in a text that begins with it. -/
def stripStart? : List Char → List Char → Option (List Char)
  | [], s => some s
  | _ :: _, [] => none
  | p :: ps, c :: cs => if p = c then stripStart? ps cs else none

theorem stripStart?_eq_some_iff {start s rest : List Char} :
    stripStart? start s = some rest ↔ s = start ++ rest := by
  induction start generalizing s with
  | nil => simp [stripStart?, eq_comm]
  | cons p ps ih => cases s <;> grind [stripStart?]

@[simp] theorem stripStart?_append (start rest : List Char) :
    stripStart? start (start ++ rest) = some rest :=
  stripStart?_eq_some_iff.mpr rfl

/-- What precedes `finish` in a text that ends with it. -/
def stripEnd? (finish s : List Char) : Option (List Char) :=
  (stripStart? finish.reverse s.reverse).map List.reverse

theorem stripEnd?_eq_some_iff {finish s rest : List Char} :
    stripEnd? finish s = some rest ↔ s = rest ++ finish := by
  simp only [stripEnd?, Option.map_eq_some_iff, stripStart?_eq_some_iff]
  constructor
  · rintro ⟨t, ht, rfl⟩
    simpa using congrArg List.reverse ht
  · rintro rfl
    exact ⟨rest.reverse, by simp, by simp⟩

@[simp] theorem stripEnd?_append (rest finish : List Char) :
    stripEnd? finish (rest ++ finish) = some rest :=
  stripEnd?_eq_some_iff.mpr rfl

end ContractForge.Text
