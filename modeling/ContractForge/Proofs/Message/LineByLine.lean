import ContractForge.Proofs.Message.Listing
import Mathlib.Algebra.Ring.Parity
import Mathlib.Data.List.Induction

/-!
# Reading line by line

The reader looks for the end of an entry in the text joined so far. The same can be told from each
line by itself.

* `Reading` : the logical lines of the lines so far, and the one that is not finished, if there is one.
* `Reading.next` : the reading after one more line.
* `goesOn` : an entry goes on after these lines. It does after a line that ends in an odd number of
  backslashes, unless the line is blank or a comment and continues nothing.

`finish_read` : the logical lines of a text are those of its reading. `goesOn_eq` : a line is
unfinished exactly if an entry goes on, since what is unfinished ends in an even number of backslashes.
-/

namespace ContractForge.Properties

/-- What has been read after some lines. -/
structure Reading where
  /-- The logical lines that are complete. -/
  complete : List (List Char) := []
  /-- The logical line that the next line continues, without the backslash at its end. -/
  unfinished : Option (List Char) := none

namespace Reading

/-- A logical line, which may not be finished, after those that are complete. -/
def add (r : Reading) (text : List Char) : Reading :=
  if continues text then { r with unfinished := some text.dropLast }
  else { complete := r.complete ++ [text], unfinished := none }

/-- One more line. -/
def next (r : Reading) (line : List Char) : Reading :=
  match r.unfinished with
  | some text => r.add (text ++ Text.trimStart line)
  | none => if isIgnored line then r else r.add (Text.trimStart line)

theorem next_of_some {r : Reading} {text : List Char} (h : r.unfinished = some text)
    (line : List Char) : r.next line = r.add (text ++ Text.trimStart line) := by
  rw [next, h]

theorem next_of_none {r : Reading} (h : r.unfinished = none) (line : List Char) :
    r.next line = if isIgnored line then r else r.add (Text.trimStart line) := by
  rw [next, h]

/-- All logical lines, when there are no more lines. -/
def finish (r : Reading) : List (List Char) :=
  r.complete ++ r.unfinished.toList

end Reading

/-- The reading of lines. -/
def read (ls : List (List Char)) : Reading :=
  ls.foldl Reading.next {}

/-- An entry goes on after the lines. -/
def goesOn (ls : List (List Char)) : Bool :=
  ls.foldl (fun on line => (on || !isIgnored line) && continues line) false

/-! ### The backslashes at the end of a line -/

theorem continues_iff_odd {line : List Char} :
    continues line = true ↔ Odd (line.reverse.takeWhile (· = '\\')).length := by
  rw [continues, decide_eq_true_eq, Nat.odd_iff]

theorem continues_eq_false_iff_even {line : List Char} :
    continues line = false ↔ Even (line.reverse.takeWhile (· = '\\')).length := by
  rw [← Bool.not_eq_true, continues_iff_odd, Nat.not_odd_iff_even]

theorem continues_concat (line : List Char) : continues (line ++ ['\\']) = !continues line := by
  rw [Bool.eq_iff_iff, Bool.not_eq_true', continues_iff_odd, continues_eq_false_iff_even,
    List.reverse_append, List.reverse_singleton, List.singleton_append,
    List.takeWhile_cons_of_pos (by decide), List.length_cons, Nat.odd_add_one, Nat.not_odd_iff_even]

theorem continues_of_getLast?_ne {line : List Char} (h : line.getLast? ≠ some '\\') :
    continues line = false := by
  cases hlast : line.getLast? with
  | none =>
    rw [List.getLast?_eq_none_iff.mp hlast]
    rfl
  | some c =>
    obtain ⟨front, rfl⟩ := List.getLast?_eq_some_iff.mp hlast
    have hc : c ≠ '\\' := by simpa using h
    exact (continues_append_cons hc front []).trans rfl

/-- A line that goes on is another one and a backslash. -/
theorem exists_concat_of_continues {line : List Char} (h : continues line = true) :
    ∃ front, line = front ++ ['\\'] ∧ continues front = false := by
  have hlast : line.getLast? = some '\\' := by
    by_contra hne
    rw [continues_of_getLast?_ne hne] at h
    cases h
  obtain ⟨front, rfl⟩ := List.getLast?_eq_some_iff.mp hlast
  refine ⟨front, rfl, ?_⟩
  rwa [continues_concat, Bool.not_eq_true'] at h

theorem continues_trimStart (line : List Char) : continues (Text.trimStart line) = continues line := by
  have hblanks : continues (line.takeWhile Text.isBlank) = false := by
    refine continues_of_getLast?_ne fun hlast => ?_
    have hblank := List.all_eq_true.mp List.all_takeWhile '\\' (List.mem_of_getLast? hlast)
    revert hblank
    decide
  have h := continues_append hblanks (Text.trimStart line)
  rwa [Text.trimStart, List.takeWhile_append_dropWhile, eq_comm] at h

/-! ### What is read -/

/-- What is unfinished ends in an even number of backslashes. -/
def Reading.Balanced (r : Reading) : Prop :=
  ∀ text, r.unfinished = some text → continues text = false

theorem Reading.Balanced.add (r : Reading) (text : List Char) : (r.add text).Balanced := by
  intro unfinished h
  unfold Reading.add at h
  split at h
  next hon =>
    obtain ⟨front, rfl, hfront⟩ := exists_concat_of_continues hon
    rw [List.dropLast_concat] at h
    obtain rfl := Option.some.inj h
    exact hfront
  next => cases h

theorem Reading.Balanced.next {r : Reading} (h : r.Balanced) (line : List Char) :
    (r.next line).Balanced := by
  cases hr : r.unfinished with
  | some text =>
    rw [r.next_of_some hr]
    exact Balanced.add _ _
  | none =>
    rw [r.next_of_none hr]
    split
    next => exact h
    next => exact Balanced.add _ _

theorem isSome_unfinished_add (r : Reading) (text : List Char) :
    (r.add text).unfinished.isSome = continues text := by
  unfold Reading.add
  split
  next hon => rw [hon]; rfl
  next hoff => simp [hoff]

/-- Whether a line leaves something unfinished can be told from the line itself. -/
theorem isSome_unfinished_next {r : Reading} (h : r.Balanced) (line : List Char) :
    (r.next line).unfinished.isSome =
      ((r.unfinished.isSome || !isIgnored line) && continues line) := by
  cases hr : r.unfinished with
  | some text =>
    rw [r.next_of_some hr, isSome_unfinished_add, continues_append (h text hr), continues_trimStart]
    rfl
  | none =>
    rw [r.next_of_none hr]
    by_cases hignored : isIgnored line = true
    · simp [hignored, hr]
    · simp [hignored, isSome_unfinished_add, continues_trimStart]

theorem balanced_read_and_goesOn (ls : List (List Char)) :
    (read ls).Balanced ∧ (read ls).unfinished.isSome = goesOn ls := by
  induction ls using List.reverseRecOn with
  | nil => exact ⟨fun _ h => (Option.some_ne_none _ h.symm).elim, rfl⟩
  | append_singleton ls line ih =>
    rw [read, goesOn, List.foldl_concat, List.foldl_concat, ← read, ← goesOn]
    exact ⟨ih.1.next line, by rw [isSome_unfinished_next ih.1, ih.2]⟩

theorem goesOn_eq (ls : List (List Char)) : goesOn ls = (read ls).unfinished.isSome :=
  (balanced_read_and_goesOn ls).2.symm

/-- The reading that starts with nothing unfinished, and the one that starts with a line. The second is
what joining the lines that continue it comes to, and then the first again. -/
theorem finish_foldl (ls : List (List Char)) :
    (∀ r : Reading, r.unfinished = none →
      (ls.foldl Reading.next r).finish = r.complete ++ logicalLines ls) ∧
    ∀ (r : Reading) (line : List Char), (ls.foldl Reading.next (r.add line)).finish =
      r.complete ++ (joinContinued line ls).1 :: logicalLines (joinContinued line ls).2 := by
  induction ls with
  | nil =>
    refine ⟨fun r hr => ?_, fun r line => ?_⟩
    · simp [Reading.finish, hr, logicalLines]
    · rw [List.foldl_nil, joinContinued, logicalLines, Reading.add]
      by_cases hon : continues line = true
      · simp [hon, Reading.finish]
      · simp [hon, Reading.finish]
  | cons next rest ih =>
    obtain ⟨ihRest, ihLine⟩ := ih
    have hrest : ∀ r : Reading, r.unfinished = none →
        ((next :: rest).foldl Reading.next r).finish = r.complete ++ logicalLines (next :: rest) := by
      intro r hr
      rw [List.foldl_cons, r.next_of_none hr, logicalLines]
      by_cases hignored : isIgnored next = true
      · rw [if_pos hignored, if_pos hignored]
        exact ihRest r hr
      · rw [if_neg hignored, if_neg hignored]
        exact ihLine r _
    refine ⟨hrest, fun r line => ?_⟩
    by_cases hon : continues line = true
    · have hadd : r.add line = { r with unfinished := some line.dropLast } := if_pos hon
      rw [joinContinued, if_pos hon, hadd, List.foldl_cons]
      exact ihLine { r with unfinished := some line.dropLast } _
    · have hadd : r.add line = { complete := r.complete ++ [line], unfinished := none } := if_neg hon
      rw [joinContinued, if_neg hon, hadd, hrest _ rfl, List.append_assoc]
      rfl

/-- The logical lines are what has been read in the end. -/
theorem finish_read (ls : List (List Char)) : (read ls).finish = logicalLines ls :=
  (finish_foldl ls).1 {} rfl

theorem read_append (ls more : List (List Char)) :
    read (ls ++ more) = more.foldl Reading.next (read ls) :=
  List.foldl_append

/-- Lines after which nothing goes on are read apart from those that follow. -/
theorem logicalLines_append {ls : List (List Char)} (h : goesOn ls = false) (more : List (List Char)) :
    logicalLines (ls ++ more) = logicalLines ls ++ logicalLines more := by
  have hnone : (read ls).unfinished = none := by
    rw [goesOn_eq] at h
    exact Option.not_isSome_iff_eq_none.mp (by simp [h])
  rw [← finish_read, read_append, (finish_foldl more).1 _ hnone, ← finish_read ls, Reading.finish,
    hnone, Option.toList_none, List.append_nil]

/-! ### Texts that end with a line -/

/-- The text ends where a line ends. -/
def EndsLine (text : List Char) : Prop :=
  text = [] ∨ text.getLast? = some '\n'

theorem endsLine_cons {c : Char} {rest : List Char} (h : EndsLine (c :: rest)) : EndsLine rest := by
  cases rest with
  | nil => exact .inl rfl
  | cons d rest =>
    have hlast := h.resolve_left (List.cons_ne_nil _ _)
    rw [List.getLast?_cons_cons] at hlast
    exact .inr hlast

theorem lines_eq_nil_iff {text : List Char} : lines text = [] ↔ text = [] := by
  constructor
  · intro h
    unfold lines at h
    split at h
    next => rfl
    next => cases h
    next => cases h
    next => split at h <;> cases h
  · rintro rfl
    rfl

/-- A text that ends where a line ends is cut into lines apart from what follows. -/
theorem EndsLine.lines_append {text : List Char} (h : EndsLine text) (more : List Char) :
    lines (text ++ more) = lines text ++ lines more := by
  induction text using lines.induct with
  | case1 => rfl
  | case2 rest ih =>
    rw [List.cons_append, lines, lines, ih (endsLine_cons h), List.cons_append]
  | case3 rest ih =>
    rw [List.cons_append, List.cons_append, lines, lines, ih (endsLine_cons (endsLine_cons h)),
      List.cons_append]
  | case4 c rest hlf hcr hlines ih =>
    -- the text would be a single character that ends no line
    obtain rfl := lines_eq_nil_iff.mp hlines
    have hlast := h.resolve_left (List.cons_ne_nil _ _)
    exact absurd (Option.some.inj hlast) hlf
  | case5 c rest hlf hcr line further hlines ih =>
    obtain ⟨d, tail, rfl⟩ : ∃ d tail, rest = d :: tail := by
      refine List.exists_cons_of_ne_nil fun hnil => ?_
      rw [lines_eq_nil_iff.mpr hnil] at hlines
      cases hlines
    have hhead : c = '\r' → ∀ text, (d :: tail ++ text).head? ≠ some '\n' := by
      rintro hc text hhead
      obtain rfl := Option.some.inj hhead
      exact hcr tail hc rfl
    have hmore : lines (d :: tail ++ more) = line :: (further ++ lines more) := by
      rw [ih (endsLine_cons h), hlines, List.cons_append]
    rw [List.cons_append, lines_cons hlf (fun hc => hhead hc more) hmore,
      lines_cons hlf (fun hc => by simpa using hhead hc []) hlines, List.cons_append]

end ContractForge.Properties
