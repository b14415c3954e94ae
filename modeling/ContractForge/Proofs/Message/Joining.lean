import ContractForge.Proofs.Message.BytePositions
import ContractForge.Proofs.Message.LineByLine
import Mathlib.Logic.Relation

/-!
# Texts joined and lines folded

* `parse_append` : a text that ends where an entry ends can be read apart from what follows it. Where
  both parts bind a key, the second one counts.
* `Folds` : one line of an entry is folded, that is, continued on a new line at some place of it.
* `parse_folds` : folding lines, at any places and any number of times, changes nothing.
-/

namespace ContractForge.Properties

/-! ### Joining -/

/-- The bindings of pairs that are bound one after another. -/
theorem find?_foldl_insert_or (pairs : List (String × String)) (p : Properties) (key : String) :
    (pairs.foldl (fun p e => p.insert e.1 e.2) p).find? key =
      ((pairs.foldl (fun p e => p.insert e.1 e.2) ({} : Properties)).find? key).or (p.find? key) := by
  induction pairs using List.reverseRecOn with
  | nil => rfl
  | append_singleton pairs e ih =>
    rw [List.foldl_concat, List.foldl_concat, find?_insert, find?_insert, ih]
    split <;> rfl

theorem find?_parse_of_entries {first second whole : String}
    (h : entries whole.toList = entries first.toList ++ entries second.toList) (key : String) :
    (parse whole).find? key = ((parse second).find? key).or ((parse first).find? key) := by
  rw [parse, h, List.foldl_append, find?_foldl_insert_or]
  rfl

theorem mem_keys_parse_iff (text key : String) :
    key ∈ (parse text).bindings.map (·.1) ↔ ((parse text).find? key).isSome = true := by
  rw [Option.isSome_iff_exists]
  constructor
  · intro h
    obtain ⟨e, he, rfl⟩ := List.mem_map.mp h
    exact ⟨e.2, (sorted_parse text).mem_bindings_iff.mp he⟩
  · rintro ⟨value, h⟩
    exact List.mem_map.mpr ⟨(key, value), (sorted_parse text).mem_bindings_iff.mpr h, rfl⟩

/-- The text ends where an entry or a line without one ends: its last line ends, and nothing goes on
after it. -/
def EndsEntry (text : List Char) : Prop :=
  EndsLine text ∧ goesOn (lines text) = false

theorem EndsEntry.entries_append {text : List Char} (h : EndsEntry text) (more : List Char) :
    entries (text ++ more) = entries text ++ entries more := by
  rw [entries, h.1.lines_append, logicalLines_append h.2, List.map_append]
  rfl

/-- **Reading a text is reading its parts.** Of two texts one after another, the first ending where an
entry ends, exactly the keys of both are bound, each as in the second text if that binds it. A comment
between them, also one that ends in a backslash, is not continued and changes nothing. And reading,
which cuts texts at byte positions, does not fail on any text. -/
theorem parse_append {first : String} (h : EndsEntry first.toList) (second : String) :
    (∀ key, (parse (first ++ second)).find? key =
      ((parse second).find? key).or ((parse first).find? key)) ∧
    (∀ key, key ∈ (parse (first ++ second)).bindings.map (·.1) ↔
      key ∈ (parse first).bindings.map (·.1) ∨ key ∈ (parse second).bindings.map (·.1)) ∧
    (∀ line lineBreak, Filler line → lineBreak ∈ lineBreaks →
      parse (first ++ String.ofList (line ++ lineBreak) ++ second) = parse (first ++ second)) ∧
    ∀ text, parseAt? text = some (parse text) := by
  have hparts : entries (first ++ second).toList = entries first.toList ++ entries second.toList := by
    rw [String.toList_append]
    exact h.entries_append _
  have hfind := find?_parse_of_entries hparts
  refine ⟨hfind, fun key => ?_, fun line lineBreak hline hbreak => ?_, parseAt?_eq⟩
  · rw [mem_keys_parse_iff, mem_keys_parse_iff, mem_keys_parse_iff, hfind, Option.isSome_or,
      Bool.or_eq_true, or_comm]
  · have hfiller := entries_filler hline hbreak second.toList
    rw [parse, parse, hparts, String.toList_append, String.toList_append, String.toList_ofList,
      List.append_assoc, h.entries_append, hfiller]

/-- An entry over two lines, and a comment that ends in a backslash. -/
def firstText : String :=
  "a = 1 \\\n  2\n# c \\\n"

/-- The same key once more, and another one. -/
def secondText : String :=
  "a=3\r\nb"

theorem parse_append_texts :
    EndsEntry firstText.toList ∧ (parse firstText).find? "a" = some "1 2" ∧
    (parse (firstText ++ secondText)).find? "a" = some "3" ∧
    (parse (firstText ++ secondText)).find? "b" = some "" := by
  have hfirst : EndsEntry firstText.toList := ⟨.inr (by decide +kernel), by decide +kernel⟩
  obtain ⟨hfind, -⟩ := parse_append hfirst secondText
  refine ⟨hfirst, by decide +kernel, ?_, ?_⟩
  · rw [hfind]
    decide +kernel
  · rw [hfind]
    decide +kernel

/-! ### Folding -/

/-- The line stands behind the text and belongs to an entry: it continues one, or it is neither blank nor
a comment. -/
def OfEntry (earlier line : List Char) : Prop :=
  goesOn (lines earlier) = true ∨ isIgnored line = false

/-- The second text has one line of an entry folded: before a character that is not blank, and behind an
even number of backslashes, a backslash, a line break, and spaces and tabs are put in. -/
inductive Folds : List Char → List Char → Prop
  | fold {earlier front after lineBreak blanks : List Char} {c : Char} (hearlier : EndsLine earlier)
      (hfront : '\n' ∉ front) (hentry : OfEntry earlier (front ++ (c :: after).takeWhile (· ≠ '\n')))
      (hc : Text.isBlank c = false)
      (heven : Even ((earlier ++ front).reverse.takeWhile (· = '\\')).length)
      (hbreak : lineBreak ∈ lineBreaks) (hblanks : ∀ b ∈ blanks, b = ' ' ∨ b = '\t') :
      Folds (earlier ++ (front ++ c :: after))
        (earlier ++ (front ++ '\\' :: (lineBreak ++ (blanks ++ c :: after))))

section Folding

variable {earlier front blanks after : List Char} {c : Char}

theorem trimStart_append_cons (hc : Text.isBlank c = false) (front after : List Char) :
    Text.trimStart (front ++ c :: after) = Text.trimStart front ++ c :: after := by
  have htrim : Text.trimStart (c :: after) = c :: after := trimStart_cons hc after
  rw [Text.trimStart, List.dropWhile_append]
  split
  next hempty =>
    rw [Text.trimStart, List.isEmpty_iff.mp hempty]
    exact htrim
  next => rfl

/-- Whether a line holds an entry does not depend on what follows its first characters. -/
theorem isIgnored_append_cons (hc : Text.isBlank c = false) (front after : List Char) :
    isIgnored (front ++ c :: after) = isIgnored (front ++ [c]) := by
  rw [isIgnored, isIgnored, trimStart_append_cons hc, trimStart_append_cons hc]
  cases Text.trimStart front <;> rfl

/-- The text up to a line that goes on at the place of the fold is no comment either. -/
theorem isIgnored_append_backslash (hc : Text.isBlank c = false)
    (h : isIgnored (front ++ c :: after) = false) : isIgnored (front ++ ['\\']) = false := by
  rw [isIgnored, trimStart_append_cons hc] at h
  rw [isIgnored, trimStart_append_cons (by decide)]
  cases htrim : Text.trimStart front with
  | nil => rfl
  | cons d rest =>
    rw [htrim] at h
    exact h

/-- The characters on the line of a character that is not blank, and the lines behind it. -/
theorem exists_lines_append_cons (hc : Text.isBlank c = false) (after : List Char) :
    ∃ line further, ∀ front, '\n' ∉ front →
      lines (front ++ c :: after) = (front ++ c :: line) :: further := by
  have hbreaks : c ≠ '\n' ∧ c ≠ '\r' := by
    constructor <;> rintro rfl <;> revert hc <;> decide
  obtain ⟨line, further, hlines⟩ : ∃ line further, lines (c :: after) = (c :: line) :: further := by
    cases hafter : lines after with
    | nil =>
      obtain rfl := lines_eq_nil_iff.mp hafter
      exact ⟨[], [], by rw [lines]; all_goals simp_all⟩
    | cons line further => exact ⟨line, further, lines_cons hbreaks.1 (absurd · hbreaks.2) hafter⟩
  refine ⟨line, further, fun front hfront => ?_⟩
  induction front with
  | nil => exact hlines
  | cons d front ih =>
    obtain ⟨hd, hfront⟩ := not_or.mp (mt List.mem_cons.mpr hfront)
    refine lines_cons (Ne.symm hd) (fun _ hhead => ?_) (ih hfront)
    cases front with
    | nil => exact hbreaks.1 (Option.some.inj hhead)
    | cons e front =>
      obtain rfl := Option.some.inj hhead
      exact hfront List.mem_cons_self

/-- A line that goes on at the place of the fold, with a line break of either kind. -/
theorem lines_append_backslash {lineBreak : List Char} (hfront : '\n' ∉ front)
    (hbreak : lineBreak ∈ lineBreaks) (rest : List Char) :
    lines (front ++ '\\' :: (lineBreak ++ rest)) = (front ++ ['\\']) :: lines rest := by
  have hline : '\n' ∉ front ++ ['\\'] := by simp [hfront]
  have hsplit : front ++ '\\' :: (lineBreak ++ rest) = front ++ ['\\'] ++ (lineBreak ++ rest) := by simp
  rw [hsplit]
  rcases List.mem_cons.mp hbreak with rfl | hbreak
  · exact lines_append_lf hline (by simp) rest
  · obtain rfl := List.mem_singleton.mp hbreak
    exact lines_append_crlf hline rest

theorem add_unfinished (r : Reading) (unfinished : Option (List Char)) (text : List Char) :
    { r with unfinished }.add text = r.add text :=
  rfl

/-- The two lines of a fold are read as the line they were. -/
theorem next_next_fold {r : Reading} (hr : r.Balanced) (hfront : continues front = false)
    (hc : Text.isBlank c = false) (hblanks : ∀ b ∈ blanks, Text.isBlank b = true)
    (hentry : r.unfinished.isSome = true ∨ isIgnored (front ++ c :: after) = false) :
    (r.next (front ++ ['\\'])).next (blanks ++ c :: after) = r.next (front ++ c :: after) := by
  -- a line of an entry is put behind what is unfinished, which may be nothing
  obtain ⟨text, htext, hjoin⟩ : ∃ text, continues text = false ∧
      ∀ line, (r.unfinished.isSome = true ∨ isIgnored line = false) →
        r.next line = r.add (text ++ Text.trimStart line) := by
    cases hunfinished : r.unfinished with
    | some text => exact ⟨text, hr text hunfinished, fun line _ => r.next_of_some hunfinished line⟩
    | none =>
      refine ⟨[], rfl, fun line hline => ?_⟩
      rw [r.next_of_none hunfinished, if_neg (by simpa using hline), List.nil_append]
  have hopen : continues (text ++ Text.trimStart front) = false := by
    rw [continues_append htext, continues_trimStart, hfront]
  have hfirst : r.next (front ++ ['\\']) =
      { r with unfinished := some (text ++ Text.trimStart front) } := by
    rw [hjoin _ (hentry.imp_right (isIgnored_append_backslash hc)),
      trimStart_append_cons (by decide), ← List.append_assoc, Reading.add,
      if_pos (by rw [continues_concat, hopen]; rfl), List.dropLast_concat]
  rw [hfirst, Reading.next_of_some rfl, add_unfinished, hjoin _ hentry, trimStart_blanks hblanks,
    trimStart_cons hc, trimStart_append_cons hc, List.append_assoc]

/-- Where a text ends with a line, no backslash at the end of what follows is before it. -/
theorem continues_of_endsLine {text : List Char} (h : EndsLine text) : continues text = false := by
  refine continues_of_getLast?_ne fun hlast => ?_
  rcases h with rfl | hlf
  · cases hlast
  · rw [hlf] at hlast
    revert hlast
    decide

/-- A fold leaves the entries as they are. -/
theorem Folds.entries_eq {text folded : List Char} (h : Folds text folded) :
    entries folded = entries text := by
  obtain @⟨earlier, front, after, lineBreak, blanks, c, hearlier, hfront, hentry, hc, heven, hbreak,
    hblanks⟩ := h
  have hblank : ∀ b ∈ blanks, Text.isBlank b = true ∧ '\n' ≠ b := by
    intro b hb
    rcases hblanks b hb with rfl | rfl <;> decide
  obtain ⟨line, further, hlines⟩ := exists_lines_append_cons hc after
  have hline : isIgnored (front ++ (c :: after).takeWhile (· ≠ '\n')) =
      isIgnored (front ++ c :: line) := by
    have hlf : c ≠ '\n' := by
      rintro rfl
      revert hc
      decide
    rw [List.takeWhile_cons_of_pos (by simpa using hlf), isIgnored_append_cons hc,
      isIgnored_append_cons hc front line]
  have hcontinues : continues front = false := by
    have hall := continues_eq_false_iff_even.mpr heven
    rwa [continues_append (continues_of_endsLine hearlier)] at hall
  have hstep : ((read (lines earlier)).next (front ++ ['\\'])).next (blanks ++ c :: line) =
      (read (lines earlier)).next (front ++ c :: line) := by
    refine next_next_fold (balanced_read_and_goesOn _).1 hcontinues hc (fun b hb => (hblank b hb).1) ?_
    rw [← goesOn_eq, ← hline]
    exact hentry
  have hread : read (lines (earlier ++ (front ++ '\\' :: (lineBreak ++ (blanks ++ c :: after))))) =
      read (lines (earlier ++ (front ++ c :: after))) := by
    rw [hearlier.lines_append, hearlier.lines_append, read_append, read_append,
      lines_append_backslash hfront hbreak, hlines front hfront,
      hlines blanks fun hmem => (hblank _ hmem).2 rfl, List.foldl_cons, List.foldl_cons,
      List.foldl_cons, hstep]
  rw [entries, entries, ← finish_read, ← finish_read, hread]

theorem entries_eq_of_folds {text folded : List Char} (h : Relation.ReflTransGen Folds text folded) :
    entries folded = entries text := by
  induction h with
  | refl => rfl
  | tail _ hfold ih => exact hfold.entries_eq.trans ih

end Folding

/-- **Folded lines are read like unfolded ones.** However often lines of entries are folded, at whatever
places, the bindings of the text are the same. -/
theorem parse_folds {text folded : String}
    (h : Relation.ReflTransGen Folds text.toList folded.toList) : parse folded = parse text := by
  rw [parse, parse, entries_eq_of_folds h]

/-- An entry with a unicode escape, continued on a second line that looks like a comment. -/
def plainText : String :=
  "key = \\u00e9\\\n #b"

/-- The same with three folds: inside the escape, before the backslash that was there, and before the
sign of the second line. -/
def foldedText : String :=
  "key = \\u0\\\r\n\t0e9\\\n\\\n \\\n  #b"

theorem parse_folds_texts :
    Relation.ReflTransGen Folds plainText.toList foldedText.toList ∧
    parse foldedText = parse plainText ∧ (parse foldedText).find? "key" = some "é#b" := by
  have hbreaks : ['\n'] ∈ lineBreaks ∧ ['\r', '\n'] ∈ lineBreaks := by decide
  have hspaces : ∀ b ∈ [' ', ' '], b = ' ' ∨ b = '\t' := by simp
  have htab : ∀ b ∈ ['\t'], b = ' ' ∨ b = '\t' := by simp
  have hescape : Folds plainText.toList "key = \\u0\\\r\n\t0e9\\\n #b".toList := by
    convert @Folds.fold [] "key = \\u0".toList "e9\\\n #b".toList _ _ '0'
      (.inl rfl) (by decide +kernel) (.inr (by decide +kernel)) (by decide) (by decide +kernel)
      hbreaks.2 htab using 1
    · decide +kernel
    · decide +kernel
  have hbackslash : Folds "key = \\u0\\\r\n\t0e9\\\n #b".toList
      "key = \\u0\\\r\n\t0e9\\\n\\\n #b".toList := by
    convert @Folds.fold "key = \\u0\\\r\n".toList "\t0e9".toList "\n #b".toList _ _ '\\'
      (.inr (by decide +kernel)) (by decide +kernel) (.inl (by decide +kernel)) (by decide)
      (by decide +kernel) hbreaks.1 (List.forall_mem_nil _) using 1
    · decide +kernel
    · decide +kernel
  have hsign : Folds "key = \\u0\\\r\n\t0e9\\\n\\\n #b".toList foldedText.toList := by
    convert @Folds.fold "key = \\u0\\\r\n\t0e9\\\n\\\n".toList " ".toList "b".toList _ _ '#'
      (.inr (by decide +kernel)) (by decide +kernel) (.inl (by decide +kernel)) (by decide)
      (by decide +kernel) hbreaks.1 hspaces using 1
    · decide +kernel
    · decide +kernel
  have hfolds : Relation.ReflTransGen Folds plainText.toList foldedText.toList :=
    ((Relation.ReflTransGen.single hescape).tail hbackslash).tail hsign
  exact ⟨hfolds, parse_folds hfolds, by decide +kernel⟩

end ContractForge.Properties
