import ContractForge.Proofs.Java.ClassReading
import ContractForge.Proofs.Text.Segments

/-!
# Fields and blocks, line by line

What is inside a class can be read back from its lines.

* `readLines?`, `readInset?` : the lines of a text, and lines that are all set in.
* `readAnnotated?` : the annotations above a line that is known by its end.
* `readFields?`, `readMethod?` : fields and methods with their annotations.
* `readInside?` : the fields and the blocks of a class. An empty line comes before each block.
* `separate?` : the static block and the methods among the blocks.

Every reader reads what is written, and nothing else.
-/

namespace ContractForge.Java

/-! ### Whole lines -/

section Ends

variable {α β : Type}

/-- A list without a given last element. -/
def withoutLast? [DecidableEq α] (last : α) (xs : List α) : Option (List α) :=
  if xs.getLast? = some last then some xs.dropLast else none

theorem withoutLast?_eq_some_iff [DecidableEq α] {last : α} {xs front : List α} :
    withoutLast? last xs = some front ↔ front ++ [last] = xs := by
  unfold withoutLast?
  constructor
  · intro h
    split at h
    next hlast =>
      obtain rfl := Option.some.inj h
      exact List.dropLast_append_getLast? last hlast
    next => cases h
  · rintro rfl
    simp

/-- A reader that reads exactly what is written for one element does so for a list of them. -/
theorem mapM_eq_some_iff {read : α → Option β} {legible : β → Prop} {write : β → α}
    (h : ∀ x y, read x = some y ↔ legible y ∧ write y = x) {xs : List α} {ys : List β} :
    xs.mapM read = some ys ↔ (∀ y ∈ ys, legible y) ∧ ys.map write = xs := by
  induction xs generalizing ys with
  | nil => cases ys <;> simp
  | cons x rest ih =>
    simp only [List.mapM_cons, Option.bind_eq_bind, Option.bind_eq_some_iff, Option.pure_def, h, ih]
    constructor
    · rintro ⟨y, ⟨hy, rfl⟩, further, ⟨hfurther, rfl⟩, heq⟩
      obtain rfl := Option.some.inj heq
      exact ⟨List.forall_mem_cons.mpr ⟨hy, hfurther⟩, rfl⟩
    · rintro ⟨hlegible, heq⟩
      obtain ⟨y, further, rfl, rfl, rfl⟩ := List.map_eq_cons_iff.mp heq
      obtain ⟨hy, hfurther⟩ := List.forall_mem_cons.mp hlegible
      exact ⟨y, ⟨hy, rfl⟩, further, ⟨hfurther, rfl⟩, rfl⟩

end Ends

theorem mapM_stripStart?_eq_some_iff {start : List Char} {parts rests : List (List Char)} :
    parts.mapM (Text.stripStart? start) = some rests ↔ rests.map (start ++ ·) = parts := by
  have hread : ∀ part rest, Text.stripStart? start part = some rest ↔ True ∧ start ++ rest = part := by
    intro part rest
    rw [Text.stripStart?_eq_some_iff, true_and, eq_comm]
  rw [mapM_eq_some_iff hread]
  simp

/-- The lines of a text of whole lines. -/
def readLines? (text : String) : Option (List (List Char)) :=
  withoutLast? [] (Text.segments '\n' text.toList)

theorem joinSegments_concat_nil (lines : List (List Char)) :
    Text.joinSegments '\n' (lines ++ [[]]) = lines.flatMap fun line => line ++ ['\n'] := by
  induction lines with
  | nil => rfl
  | cons line rest ih =>
    obtain ⟨next, further, hrest⟩ : ∃ next further, rest ++ [[]] = next :: further :=
      List.exists_cons_of_ne_nil (by simp)
    rw [List.cons_append, hrest, Text.joinSegments_cons_cons, ← hrest, ih]
    simp

theorem readLines?_eq_some_iff {text : String} {lines : List (List Char)} :
    readLines? text = some lines ↔
      (∀ line ∈ lines, '\n' ∉ line) ∧ (lines.flatMap fun line => line ++ ['\n']) = text.toList := by
  rw [readLines?, withoutLast?_eq_some_iff]
  constructor
  · intro h
    refine ⟨fun line hline => ?_, ?_⟩
    · exact (Text.of_mem_segments (h ▸ List.mem_append_left _ hline)).1
    · rw [← joinSegments_concat_nil, h, Text.joinSegments_segments]
  · rintro ⟨hlines, htext⟩
    rw [← htext, segments_lines hlines]

/-- Lines that are all set in, without what sets them in. -/
def readInset? (lines : List (List Char)) : Option (List (List Char)) :=
  lines.mapM (Text.stripStart? inset)

theorem readInset?_eq_some_iff {lines inner : List (List Char)} :
    readInset? lines = some inner ↔ inner.map (inset ++ ·) = lines :=
  mapM_stripStart?_eq_some_iff

/-! ### Annotated lines -/

/-- The annotations above the first line with a given end, that line without its end, and what is
behind it. -/
def readAnnotated? (finish : List Char) :
    List (List Char) → Option (List String × String × List (List Char))
  | [] => none
  | line :: rest =>
    match Text.stripEnd? finish line with
    | some stem => some ([], String.ofList stem, rest)
    | none => do
      let annotation ← Text.stripStart? ['@'] line
      let (annotations, stem, behind) ← readAnnotated? finish rest
      return (String.ofList annotation :: annotations, stem, behind)

/-- The sign of an annotation line is no part of an end that does not begin with it. -/
theorem stripEnd?_annotation_eq_none_iff {finish : List Char} (hfinish : finish.head? ≠ some '@')
    {a : List Char} : Text.stripEnd? finish ('@' :: a) = none ↔ ¬finish <:+ a := by
  rw [Option.eq_none_iff_forall_ne_some]
  constructor
  · intro h hsuffix
    obtain ⟨front, rfl⟩ := hsuffix
    exact h ('@' :: front) (Text.stripEnd?_eq_some_iff.mpr rfl)
  · intro h stem hstem
    have hsuffix : finish <:+ '@' :: a := ⟨stem, (Text.stripEnd?_eq_some_iff.mp hstem).symm⟩
    rcases List.suffix_cons_iff.mp hsuffix with rfl | hsuffix
    · exact hfinish rfl
    · exact h hsuffix

theorem toList_annotationLine (a : String) : (annotationLine a).toList = '@' :: a.toList := by
  rw [annotationLine, String.toList_append]
  rfl

theorem readAnnotated?_eq_some_iff (finish : List Char) (hfinish : finish.head? ≠ some '@')
    {lines behind : List (List Char)} {annotations : List String} {stem : String} :
    readAnnotated? finish lines = some (annotations, stem, behind) ↔
      (∀ a ∈ annotations, ¬finish <:+ a.toList) ∧
        (annotations.map annotationLine).map String.toList ++ (stem.toList ++ finish) :: behind =
          lines := by
  induction lines generalizing annotations with
  | nil => simp [readAnnotated?]
  | cons line rest ih =>
    rw [readAnnotated?]
    constructor
    · intro h
      split at h
      next text htext =>
        obtain ⟨rfl, rfl, rfl⟩ := by simpa using h
        exact ⟨List.forall_mem_nil _, by simp [Text.stripEnd?_eq_some_iff.mp htext]⟩
      next hnone =>
        obtain ⟨a, ha, ⟨further, text, after⟩, hfurther, heq⟩ := by
          simpa only [Option.bind_eq_bind, Option.bind_eq_some_iff] using h
        obtain ⟨rfl, rfl, rfl⟩ := by simpa using heq
        obtain ⟨hlegible, hrest⟩ := ih.mp hfurther
        obtain rfl := Text.stripStart?_eq_some_iff.mp ha
        refine ⟨List.forall_mem_cons.mpr ⟨?_, hlegible⟩, by simp [toList_annotationLine, ← hrest]⟩
        rw [String.toList_ofList]
        exact (stripEnd?_annotation_eq_none_iff hfinish).mp hnone
    · rintro ⟨hlegible, hlines⟩
      cases annotations with
      | nil =>
        obtain ⟨rfl, rfl⟩ : stem.toList ++ finish = line ∧ behind = rest := by simpa using hlines
        simp
      | cons a further =>
        obtain ⟨ha, hfurther⟩ := List.forall_mem_cons.mp hlegible
        obtain ⟨rfl, hrest⟩ := List.cons.inj hlines
        rw [toList_annotationLine, (stripEnd?_annotation_eq_none_iff hfinish).mpr ha]
        have hread := ih.mpr ⟨hfurther, hrest⟩
        have hmark : Text.stripStart? ['@'] ('@' :: a.toList) = some a.toList := rfl
        simp [hread, hmark]

/-! ### Fields and methods -/

theorem length_of_readAnnotated? {finish : List Char} {lines behind : List (List Char)}
    {annotations : List String} {stem : String}
    (h : readAnnotated? finish lines = some (annotations, stem, behind)) :
    behind.length < lines.length := by
  induction lines generalizing annotations with
  | nil => cases h
  | cons line rest ih =>
    rw [readAnnotated?] at h
    split at h
    next =>
      obtain ⟨-, -, rfl⟩ := by simpa using h
      exact Nat.lt_succ_self _
    next =>
      obtain ⟨a, -, ⟨further, text, after⟩, hfurther, heq⟩ := by
        simpa only [Option.bind_eq_bind, Option.bind_eq_some_iff] using h
      obtain ⟨-, rfl, rfl⟩ := by simpa using heq
      exact Nat.lt_succ_of_lt (ih hfurther)

/-- Fields with their annotations, line by line. -/
def readFields? : List (List Char) → Option (List Field)
  | [] => some []
  | line :: rest =>
    match _h : readAnnotated? [';'] (line :: rest) with
    | some (annotations, declaration, behind) =>
      (readFields? behind).map ({ declaration, annotations } :: ·)
    | none => none
termination_by lines => lines.length
decreasing_by exact length_of_readAnnotated? _h

/-- None of the annotations of the field could be taken for its declaration. -/
def Field.Legible (f : Field) : Prop :=
  ∀ a ∈ f.annotations, ¬[';'] <:+ a.toList

/-- The first field stands at the head of its lines. -/
theorem readAnnotated?_field_iff {lines behind : List (List Char)} {f : Field} :
    readAnnotated? [';'] lines = some (f.annotations, f.declaration, behind) ↔
      f.Legible ∧ f.lines.map String.toList ++ behind = lines := by
  rw [readAnnotated?_eq_some_iff [';'] (by decide), Field.Legible, Field.lines]
  simp

instance (f : Field) : Decidable f.Legible :=
  inferInstanceAs (Decidable (∀ a ∈ f.annotations, ¬[';'] <:+ a.toList))

theorem readFields?_eq_some_iff {lines : List (List Char)} {fields : List Field} :
    readFields? lines = some fields ↔
      (∀ f ∈ fields, f.Legible) ∧ (fields.flatMap (·.lines)).map String.toList = lines := by
  fun_induction readFields? lines generalizing fields with
  | case1 =>
    cases fields with
    | nil => simp
    | cons f further => simp [Field.lines]
  | case2 line rest annotations declaration behind h ih =>
    have hfirst := readAnnotated?_field_iff (f := { declaration, annotations }).mp h
    rw [Option.map_eq_some_iff]
    constructor
    · rintro ⟨further, hfurther, rfl⟩
      obtain ⟨hlegible, hbehind⟩ := ih.mp hfurther
      refine ⟨List.forall_mem_cons.mpr ⟨hfirst.1, hlegible⟩, ?_⟩
      rw [List.flatMap_cons, List.map_append, hbehind, hfirst.2]
    · rintro ⟨hlegible, hlines⟩
      cases fields with
      | nil => cases hlines
      | cons f further =>
        obtain ⟨hf, hfurther⟩ := List.forall_mem_cons.mp hlegible
        rw [List.flatMap_cons, List.map_append] at hlines
        have hsame := readAnnotated?_field_iff.mpr ⟨hf, hlines⟩
        rw [h] at hsame
        obtain ⟨rfl, rfl, rfl⟩ := by simpa using hsame
        exact ⟨further, ih.mpr ⟨hfurther, rfl⟩, rfl⟩
  | case3 line rest h =>
    refine iff_of_false (by simp) ?_
    rintro ⟨hlegible, hlines⟩
    cases fields with
    | nil => cases hlines
    | cons f further =>
      rw [List.flatMap_cons, List.map_append] at hlines
      have hsome := readAnnotated?_field_iff.mpr ⟨hlegible f List.mem_cons_self, hlines⟩
      rw [h] at hsome
      cases hsome

/-- A method from its annotations to its closing brace. -/
def readMethod? (lines : List (List Char)) : Option Method := do
  let (annotations, signature, behind) ← readAnnotated? [' ', '{'] lines
  let body ← readInset? (← withoutLast? ['}'] behind)
  return { signature, annotations, body := body.map String.ofList }

/-- None of the annotations of the method could be taken for its head. -/
def Method.Legible (m : Method) : Prop :=
  ∀ a ∈ m.annotations, ¬[' ', '{'] <:+ a.toList

instance (m : Method) : Decidable m.Legible :=
  inferInstanceAs (Decidable (∀ a ∈ m.annotations, ¬[' ', '{'] <:+ a.toList))

theorem readMethod?_eq_some_iff {lines : List (List Char)} {m : Method} :
    readMethod? lines = some m ↔ m.Legible ∧ m.lines.map String.toList = lines := by
  unfold readMethod?
  simp only [Option.bind_eq_bind, Option.bind_eq_some_iff, Option.pure_def, Prod.exists,
    readAnnotated?_eq_some_iff [' ', '{'] (by decide), withoutLast?_eq_some_iff,
    readInset?_eq_some_iff, Option.some.injEq]
  constructor
  · rintro ⟨annotations, signature, behind, ⟨hlegible, rfl⟩, front, rfl, body, rfl, rfl⟩
    refine ⟨hlegible, ?_⟩
    simp [Method.lines, block, toList_indent, Function.comp_def]
  · rintro ⟨hlegible, rfl⟩
    refine ⟨m.annotations, m.signature, (m.body.map indent ++ ["\x7d"]).map String.toList,
      ⟨hlegible, ?_⟩, (m.body.map indent).map String.toList, ?_, m.body.map String.toList, ?_, ?_⟩
    · simp [Method.lines, block]
    · simp
    · simp [toList_indent, Function.comp_def]
    · simp [Function.comp_def]

/-! ### What is inside a class -/

/-- A method, or what looks like one, that is set in. -/
def readBlock? (lines : List (List Char)) : Option Method := do
  readMethod? (← readInset? lines)

/-- The fields and the blocks of a class, from the lines between its head and its closing brace. An
empty line comes before each block. -/
def readInside? (lines : List (List Char)) : Option (List Field × List Method) :=
  match lines.splitOn [] with
  | [] => none
  | first :: further => do
    let fields ← readFields? (← readInset? first)
    let blocks ← further.mapM readBlock?
    return (fields, blocks)

theorem intercalate_nil_cons (first : List (List Char)) (parts : List (List (List Char))) :
    [[]].intercalate (first :: parts) = first ++ parts.flatMap ([] :: ·) := by
  induction parts generalizing first with
  | nil => simp
  | cons part further ih =>
    rw [List.intercalate_cons_cons, ih]
    simp

theorem map_toList_indent (lines : List String) :
    (lines.map indent).map String.toList = (lines.map String.toList).map (inset ++ ·) := by
  simp [toList_indent, Function.comp_def]

theorem readBlock?_eq_some_iff (lines : List (List Char)) (m : Method) :
    readBlock? lines = some m ↔ m.Legible ∧ (m.lines.map indent).map String.toList = lines := by
  simp only [readBlock?, Option.bind_eq_bind, Option.bind_eq_some_iff, readInset?_eq_some_iff,
    readMethod?_eq_some_iff]
  constructor
  · rintro ⟨inner, rfl, hlegible, rfl⟩
    exact ⟨hlegible, map_toList_indent m.lines⟩
  · rintro ⟨hlegible, rfl⟩
    exact ⟨m.lines.map String.toList, (map_toList_indent m.lines).symm, hlegible, rfl⟩

/-- The fields and the blocks of a class as its text has them. -/
def insideLines (fields : List Field) (blocks : List Method) : List String :=
  (fields.flatMap (·.lines)).map indent ++ blocks.flatMap fun m => "" :: m.lines.map indent

theorem map_toList_insideLines (fields : List Field) (blocks : List Method) :
    (insideLines fields blocks).map String.toList =
      ((fields.flatMap (·.lines)).map indent).map String.toList ++
        (blocks.map fun m => (m.lines.map indent).map String.toList).flatMap ([] :: ·) := by
  simp [insideLines, List.flatMap_map, List.map_flatMap]

/-- Lines that are set in are not empty, so that the empty lines are those before the blocks. -/
theorem splitOn_insideLines (fields : List Field) (blocks : List Method) :
    ((insideLines fields blocks).map String.toList).splitOn [] =
      ((fields.flatMap (·.lines)).map indent).map String.toList ::
        blocks.map fun m => (m.lines.map indent).map String.toList := by
  have hnil : ∀ lines : List String, [] ∉ (lines.map indent).map String.toList := by
    intro lines
    simp [toList_indent, inset]
  rw [map_toList_insideLines, ← intercalate_nil_cons]
  refine List.splitOn_intercalate [] (List.forall_mem_cons.mpr ⟨hnil _, ?_⟩) (by simp)
  exact List.forall_mem_map.mpr fun m _ => hnil m.lines

theorem readInside?_eq_some_iff {lines : List (List Char)} {fields : List Field}
    {blocks : List Method} :
    readInside? lines = some (fields, blocks) ↔
      ((∀ f ∈ fields, f.Legible) ∧ ∀ m ∈ blocks, m.Legible) ∧
        (insideLines fields blocks).map String.toList = lines := by
  unfold readInside?
  constructor
  · intro h
    split at h
    next => cases h
    next first further hparts =>
      simp only [Option.bind_eq_bind, Option.bind_eq_some_iff, Option.pure_def, Option.some.injEq,
        Prod.mk.injEq, readInset?_eq_some_iff, readFields?_eq_some_iff,
        mapM_eq_some_iff readBlock?_eq_some_iff] at h
      obtain ⟨inner, rfl, _, ⟨hfields, rfl⟩, _, ⟨hblocks, rfl⟩, rfl, rfl⟩ := h
      refine ⟨⟨hfields, hblocks⟩, ?_⟩
      rw [map_toList_insideLines, map_toList_indent, ← intercalate_nil_cons, ← hparts,
        List.intercalate_splitOn]
  · rintro ⟨⟨hfields, hblocks⟩, rfl⟩
    have hfirst := readInset?_eq_some_iff.mpr (map_toList_indent (fields.flatMap (·.lines))).symm
    have hread := readFields?_eq_some_iff.mpr ⟨hfields, rfl⟩
    have hfurther := (mapM_eq_some_iff readBlock?_eq_some_iff).mpr ⟨hblocks, rfl⟩
    rw [splitOn_insideLines]
    simp only [Option.bind_eq_bind, hfirst, hread, hfurther, Option.bind_some, Option.pure_def]

/-! ### The static block among the blocks -/

/-- The static block as the method that it looks like, if it has lines. -/
def staticBlock (staticInit : List String) : List Method :=
  if staticInit.isEmpty then [] else [{ signature := "static", body := staticInit }]

/-- There are no annotations on the static block. -/
theorem legible_staticBlock (staticInit : List String) : ∀ m ∈ staticBlock staticInit, m.Legible := by
  cases staticInit with
  | nil => exact List.forall_mem_nil _
  | cons line rest => exact List.forall_mem_singleton.mpr (List.forall_mem_nil _)

/-- The lines of the static block and the methods. A block with the head `static` is the static one,
which comes first, has lines and no annotations. -/
def separate? : List Method → Option (List String × List Method)
  | [] => some ([], [])
  | first :: methods =>
    if methods.any (·.signature = "static") then none
    else if first.signature ≠ "static" then some ([], first :: methods)
    else if first.annotations = [] ∧ first.body ≠ [] then some (first.body, methods)
    else none

theorem separate?_eq_some_iff {blocks methods : List Method} {staticInit : List String} :
    separate? blocks = some (staticInit, methods) ↔
      (∀ m ∈ methods, m.signature ≠ "static") ∧ staticBlock staticInit ++ methods = blocks := by
  have hnone : ∀ rest : List Method, rest.any (·.signature = "static") = false ↔
      ∀ m ∈ rest, m.signature ≠ "static" := by simp
  cases blocks with
  | nil =>
    rw [separate?]
    constructor
    · intro h
      obtain ⟨rfl, rfl⟩ := by simpa using h
      exact ⟨List.forall_mem_nil _, rfl⟩
    · rintro ⟨-, h⟩
      obtain ⟨hstatic, rfl⟩ := List.append_eq_nil_iff.mp h
      cases staticInit with
      | nil => rfl
      | cons line rest => cases hstatic
  | cons first further =>
    rw [separate?]
    constructor
    · intro h
      split_ifs at h with hfurther hfirst hstatic
      · obtain ⟨rfl, rfl⟩ := by simpa using h
        have hrest := (hnone further).mp (Bool.eq_false_iff.mpr hfurther)
        exact ⟨List.forall_mem_cons.mpr ⟨hfirst, hrest⟩, rfl⟩
      · obtain ⟨rfl, rfl⟩ := by simpa using h
        refine ⟨(hnone _).mp (Bool.eq_false_iff.mpr hfurther), ?_⟩
        obtain ⟨signature, annotations, body⟩ := first
        obtain rfl : signature = "static" := not_not.mp hfirst
        obtain ⟨rfl, hbody⟩ : annotations = [] ∧ body ≠ [] := hstatic
        simp [staticBlock, hbody]
    · rintro ⟨hmethods, hblocks⟩
      cases staticInit with
      | nil =>
        obtain rfl : methods = first :: further := hblocks
        obtain ⟨hfirst, hfurther⟩ := List.forall_mem_cons.mp hmethods
        rw [(hnone further).mpr hfurther, if_neg Bool.false_ne_true, if_pos hfirst]
      | cons line rest =>
        obtain ⟨rfl, rfl⟩ : _ = first ∧ methods = further := List.cons.inj hblocks
        rw [(hnone methods).mpr hmethods]
        simp

end ContractForge.Java
