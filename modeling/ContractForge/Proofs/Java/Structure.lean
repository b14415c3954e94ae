import ContractForge.Proofs.Java.Blocks

/-!
# Reading the structure of a class

A class can be read back from its source text, line by line.

* `readPackage?`, `readHeadLine?` : what stands before the fields of a class.
* `Class.read?` : the class of a text.
* `Class.Legible` : no string of a class hides where a part of the class begins or ends.

`Class.read?` reads the legible classes and nothing else (`Class.read?_eq_some_iff`), so that no two of
them have one text (`render_keeps_structure`).
-/

namespace ContractForge.Java

/-! ### The head of a class -/

/-- The remark above every class. -/
def remark : String := "// Generated by contractgen. Do not edit."

/-- The lines above the remark, which say the package if there is one. -/
def packageLines (package : String) : List String :=
  if package.isEmpty then [] else ["package " ++ package ++ ";", ""]

/-- The package, and what is behind the remark. -/
def readPackage? : List (List Char) → Option (String × List (List Char))
  | [] => none
  | first :: rest =>
    if first = remark.toList then some ("", rest)
    else do
      let package ← Text.stripEnd? [';'] (← Text.stripStart? "package ".toList first)
      if package ≠ [] ∧ [[], remark.toList] <+: rest then
        return (String.ofList package, rest.drop 2)
      else none

theorem readPackage?_eq_some_iff {lines behind : List (List Char)} {package : String} :
    readPackage? lines = some (package, behind) ↔
      (packageLines package ++ [remark]).map String.toList ++ behind = lines := by
  cases lines with
  | nil => simp [readPackage?]
  | cons first rest =>
    rw [readPackage?]
    constructor
    · intro h
      split at h
      next hremark =>
        obtain ⟨rfl, rfl⟩ := by simpa using h
        simp [packageLines, hremark]
      next =>
        simp only [Option.bind_eq_bind, Option.bind_eq_some_iff, Text.stripStart?_eq_some_iff,
          Text.stripEnd?_eq_some_iff] at h
        obtain ⟨_, rfl, _, rfl, hrest⟩ := h
        split at hrest
        next hpackage =>
          obtain ⟨hne, further, rfl⟩ := hpackage
          obtain ⟨rfl, rfl⟩ := by simpa using hrest
          simp [packageLines, hne]
        next => cases hrest
    · intro h
      by_cases hempty : package = ""
      · obtain ⟨rfl, rfl⟩ : remark.toList = first ∧ behind = rest := by
          simpa [packageLines, hempty] using h
        rw [if_pos rfl, hempty]
      · obtain ⟨rfl, rfl⟩ : ("package " ++ package ++ ";").toList = first ∧
            [] :: remark.toList :: behind = rest := by
          simpa [packageLines, hempty] using h
        have hother : ("package " ++ package ++ ";").toList ≠ remark.toList := by
          simp [remark]
        have hread : Text.stripStart? "package ".toList ("package " ++ package ++ ";").toList =
            some (package.toList ++ [';']) := by
          rw [Text.stripStart?_eq_some_iff]
          simp
        rw [if_neg hother, hread]
        simp [hempty]

/-- The names behind a word, set off by commas. Each comes after a blank. -/
def readNames? (s : List Char) : Option (List String) := do
  let names ← (Text.segments ',' s).mapM (Text.stripStart? [' '])
  return names.map String.ofList

theorem joinSegments_names {names : List String} (hne : names ≠ []) :
    Text.joinSegments ',' (names.map fun name => [' '] ++ name.toList) =
      ' ' :: (", ".intercalate names).toList := by
  rw [String.toList_intercalate]
  induction names with
  | nil => exact absurd rfl hne
  | cons name rest ih =>
    cases rest with
    | nil => simp [Text.joinSegments]
    | cons next further =>
      have hfurther := ih (by simp)
      rw [List.map_cons] at hfurther
      rw [List.map_cons, List.map_cons, Text.joinSegments_cons_cons, hfurther]
      simp [List.intercalate_cons_cons]

theorem readNames?_eq_some_iff {s : List Char} {names : List String} :
    readNames? s = some names ↔ names ≠ [] ∧ (∀ name ∈ names, ',' ∉ name.toList) ∧
      ' ' :: (", ".intercalate names).toList = s := by
  simp only [readNames?, Option.bind_eq_bind, Option.bind_eq_some_iff, Option.pure_def,
    mapM_stripStart?_eq_some_iff, Option.some.injEq]
  constructor
  · rintro ⟨parts, hparts, rfl⟩
    have hne : parts ≠ [] := by
      rintro rfl
      exact Text.segments_ne_nil ',' s hparts.symm
    have hnames : (parts.map String.ofList).map (fun name => [' '] ++ name.toList) =
        Text.segments ',' s := by
      simpa [Function.comp_def] using hparts
    refine ⟨by simpa using hne, fun name hname hcomma => ?_, ?_⟩
    · have hpart : [' '] ++ name.toList ∈ Text.segments ',' s := hnames ▸ List.mem_map_of_mem hname
      exact (Text.of_mem_segments hpart).1 (List.mem_append_right _ hcomma)
    · rw [← joinSegments_names (by simpa using hne), hnames, Text.joinSegments_segments]
  · rintro ⟨hne, hcommas, rfl⟩
    refine ⟨names.map String.toList, ?_, by simp [Function.comp_def]⟩
    rw [← joinSegments_names hne, Text.segments_joinSegments (by simpa using hne)]
    · rw [List.map_map]
      rfl
    · simpa using hcommas

/-- The head of a class without its package. -/
def headLine (name : String) (implements : List String) : String :=
  "public class " ++ name ++
    (if implements.isEmpty then "" else " implements " ++ ", ".intercalate implements) ++ " \x7b"

/-- The text before the first blank, and the text from it on. -/
def readWord (s : List Char) : List Char × List Char :=
  (s.takeWhile (· ≠ ' '), s.dropWhile (· ≠ ' '))

theorem readWord_eq_iff {s word behind : List Char} :
    readWord s = (word, behind) ↔
      (' ' ∉ word ∧ ∀ c ∈ behind.head?, c = ' ') ∧ word ++ behind = s := by
  rw [readWord, Prod.mk.injEq]
  constructor
  · rintro ⟨rfl, rfl⟩
    refine ⟨⟨fun hmem => ?_, fun c hc => ?_⟩, List.takeWhile_append_dropWhile⟩
    · simpa using List.all_eq_true.mp List.all_takeWhile _ hmem
    · have hstop := List.head?_dropWhile_not (fun c => decide (c ≠ ' ')) s
      rw [Option.mem_def.mp hc] at hstop
      simpa using hstop
  · rintro ⟨⟨hword, hbehind⟩, rfl⟩
    have hne : ∀ c ∈ word, decide (c ≠ ' ') = true := by
      intro c hc
      rw [decide_eq_true_iff]
      rintro rfl
      exact hword hc
    rw [List.takeWhile_append_of_pos hne, List.dropWhile_append_of_pos hne]
    cases behind with
    | nil => simp
    | cons c rest => simp [hbehind c rfl]

/-- The name of a class and the interfaces that it implements, from its head. -/
def readHeadLine? (line : List Char) : Option (String × List String) := do
  let s ← Text.stripEnd? [' ', '{'] (← Text.stripStart? "public class ".toList line)
  let (name, behind) := readWord s
  if behind = [] then return (String.ofList name, [])
  else return (String.ofList name, ← readNames? (← Text.stripStart? " implements".toList behind))

theorem readHeadLine?_eq_some_iff {line : List Char} {name : String} {implements : List String} :
    readHeadLine? line = some (name, implements) ↔
      ' ' ∉ name.toList ∧ (∀ i ∈ implements, ',' ∉ i.toList) ∧
        (headLine name implements).toList = line := by
  unfold readHeadLine?
  simp only [Option.bind_eq_bind, Option.bind_eq_some_iff, Text.stripStart?_eq_some_iff,
    Text.stripEnd?_eq_some_iff, Option.pure_def]
  constructor
  · rintro ⟨_, rfl, s, rfl, h⟩
    rcases hread : readWord s with ⟨word, behind⟩
    obtain ⟨⟨hblank, -⟩, rfl⟩ := readWord_eq_iff.mp hread
    rw [hread] at h
    split at h
    next hbehind =>
      obtain rfl : behind = [] := hbehind
      obtain ⟨rfl, rfl⟩ := by simpa using h
      exact ⟨by simpa using hblank, List.forall_mem_nil _, by simp [headLine]⟩
    next =>
      simp only [Option.bind_eq_some_iff, Text.stripStart?_eq_some_iff,
        readNames?_eq_some_iff, Option.some.injEq, Prod.mk.injEq] at h
      obtain ⟨_, rfl, names, ⟨hne, hcommas, rfl⟩, rfl, rfl⟩ := h
      exact ⟨by simpa using hblank, hcommas, by simp [headLine, hne]⟩
  · rintro ⟨hname, hcommas, rfl⟩
    cases implements with
    | nil =>
      have hread : readWord name.toList = (name.toList, []) :=
        readWord_eq_iff.mpr ⟨⟨hname, by simp⟩, List.append_nil _⟩
      refine ⟨name.toList ++ [' ', '{'], by simp [headLine], name.toList, rfl, ?_⟩
      rw [hread]
      simp
    | cons first further =>
      have hnames := readNames?_eq_some_iff.mpr ⟨List.cons_ne_nil first further, hcommas, rfl⟩
      have hread : readWord (name.toList ++ (" implements".toList ++
          ' ' :: (", ".intercalate (first :: further)).toList)) = (name.toList, _) :=
        readWord_eq_iff.mpr ⟨⟨hname, by simp⟩, rfl⟩
      refine ⟨name.toList ++ (" implements".toList ++
          ' ' :: (", ".intercalate (first :: further)).toList) ++ [' ', '{'],
        by simp [headLine], _, rfl, ?_⟩
      rw [hread]
      dsimp only
      rw [if_neg (by simp), Text.stripStart?_append, Option.bind_some, hnames, Option.bind_some,
        String.ofList_toList]

/-! ### Classes -/

namespace Class

/-- The class of some lines. -/
def ofLines? (lines : List (List Char)) : Option Class := do
  let (package, lines) ← readPackage? lines
  let (name, implements) ← readHeadLine? (← lines.head?)
  let (fields, blocks) ← readInside? (← withoutLast? ['}'] lines.tail)
  let (staticInit, methods) ← separate? blocks
  return { package, name, implements, fields, staticInit, methods }

/-- The class of a text. -/
def read? (text : String) : Option Class := do
  ofLines? (← readLines? text)

/-- All strings of a class. -/
def texts (c : Class) : List String :=
  c.package :: c.name :: c.implements ++ c.fields.flatMap (fun f => f.annotations ++ [f.declaration]) ++
    c.staticInit ++ c.methods.flatMap fun m => m.annotations ++ m.signature :: m.body

/-- No string of the class hides where a part of it begins or ends. A semicolon in the package, a comma
in the name of the class, a blank in an interface and an interface without a name do no harm. -/
structure Legible (c : Class) : Prop where
  texts : ∀ s ∈ c.texts, '\n' ∉ s.toList
  name : ' ' ∉ c.name.toList
  implements : ∀ i ∈ c.implements, ',' ∉ i.toList
  fields : ∀ f ∈ c.fields, f.Legible
  methods : ∀ m ∈ c.methods, m.Legible
  signatures : ∀ m ∈ c.methods, m.signature ≠ "static"

theorem map_memberLine_lines (m : Method) : m.lines.map memberLine = m.lines.map indent := by
  refine List.map_congr_left fun line hline => ?_
  have hne : line ≠ "" := by
    rintro rfl
    simp [Method.lines, block, annotationLine, indent] at hline
  rw [memberLine, if_neg (by simpa using hne)]

theorem members_eq (c : Class) : c.members = (staticBlock c.staticInit ++ c.methods).map (·.lines) := by
  rw [members, staticBlock, List.map_append]
  cases c.staticInit <;> rfl

/-- The lines of a class are those of its head, its fields, its static block and its methods. -/
theorem lines_eq (c : Class) :
    c.lines = packageLines c.package ++ [remark] ++ headLine c.name c.implements ::
      (insideLines c.fields (staticBlock c.staticInit ++ c.methods) ++ ["\x7d"]) := by
  have hhead : c.headLines = packageLines c.package ++ [remark, headLine c.name c.implements] := rfl
  rw [lines, hhead, members_eq, List.flatMap_map]
  simp only [map_memberLine_lines]
  simp [insideLines]

theorem newline_not_mem_intercalate_iff {names : List String} :
    '\n' ∉ (", ".intercalate names).toList ↔ ∀ name ∈ names, '\n' ∉ name.toList := by
  rw [String.toList_intercalate]
  induction names with
  | nil => simp
  | cons name rest ih =>
    cases rest with
    | nil => simp
    | cons next further =>
      rw [List.forall_mem_cons, ← ih, List.map_cons, List.map_cons, List.intercalate_cons_cons,
        ← List.map_cons]
      simp

theorem newline_not_mem_packageLines_iff {package : String} :
    (∀ line ∈ packageLines package, '\n' ∉ line.toList) ↔ '\n' ∉ package.toList := by
  rw [packageLines]
  by_cases h : package = ""
  · simp [h]
  · simp [h]

theorem newline_not_mem_headLine_iff {name : String} {implements : List String} :
    '\n' ∉ (headLine name implements).toList ↔
      '\n' ∉ name.toList ∧ ∀ i ∈ implements, '\n' ∉ i.toList := by
  rw [← newline_not_mem_intercalate_iff, headLine]
  cases implements with
  | nil => simp
  | cons first further => simp

theorem newline_not_mem_insideLines_iff {fields : List Field} {blocks : List Method} :
    (∀ line ∈ insideLines fields blocks, '\n' ∉ line.toList) ↔
      (∀ s ∈ fields.flatMap fun f => f.annotations ++ [f.declaration], '\n' ∉ s.toList) ∧
        ∀ s ∈ blocks.flatMap fun m => m.annotations ++ m.signature :: m.body, '\n' ∉ s.toList := by
  simp only [insideLines, List.forall_mem_map, List.forall_mem_flatMap, Field.lines, Method.lines,
    block, List.forall_mem_append, List.forall_mem_cons]
  simp [toList_indent, toList_annotationLine, inset]

theorem newline_not_mem_lines_iff {c : Class} :
    (∀ line ∈ c.lines, '\n' ∉ line.toList) ↔ ∀ s ∈ c.texts, '\n' ∉ s.toList := by
  have hstatic : (∀ s ∈ (staticBlock c.staticInit).flatMap
      fun m => m.annotations ++ m.signature :: m.body, '\n' ∉ s.toList) ↔
        ∀ s ∈ c.staticInit, '\n' ∉ s.toList := by
    cases c.staticInit with
    | nil => simp [staticBlock]
    | cons line rest => simp [staticBlock]
  have hremark : '\n' ∉ remark.toList := by decide
  rw [lines_eq, texts]
  simp only [List.forall_mem_append, List.forall_mem_cons, newline_not_mem_packageLines_iff,
    newline_not_mem_headLine_iff, newline_not_mem_insideLines_iff, List.flatMap_append, hstatic]
  simp [hremark, and_assoc]

theorem ofLines?_eq_some_iff {lines : List (List Char)} (hlines : ∀ line ∈ lines, '\n' ∉ line)
    {c : Class} : ofLines? lines = some c ↔ c.Legible ∧ c.lines.map String.toList = lines := by
  unfold ofLines?
  simp only [Option.bind_eq_bind, Option.bind_eq_some_iff, Option.pure_def, Prod.exists,
    readPackage?_eq_some_iff, readHeadLine?_eq_some_iff, readInside?_eq_some_iff,
    withoutLast?_eq_some_iff, separate?_eq_some_iff, Option.some.injEq, List.head?_eq_some_iff]
  constructor
  · rintro ⟨package, behind, hpackage, head, ⟨inside, rfl⟩, name, implements,
      ⟨hname, himplements, rfl⟩, body, hbody, fields, blocks, ⟨⟨hfields, hblocks⟩, rfl⟩,
      staticInit, methods, ⟨hsignatures, rfl⟩, rfl⟩
    have hwhole : (Class.lines { package, name, implements, fields, staticInit, methods }).map
        String.toList = lines := by
      obtain rfl : _ = inside := hbody
      rw [lines_eq, ← hpackage]
      simp
    refine ⟨⟨?_, hname, himplements, hfields, fun m hm => hblocks m (List.mem_append_right _ hm),
      hsignatures⟩, hwhole⟩
    rw [← newline_not_mem_lines_iff]
    exact fun line hline => hlines _ (hwhole ▸ List.mem_map_of_mem hline)
  · rintro ⟨hlegible, rfl⟩
    have hblocks : ∀ m ∈ staticBlock c.staticInit ++ c.methods, m.Legible :=
      List.forall_mem_append.mpr ⟨legible_staticBlock c.staticInit, hlegible.methods⟩
    refine ⟨c.package, (headLine c.name c.implements ::
        (insideLines c.fields (staticBlock c.staticInit ++ c.methods) ++ ["\x7d"])).map String.toList,
      ?_, _, ⟨_, rfl⟩, c.name, c.implements,
      ⟨hlegible.name, hlegible.implements, rfl⟩, _, ?_, c.fields, _,
      ⟨⟨hlegible.fields, hblocks⟩, rfl⟩, c.staticInit, c.methods, ⟨hlegible.signatures, rfl⟩, rfl⟩
    · rw [lines_eq]
      simp
    · simp

/-- What is read is a legible class with that text. -/
theorem read?_eq_some_iff {text : String} {c : Class} :
    read? text = some c ↔ c.Legible ∧ c.render = text := by
  rw [read?, Option.bind_eq_bind, Option.bind_eq_some_iff, ← String.toList_inj, toList_render_lines]
  constructor
  · rintro ⟨lines, hread, hclass⟩
    obtain ⟨hlines, htext⟩ := readLines?_eq_some_iff.mp hread
    obtain ⟨hlegible, rfl⟩ := (ofLines?_eq_some_iff hlines).mp hclass
    exact ⟨hlegible, htext⟩
  · rintro ⟨hlegible, htext⟩
    have hlines : ∀ line ∈ c.lines.map String.toList, '\n' ∉ line :=
      List.forall_mem_map.mpr (newline_not_mem_lines_iff.mpr hlegible.texts)
    exact ⟨_, readLines?_eq_some_iff.mpr ⟨hlines, htext⟩,
      (ofLines?_eq_some_iff hlines).mpr ⟨hlegible, rfl⟩⟩

/-- The static block stands between the fields and the methods, if it has lines. -/
theorem lines_eq_parts (c : Class) :
    c.lines = c.headLines ++ (c.fields.flatMap (·.lines)).map indent ++
      (if c.staticInit = [] then [] else "" :: (block "static" c.staticInit).map indent) ++
      c.methods.flatMap (fun m => "" :: m.lines.map indent) ++ ["\x7d"] := by
  have hstatic : (staticBlock c.staticInit).flatMap (fun m => "" :: m.lines.map indent) =
      if c.staticInit = [] then [] else "" :: (block "static" c.staticInit).map indent := by
    cases c.staticInit with
    | nil => rfl
    | cons line rest => simp [staticBlock, Method.lines]
  rw [lines, members_eq, List.flatMap_map]
  simp only [map_memberLine_lines, List.flatMap_append, hstatic, List.append_assoc]

end Class

/-- **Rendering keeps the structure of a class.** A legible class is read back from its text, with its
package, name and interfaces, and with every annotation, field, method and line in order. Nothing else is
read, so two legible classes with one text are the same. The lines of the text are those of the head, the
fields, the static block, which is written only if it has lines, and the methods. -/
theorem render_keeps_structure :
    (∀ text c, Class.read? text = some c ↔ c.Legible ∧ c.render = text) ∧
    (∀ c d : Class, c.Legible → d.Legible → c.render = d.render → c = d) ∧
    ∀ c : Class, c.Legible → Text.segments '\n' c.render.toList =
      (c.headLines ++ (c.fields.flatMap (·.lines)).map indent ++
        (if c.staticInit = [] then [] else "" :: (block "static" c.staticInit).map indent) ++
        c.methods.flatMap (fun m => "" :: m.lines.map indent) ++ ["\x7d"]).map String.toList ++
          [[]] := by
  refine ⟨fun text c => Class.read?_eq_some_iff, fun c d hc hd htext => ?_, fun c hc => ?_⟩
  · have hsame : some c = some d := by
      rw [← Class.read?_eq_some_iff.mpr ⟨hc, htext⟩, Class.read?_eq_some_iff.mpr ⟨hd, rfl⟩]
    exact Option.some.inj hsame
  · rw [Class.toList_render_lines, segments_lines, Class.lines_eq_parts]
    exact List.forall_mem_map.mpr (Class.newline_not_mem_lines_iff.mpr hc.texts)

/-- A class whose strings look like other parts of a class wherever they may. -/
def annotatedClass : Class where
  package := "a.b;"
  name := "Impl,"
  implements := ["a.B", "", "a.C"]
  fields := [{ declaration := "@x int i", annotations := ["A \x7b", ""] }, { declaration := "" }]
  staticInit := ["i0();", ""]
  methods := [
    { signature := "Impl()" },
    { signature := "static int x()", annotations := ["Override", "B;"], body := ["", "\x7d", "return i;"] }]

theorem render_keeps_structure_annotatedClass :
    annotatedClass.Legible ∧ Class.read? annotatedClass.render = some annotatedClass ∧
      ∀ d : Class, d.Legible → annotatedClass.render = d.render → annotatedClass = d := by
  have hlegible : annotatedClass.Legible :=
    ⟨by decide, by decide, by decide, by decide, by decide, by decide⟩
  obtain ⟨hread, hunique, -⟩ := render_keeps_structure
  exact ⟨hlegible, (hread _ _).mpr ⟨hlegible, rfl⟩, fun d => hunique annotatedClass d hlegible⟩

-- A method with the head `static` would be taken for the static block.
example :
    Class.lines { package := "", name := "A", staticInit := ["x"] } =
      Class.lines { package := "", name := "A", methods := [{ signature := "static", body := ["x"] }] } :=
  rfl

end ContractForge.Java
