import ContractForge.Proofs.Digest.Base64
import ContractForge.Proofs.Generation.Units
import ContractForge.Proofs.Java.ClassReading
import ContractForge.Resource.Embedding

/-!
# What embedded classes hold

* `Encoding.initial`, `Encoding.program` : the value that the data field starts with, and the
  statements that fill it.
* `embeddedMembers` : the members of an embedded class.

`readClass?_embeddedClass` : these members are read from the source text of the class.
`initialize?_raw`, `initialize?_text` : what the field holds once they have been executed.
-/

namespace ContractForge

open Java (Statement Member Data)

namespace Encoding

/-- The value that the data field starts with. -/
def initial (e : Encoding) (size : Nat) : Data :=
  match e with
  | raw => .array (List.replicate size 0)
  | text => .builder []

/-- The statements that fill the data field. -/
def program (e : Encoding) (bytes : List UInt8) : List Statement :=
  match e with
  | raw => Java.assignFrom 0 (bytes.map signed)
  | text => (Base64.encode bytes).map .append

theorem signed_mem_byte (b : UInt8) : -128 ≤ signed b ∧ signed b ≤ 127 := by
  have := b.toNat_lt
  unfold signed
  split <;> omega

theorem signed_emod (b : UInt8) : signed b % 256 = b.toNat := by
  have := b.toNat_lt
  unfold signed
  split <;> omega

/-- The characters of base64 text need no escape. -/
theorem isBare_of_mem_encode {bytes : List UInt8} {c : Char} (hc : c ∈ Base64.encode bytes) :
    Java.isBare c = true := by
  have halphabet : Base64.alphabet.all Java.isBare = true := rfl
  rcases Base64.mem_alphabet_of_mem_encode hc with hmem | rfl
  · exact List.all_eq_true.mp halphabet c hmem
  · rfl

theorem bare_of_mem_program {e : Encoding} {bytes : List UInt8} {s : Statement}
    (hs : s ∈ e.program bytes) : s.Bare := by
  cases s with
  | assign i v => trivial
  | append c =>
    cases e with
    | raw =>
      obtain ⟨i, v, -, heq⟩ := Java.exists_of_mem_assignFrom hs
      cases heq
    | text =>
      obtain ⟨d, hd, heq⟩ := List.mem_map.mp hs
      cases heq
      exact isBare_of_mem_encode hd

theorem map_toList_assignments (index : Nat) (bytes : List UInt8) :
    (assignments index bytes).map String.toList =
      (Java.assignFrom index (bytes.map signed)).map Statement.source := by
  induction bytes generalizing index with
  | nil => rfl
  | cons b rest ih =>
    have hsource : (s!"data[{index}] = {signed b};").toList =
        (Statement.assign index (signed b)).source := by
      rw [Statement.source_assign]
      simp only [String.toList_append, Java.toList_integer, Nat.toString_eq_ofList_toDigits,
        String.toList_ofList, List.append_assoc]
      rfl
    rw [assignments, List.map_cons, List.map_cons, Java.assignFrom, List.map_cons, ih, hsource]

theorem map_toList_statements (e : Encoding) (bytes : List UInt8) :
    (e.statements bytes).map String.toList = (e.program bytes).map Statement.source := by
  cases e with
  | raw => exact map_toList_assignments 0 bytes
  | text =>
    have hsource : ∀ c : Char, (append c).toList = (Statement.append c).source := by
      intro c
      show ("data.append('" ++ c.toString ++ "');").toList = _
      rw [Statement.source_append, String.toList_append, String.toList_append, List.append_assoc,
        Char.toString_eq_singleton, String.toList_singleton]
    simp only [statements, program, List.map_map, Function.comp_def, hsource]

theorem readField?_field (e : Encoding) (size : Nat) :
    Java.readField? (e.field size).toList = some (.field (e.initial size)) := by
  cases e with
  | raw =>
    have hstart : "public static final byte[] data = new byte[".toList =
        "public static final ".toList ++ "byte[] data = new byte[".toList := by decide
    have hfield : (field raw size).toList = "public static final ".toList ++
        ("byte[] data = new byte[".toList ++ (Nat.toDigits 10 size ++ [']'])) := by
      show ("public static final byte[] data = new byte[" ++ Nat.repr size ++ "]").toList = _
      rw [String.toList_append, String.toList_append, Nat.toList_repr, hstart, List.append_assoc,
        List.append_assoc]
      rfl
    rw [hfield, Java.readField?_array]
    rfl
  | text => exact Java.readField?_builder

end Encoding

/-! ### Units -/

/-- A unit with its statements as they are read. -/
def InitializerUnit.read (unit : InitializerUnit) : String × List Statement :=
  (unit.name, unit.statements.filterMap fun s => Java.readStatement? s.toList)

/-- Every line of the unit is the source text of a statement without an escape. -/
def InitializerUnit.Readable (unit : InitializerUnit) : Prop :=
  ∀ line ∈ unit.statements, ∃ s : Statement, s.Bare ∧ line.toList = s.source

theorem filterMap_readStatement? {program : List Statement} (hbare : ∀ s ∈ program, s.Bare) :
    (program.map Statement.source).filterMap Java.readStatement? = program := by
  induction program with
  | nil => rfl
  | cons s rest ih =>
    rw [List.map_cons, List.filterMap_cons,
      Java.readStatement?_source (hbare s List.mem_cons_self),
      ih fun t ht => hbare t (List.mem_cons_of_mem _ ht)]

theorem InitializerUnit.Readable.map_source {unit : InitializerUnit} (h : unit.Readable) :
    unit.statements.map String.toList = unit.read.2.map Statement.source ∧
      ∀ s ∈ unit.read.2, s.Bare := by
  obtain ⟨name, lines⟩ := unit
  induction lines with
  | nil => exact ⟨rfl, by simp [read]⟩
  | cons line rest ih =>
    obtain ⟨s, hbare, hline⟩ := h line List.mem_cons_self
    obtain ⟨hsources, hrest⟩ := ih fun l hl => h l (List.mem_cons_of_mem _ hl)
    have hread : (read ⟨name, line :: rest⟩).2 = s :: (read ⟨name, rest⟩).2 := by
      simp only [read, List.filterMap_cons, hline, Java.readStatement?_source hbare]
    rw [hread, List.map_cons, List.map_cons, hline]
    refine ⟨congrArg _ hsources, ?_⟩
    intro t ht
    rcases List.mem_cons.mp ht with rfl | hmem
    · exact hbare
    · exact hrest t hmem

def embeddedUnits (e : Encoding) (chunkSize : Nat) (bytes : List UInt8) : List InitializerUnit :=
  batches chunkSize unitStem (e.statements bytes)

variable {e : Encoding} {chunkSize : Nat} {bytes : List UInt8}

theorem readable_of_mem_embeddedUnits {unit : InitializerUnit}
    (hunit : unit ∈ embeddedUnits e chunkSize bytes) : unit.Readable := by
  intro line hline
  have hstatement : line ∈ e.statements bytes := by
    rw [← flatMap_batches chunkSize unitStem (e.statements bytes)]
    exact List.mem_flatMap_of_mem hunit hline
  have hsource := List.mem_map_of_mem (f := String.toList) hstatement
  rw [Encoding.map_toList_statements] at hsource
  obtain ⟨s, hs, heq⟩ := List.mem_map.mp hsource
  exact ⟨s, Encoding.bare_of_mem_program hs, heq.symm⟩

/-- The units hold the program, in order. -/
theorem flatMap_read_embeddedUnits (e : Encoding) (chunkSize : Nat) (bytes : List UInt8) :
    ((embeddedUnits e chunkSize bytes).map (·.read)).flatMap (·.2) = e.program bytes := by
  have hlines : (e.statements bytes).filterMap (fun s => Java.readStatement? s.toList) =
      e.program bytes := by
    show (e.statements bytes).filterMap (Java.readStatement? ∘ String.toList) = _
    rw [← List.filterMap_map, Encoding.map_toList_statements]
    exact filterMap_readStatement? fun s hs => Encoding.bare_of_mem_program hs
  rw [List.flatMap_map, ← hlines, ← flatMap_batches chunkSize unitStem (e.statements bytes),
    List.filterMap_flatMap]
  rfl

theorem isIdentifier_unitName (k : Nat) : Java.isIdentifier (unitName unitStem k) = true := by
  have hchars : (unitName unitStem k).toList = 'i' :: Nat.toDigits 10 k := by
    rw [unitName, String.toList_append, Nat.toString_eq_ofList_toDigits, String.toList_ofList]
    rfl
  have hdigit : ∀ c ∈ Nat.toDigits 10 k, Java.isNameChar c = true := by
    intro c hc
    have hc := Nat.isDigit_of_mem_toDigits (by omega) (by omega) hc
    simp [Java.isNameChar, Char.isAlphanum, hc]
  rw [Java.isIdentifier, hchars]
  exact Bool.and_eq_true_iff.mpr ⟨by decide, List.all_eq_true.mpr hdigit⟩

theorem isIdentifier_of_mem_embeddedUnits {unit : InitializerUnit}
    (hunit : unit ∈ embeddedUnits e chunkSize bytes) : Java.isIdentifier unit.name = true := by
  have hname := List.mem_map_of_mem (f := (·.name)) hunit
  rw [embeddedUnits, names_batches] at hname
  obtain ⟨k, -, hk⟩ := List.mem_map.mp hname
  rw [← hk]
  exact isIdentifier_unitName k

/-! ### Source text -/

/-- The lines of a unit after the empty line that sets it off. -/
def InitializerUnit.blockLines (unit : InitializerUnit) : List (List Char) :=
  Java.blockLines ("private static void ".toList ++ (unit.name.toList ++ "()".toList))
    (unit.statements.map String.toList)

/-- Methods with readable statements are read back, up to the end of the class. -/
theorem readMembers?_blockLines {units : List InitializerUnit}
    (hname : ∀ unit ∈ units, Java.isIdentifier unit.name = true)
    (hread : ∀ unit ∈ units, unit.Readable) :
    Java.readMembers? none ((units.flatMap fun unit => [] :: unit.blockLines) ++ [['}'], []]) =
      some (Java.unitMembers (units.map (·.read))) := by
  induction units with
  | nil => exact Java.readMembers?_end
  | cons unit rest ih =>
    obtain ⟨hsources, hbare⟩ := (hread unit List.mem_cons_self).map_source
    have hmember := Java.readMember?_method (hname unit List.mem_cons_self) hbare
    have hrest := ih (fun u hu => hname u (List.mem_cons_of_mem _ hu))
      fun u hu => hread u (List.mem_cons_of_mem _ hu)
    rw [← hsources] at hmember
    rw [List.flatMap_cons, List.append_assoc, List.cons_append, InitializerUnit.blockLines,
      Java.readMembers?_block hmember, hrest]
    rfl

/-- The members of an embedded class. -/
def embeddedMembers (e : Encoding) (chunkSize : Nat) (bytes : List UInt8) : List Member :=
  let units := (embeddedUnits e chunkSize bytes).map (·.read)
  .field (e.initial bytes.length) :: .initializer (units.map (·.1)) :: Java.unitMembers units

/-- The lines of an embedded class after its head. -/
def embeddedLines (e : Encoding) (chunkSize : Nat) (bytes : List UInt8) : List (List Char) :=
  let units := embeddedUnits e chunkSize bytes
  (Java.inset ++ ((e.field bytes.length).toList ++ [';'])) ::
    ([] :: (Java.blockLines "static".toList
        (units.map fun unit => (unit.name ++ "();").toList) ++
      ((units.flatMap fun unit => [] :: unit.blockLines) ++ [['}']])))

theorem members_embeddedClass (e : Encoding) (chunkSize : Nat) (space name : String)
    (bytes : List UInt8) :
    (embeddedClass e chunkSize space name bytes).members =
      Java.block "static" (invocations (embeddedUnits e chunkSize bytes)) ::
        (embeddedUnits e chunkSize bytes).map fun unit => unit.method.lines := by
  have hcalls : (invocations (embeddedUnits e chunkSize bytes)).isEmpty = false := by
    have hne := batches_ne_nil chunkSize unitStem (e.statements bytes)
    simpa [invocations, embeddedUnits] using hne
  show (if (invocations (embeddedUnits e chunkSize bytes)).isEmpty then []
    else [Java.block "static" (invocations (embeddedUnits e chunkSize bytes))]) ++
      ((embeddedUnits e chunkSize bytes).map (·.method)).map (·.lines) = _
  rw [hcalls, List.map_map]
  rfl

theorem map_toList_method (unit : InitializerUnit) :
    (unit.method.lines.map Java.Class.memberLine).map String.toList = unit.blockLines := by
  have hsignature : unit.method.signature.toList =
      "private static void ".toList ++ (unit.name.toList ++ "()".toList) := by
    show ("private static void " ++ unit.name ++ "()").toList = _
    rw [String.toList_append, String.toList_append, List.append_assoc]
  show ((Java.block unit.method.signature unit.statements).map Java.Class.memberLine).map
    String.toList = _
  rw [Java.Class.map_memberLine_block, hsignature]
  rfl

/-- Every unit is set off by an empty line. -/
theorem map_toList_methods (units : List InitializerUnit) :
    ((units.map fun unit => unit.method.lines).flatMap
        fun m => "" :: m.map Java.Class.memberLine).map String.toList =
      units.flatMap fun unit => [] :: unit.blockLines := by
  rw [List.flatMap_map, List.map_flatMap]
  exact congrArg (List.flatMap · _) (funext fun unit => congrArg _ (map_toList_method unit))

theorem map_toList_memberLines (e : Encoding) (chunkSize : Nat) (space name : String)
    (bytes : List UInt8) :
    (embeddedClass e chunkSize space name bytes).memberLines.map String.toList =
      embeddedLines e chunkSize bytes := by
  have hfields : (((embeddedClass e chunkSize space name bytes).fields.flatMap (·.lines)).map
      Java.indent).map String.toList = [Java.inset ++ ((e.field bytes.length).toList ++ [';'])] := by
    show [("    " ++ (e.field bytes.length ++ ";")).toList] = _
    rw [String.toList_append, String.toList_append]
    rfl
  rw [Java.Class.memberLines, members_embeddedClass, List.map_append, List.map_append, hfields,
    List.flatMap_cons, List.map_append, map_toList_methods, List.map_cons,
    Java.Class.map_memberLine_block, invocations, List.map_map, embeddedLines]
  simp only [List.cons_append, List.nil_append, List.append_assoc]
  rfl

theorem newline_not_mem_field (e : Encoding) (size : Nat) : '\n' ∉ (e.field size).toList := by
  cases e with
  | raw =>
    unfold Encoding.field
    simp only [String.toList_append, List.mem_append, Nat.toString_eq_ofList_toDigits,
      String.toList_ofList, not_or]
    exact ⟨⟨by decide, Java.newline_not_mem_toDigits size⟩, by decide⟩
  | text =>
    show '\n' ∉ "public static final StringBuilder data = new StringBuilder()".toList
    decide

theorem newline_not_mem_unit {unit : InitializerUnit}
    (hunit : unit ∈ embeddedUnits e chunkSize bytes) :
    ∀ line ∈ unit.blockLines, '\n' ∉ line := by
  have hname := Java.newline_not_mem_identifier (isIdentifier_of_mem_embeddedUnits hunit)
  refine Java.newline_not_mem_blockLines ?_ ?_
  · simp only [List.mem_append, not_or]
    exact ⟨by decide, hname, by decide⟩
  · intro line hline
    obtain ⟨text, htext, rfl⟩ := List.mem_map.mp hline
    obtain ⟨s, hbare, hs⟩ := readable_of_mem_embeddedUnits hunit text htext
    rw [hs]
    exact Java.newline_not_mem_source hbare

theorem newline_not_mem_embeddedLines :
    ∀ line ∈ embeddedLines e chunkSize bytes, '\n' ∉ line := by
  have hcalls : ∀ line ∈ (embeddedUnits e chunkSize bytes).map fun unit =>
      (unit.name ++ "();").toList, '\n' ∉ line := by
    intro line hline
    obtain ⟨unit, hunit, rfl⟩ := List.mem_map.mp hline
    rw [String.toList_append, List.mem_append, not_or]
    exact ⟨Java.newline_not_mem_identifier (isIdentifier_of_mem_embeddedUnits hunit), by decide⟩
  intro line hline
  simp only [embeddedLines, List.mem_cons, List.mem_append, List.mem_flatMap, List.not_mem_nil,
    or_false] at hline
  rcases hline with rfl | rfl | hstatic | ⟨unit, hunit, rfl | hmem⟩ | rfl
  · simp [Java.inset, newline_not_mem_field]
  · exact List.not_mem_nil
  · exact Java.newline_not_mem_blockLines (by decide) hcalls line hstatic
  · exact List.not_mem_nil
  · exact newline_not_mem_unit hunit line hmem
  · decide

/-- The static block of an embedded class calls its units. -/
theorem readMember?_embeddedUnits (e : Encoding) (chunkSize : Nat) (bytes : List UInt8) :
    Java.readMember? "static".toList
        ((embeddedUnits e chunkSize bytes).map fun unit => (unit.name ++ "();").toList) =
      some (.initializer ((embeddedUnits e chunkSize bytes).map (·.name))) := by
  have hnames : ∀ name ∈ (embeddedUnits e chunkSize bytes).map (·.name),
      Java.isIdentifier name = true := by
    intro name hname
    obtain ⟨unit, hunit, rfl⟩ := List.mem_map.mp hname
    exact isIdentifier_of_mem_embeddedUnits hunit
  have hread := Java.readMember?_static hnames
  rwa [List.map_map] at hread

theorem readMembers?_embeddedLines (e : Encoding) (chunkSize : Nat) (bytes : List UInt8) :
    Java.readMembers? none (embeddedLines e chunkSize bytes ++ [[]]) =
      some (embeddedMembers e chunkSize bytes) := by
  have hunits := readMembers?_blockLines
    (fun unit (hunit : unit ∈ embeddedUnits e chunkSize bytes) =>
      isIdentifier_of_mem_embeddedUnits hunit)
    fun unit hunit => readable_of_mem_embeddedUnits hunit
  rw [embeddedLines]
  simp only [List.cons_append, List.append_assoc, List.nil_append]
  rw [Java.readMembers?_field (Encoding.readField?_field e bytes.length),
    Java.readMembers?_block (readMember?_embeddedUnits e chunkSize bytes), hunits, embeddedMembers,
    List.map_map]
  rfl

/-- The members of an embedded class are read from its source text. -/
theorem readClass?_embeddedClass (e : Encoding) (chunkSize : Nat) (space name : String)
    (bytes : List UInt8) :
    Java.readClass? space name (embeddedClass e chunkSize space name bytes).render =
      some (embeddedMembers e chunkSize bytes) := by
  have hcontent := Java.Class.toList_render
    (c := embeddedClass e chunkSize space name bytes) rfl
  rw [map_toList_memberLines] at hcontent
  exact (Java.readClass?_lines hcontent newline_not_mem_embeddedLines).trans
    (readMembers?_embeddedLines e chunkSize bytes)

/-! ### Execution -/

theorem initialize?_embeddedMembers {result : Data}
    (hrun : (e.program bytes).foldlM Statement.run (e.initial bytes.length) = some result) :
    Java.initialize? (embeddedMembers e chunkSize bytes) = some (result, e.program bytes) := by
  have hnames : (((embeddedUnits e chunkSize bytes).map (·.read)).map (·.1)).Nodup := by
    rw [List.map_map]
    exact nodup_names_batches chunkSize unitStem (e.statements bytes)
  have hprogram := flatMap_read_embeddedUnits e chunkSize bytes
  rw [← hprogram] at hrun ⊢
  exact Java.initialize?_units hnames hrun

/-- Executing a raw class leaves the signed bytes in the array. -/
theorem initialize?_raw (chunkSize : Nat) (bytes : List UInt8) :
    Java.initialize? (embeddedMembers .raw chunkSize bytes) =
      some (.array (bytes.map Encoding.signed), Java.assignFrom 0 (bytes.map Encoding.signed)) := by
  refine initialize?_embeddedMembers (e := .raw) ?_
  have hbyte : ∀ v ∈ bytes.map Encoding.signed, -128 ≤ v ∧ v ≤ 127 := by
    intro v hv
    obtain ⟨b, -, rfl⟩ := List.mem_map.mp hv
    exact Encoding.signed_mem_byte b
  exact Java.foldlM_assignFrom hbyte [] (by simp)

/-- Executing a text class leaves the base64 text in the builder. -/
theorem initialize?_text (chunkSize : Nat) (bytes : List UInt8) :
    Java.initialize? (embeddedMembers .text chunkSize bytes) =
      some (.builder (Base64.encode bytes), (Base64.encode bytes).map .append) :=
  initialize?_embeddedMembers (e := .text) (Java.foldlM_append (Base64.encode bytes) [])

end ContractForge
