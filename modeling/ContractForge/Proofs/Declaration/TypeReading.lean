import ContractForge.Java.Class
import Mathlib.Data.List.Basic
import Mathlib.Data.Nat.Init

/-!
# Reading type references

The text of a type is its raw name, and for a type with arguments also `<`, the texts of the arguments
with `, ` between them and `>`. It can be read back where no raw name has one of these marks, however
deep it stands (`Unmarked`).

* `TypeRef.readType`, `TypeRef.readArguments` : recursive readers for the head of a text, which give
  back what is left of it.
* `TypeRef.parse?` : reads a whole text.
* `Balanced` : every closing bracket closes one that is open, and none stays open.

`TypeRef.parse?_eq_some_iff` : what is read is an unmarked type with that text, so that two types cannot
have the same one.
-/

namespace ContractForge

namespace TypeRef

/-- The character sets off arguments. -/
def isMark (c : Char) : Bool :=
  c == '<' || c == '>' || c == ','

/-- No raw name of the type or of its arguments has a mark. -/
inductive Unmarked : TypeRef → Prop where
  | mk {name : String} {args : List TypeRef} (hname : ∀ c ∈ name.toList, isMark c = false)
    (hargs : ∀ t ∈ args, Unmarked t) : Unmarked (mk name args)

/-- What is left of a text behind something at its head. -/
abbrev Rest (s : List Char) := { rest : List Char // rest.length ≤ s.length }

/-- The raw name at the head of a text. -/
def headName (s : List Char) : String :=
  String.ofList (s.takeWhile (!isMark ·))

/-- What follows the raw name. -/
def behindName (s : List Char) : Rest s :=
  ⟨s.dropWhile (!isMark ·), (List.dropWhile_sublist _).length_le⟩

mutual

/-- Reads the type at the head of a text. -/
def readType (s : List Char) : Option (TypeRef × Rest s) :=
  match behindName s with
  | ⟨'<' :: rest, h⟩ =>
    match readArguments rest with
    | some (args, behind) =>
      some (mk (headName s) args, ⟨behind.1, by
        have hbehind := behind.2
        rw [List.length_cons] at h
        omega⟩)
    | none => none
  | behind => some (mk (headName s) [], behind)
termination_by (s.length, 0)

/-- Reads one argument or more at the head of a text, and the bracket that closes them. -/
def readArguments (s : List Char) : Option (List TypeRef × Rest s) :=
  match readType s with
  | some (t, ⟨'>' :: rest, h⟩) => some ([t], ⟨rest, by
      rw [List.length_cons] at h
      omega⟩)
  | some (t, ⟨',' :: ' ' :: rest, h⟩) =>
    match readArguments rest with
    | some (ts, behind) => some (t :: ts, ⟨behind.1, by
        have hbehind := behind.2
        rw [List.length_cons, List.length_cons] at h
        omega⟩)
    | none => none
  | _ => none
termination_by (s.length, 1)
decreasing_by
  · exact .right _ (by omega)
  · exact .left _ _ (by rw [List.length_cons, List.length_cons] at h; omega)

end

/-- The type that a text stands for, if it is the text of one. -/
def parse? (text : String) : Option TypeRef :=
  match readType text.toList with
  | some (t, ⟨[], _⟩) => some t
  | _ => none

/-! ### What the readers read -/

/-- The type is read at the head of the text, and the rest is left. -/
def ReadsType (s : List Char) (t : TypeRef) (rest : List Char) : Prop :=
  ∃ h, readType s = some (t, ⟨rest, h⟩)

/-- The arguments with the bracket behind them are read at the head of the text. -/
def ReadsArguments (s : List Char) (ts : List TypeRef) (rest : List Char) : Prop :=
  ∃ h, readArguments s = some (ts, ⟨rest, h⟩)

/-- A type may stand before the text: nothing in it would be taken for a part of the type. -/
def EndsType (rest : List Char) : Prop :=
  ∀ c ∈ rest.head?, c = '>' ∨ c = ','

variable {name rest s : List Char} {t : TypeRef} {ts : List TypeRef}

theorem headName_append (hname : ∀ c ∈ name, isMark c = false)
    (hrest : ∀ c ∈ rest.head?, isMark c = true) :
    headName (name ++ rest) = String.ofList name ∧ (behindName (name ++ rest)).1 = rest := by
  have hplain : ∀ c ∈ name, (!isMark c) = true := by simpa using hname
  have htake : rest.takeWhile (!isMark ·) = [] := by
    cases rest with
    | nil => rfl
    | cons c rest => simp [hrest c rfl]
  have hdrop : rest.dropWhile (!isMark ·) = rest := by
    cases rest with
    | nil => rfl
    | cons c rest => simp [hrest c rfl]
  constructor
  · rw [headName, List.takeWhile_append_of_pos hplain, htake, List.append_nil]
  · show (name ++ rest).dropWhile (!isMark ·) = rest
    rw [List.dropWhile_append_of_pos hplain, hdrop]

theorem isMark_of_endsType (h : EndsType rest) : ∀ c ∈ rest.head?, isMark c = true := by
  intro c hc
  rcases h c hc with rfl | rfl
  · rfl
  · rfl

/-- A raw name without arguments. -/
theorem readsType_name (hname : ∀ c ∈ name, isMark c = false) (hrest : EndsType rest) :
    ReadsType (name ++ rest) (mk (String.ofList name) []) rest := by
  obtain ⟨hhead, hbehind⟩ := headName_append hname (isMark_of_endsType hrest)
  have hle := (behindName (name ++ rest)).2
  rw [hbehind] at hle
  refine ⟨hle, ?_⟩
  have hsame : behindName (name ++ rest) = ⟨rest, hle⟩ := Subtype.ext hbehind
  rw [readType, hsame, hhead]
  split
  next inner h heq =>
    -- a type that ends here has no bracket behind it
    obtain rfl := (Subtype.mk.inj heq)
    simpa using hrest '<' rfl
  next => rfl

/-- A raw name with arguments. -/
theorem readsType_generic (hname : ∀ c ∈ name, isMark c = false) (h : ReadsArguments s ts rest) :
    ReadsType (name ++ '<' :: s) (mk (String.ofList name) ts) rest := by
  have hopens : ∀ c ∈ ('<' :: s).head?, isMark c = true := by simp [isMark]
  obtain ⟨hhead, hbehind⟩ := headName_append hname hopens
  have hle := (behindName (name ++ '<' :: s)).2
  rw [hbehind] at hle
  obtain ⟨hrest, hread⟩ := h
  have hlength : rest.length ≤ (name ++ '<' :: s).length := by
    rw [List.length_cons] at hle
    omega
  refine ⟨hlength, ?_⟩
  have hsame : behindName (name ++ '<' :: s) = ⟨'<' :: s, hle⟩ := Subtype.ext hbehind
  rw [readType, hsame, hhead]
  simp only [hread]

theorem readsArguments_last (h : ReadsType s t ('>' :: rest)) : ReadsArguments s [t] rest := by
  obtain ⟨hle, hread⟩ := h
  have hlength : rest.length ≤ s.length := by
    rw [List.length_cons] at hle
    omega
  refine ⟨hlength, ?_⟩
  rw [readArguments, hread]
  rfl

theorem readsArguments_further (h : ReadsType s t (',' :: ' ' :: rest)) {behind : List Char}
    (hmore : ReadsArguments rest ts behind) : ReadsArguments s (t :: ts) behind := by
  obtain ⟨hle, hread⟩ := h
  obtain ⟨hbehind, hmore⟩ := hmore
  have hlength : behind.length ≤ s.length := by
    rw [List.length_cons, List.length_cons] at hle
    omega
  refine ⟨hlength, ?_⟩
  rw [readArguments, hread]
  simp only [hmore]

/-! ### Reading back what is written -/

theorem readsArguments_sourceChars
    (h : ∀ u ∈ t :: ts, ∀ rest, EndsType rest → ReadsType (u.sourceChars ++ rest) u rest)
    (rest : List Char) : ReadsArguments (t.sourceChars ++ (furtherChars ts ++ rest)) (t :: ts) rest := by
  obtain ⟨ht, hts⟩ := List.forall_mem_cons.mp h
  induction ts generalizing t with
  | nil => exact readsArguments_last (ht ('>' :: rest) (by simp [EndsType]))
  | cons u us ih =>
    obtain ⟨hu, hus⟩ := List.forall_mem_cons.mp hts
    have hmore := ih hts hu hus
    have hsource : furtherChars (u :: us) ++ rest =
        ',' :: ' ' :: (u.sourceChars ++ (furtherChars us ++ rest)) := by
      simp [furtherChars]
    rw [hsource]
    exact readsArguments_further (ht _ (by simp [EndsType])) hmore

theorem Unmarked.readsType (h : t.Unmarked) {rest : List Char} (hrest : EndsType rest) :
    ReadsType (t.sourceChars ++ rest) t rest := by
  induction h generalizing rest with
  | @mk name args hname hargs ih =>
    rw [sourceChars]
    cases args with
    | nil =>
      have hread := readsType_name hname hrest
      rw [String.ofList_toList] at hread
      simpa [argumentChars] using hread
    | cons t ts =>
      have hread := readsType_generic hname (readsArguments_sourceChars ih rest)
      rw [String.ofList_toList] at hread
      simpa [argumentChars] using hread

/-! ### What is read has the text -/

theorem not_isMark_headName (s : List Char) : ∀ c ∈ (headName s).toList, isMark c = false := by
  intro c hc
  rw [headName, String.toList_ofList] at hc
  simpa using List.all_eq_true.mp List.all_takeWhile c hc

theorem headName_append_behindName (s : List Char) : (headName s).toList ++ (behindName s).1 = s := by
  rw [headName, String.toList_ofList]
  exact List.takeWhile_append_dropWhile

mutual

theorem unmarked_of_readType (s : List Char) {t : TypeRef} {behind : Rest s}
    (h : readType s = some (t, behind)) : t.Unmarked ∧ s = t.sourceChars ++ behind.1 := by
  have hname := not_isMark_headName s
  have hsplit := headName_append_behindName s
  rw [readType] at h
  split at h
  next rest hle hbehind =>
    rw [hbehind] at hsplit
    split at h
    next args inner hread =>
      obtain ⟨rfl, rfl⟩ := Prod.mk.inj (Option.some.inj h)
      obtain ⟨u, us, rfl, hargs, hrest⟩ := unmarked_of_readArguments rest hread
      refine ⟨.mk hname hargs, ?_⟩
      calc s = (headName s).toList ++ '<' :: rest := hsplit.symm
        _ = (headName s).toList ++ '<' :: (u.sourceChars ++ (furtherChars us ++ inner.1)) :=
          congrArg (fun rest => (headName s).toList ++ '<' :: rest) hrest
        _ = (mk (headName s) (u :: us)).sourceChars ++ inner.1 := by
          simp [sourceChars, argumentChars]
    next => cases h
  next =>
    obtain ⟨rfl, rfl⟩ := Prod.mk.inj (Option.some.inj h)
    refine ⟨.mk hname (List.forall_mem_nil _), ?_⟩
    rw [sourceChars, argumentChars, List.append_nil]
    exact hsplit.symm
termination_by (s.length, 0)

theorem unmarked_of_readArguments (s : List Char) {ts : List TypeRef} {behind : Rest s}
    (h : readArguments s = some (ts, behind)) :
    ∃ u us, ts = u :: us ∧ (∀ t ∈ ts, t.Unmarked) ∧
      s = u.sourceChars ++ (furtherChars us ++ behind.1) := by
  rw [readArguments] at h
  split at h
  next t rest hle hread =>
    obtain ⟨rfl, rfl⟩ := Prod.mk.inj (Option.some.inj h)
    obtain ⟨ht, hs⟩ := unmarked_of_readType s hread
    exact ⟨t, [], rfl, List.forall_mem_singleton.mpr ht, hs⟩
  next t rest hle hread =>
    obtain ⟨ht, hs⟩ := unmarked_of_readType s hread
    split at h
    next us inner hmore =>
      obtain ⟨rfl, rfl⟩ := Prod.mk.inj (Option.some.inj h)
      have hshorter : rest.length < s.length := by
        rw [List.length_cons, List.length_cons] at hle
        omega
      obtain ⟨v, vs, rfl, hvs, hrest⟩ := unmarked_of_readArguments rest hmore
      refine ⟨t, v :: vs, rfl, List.forall_mem_cons.mpr ⟨ht, hvs⟩, ?_⟩
      calc s = t.sourceChars ++ ',' :: ' ' :: rest := hs
        _ = t.sourceChars ++ ',' :: ' ' :: (v.sourceChars ++ (furtherChars vs ++ inner.1)) :=
          congrArg (fun rest => t.sourceChars ++ ',' :: ' ' :: rest) hrest
        _ = t.sourceChars ++ (furtherChars (v :: vs) ++ inner.1) := by
          simp [furtherChars]
    next => cases h
  next => cases h
termination_by (s.length, 1)

end

/-- The text of an unmarked type is read as that type, and nothing else is read. -/
theorem parse?_eq_some_iff {text : String} :
    parse? text = some t ↔ t.Unmarked ∧ t.sourceName = text := by
  unfold parse?
  constructor
  · intro h
    split at h
    next u hle hread =>
      obtain rfl := Option.some.inj h
      obtain ⟨hu, htext⟩ := unmarked_of_readType _ hread
      rw [List.append_nil] at htext
      exact ⟨hu, by rw [sourceName, ← htext, String.ofList_toList]⟩
    next => cases h
  · rintro ⟨ht, rfl⟩
    have hread : ReadsType t.sourceName.toList t [] := by
      rw [sourceName, String.toList_ofList]
      simpa using ht.readsType (nofun : EndsType [])
    obtain ⟨hle, hread⟩ := hread
    rw [hread]

end TypeRef

/-! ### Brackets -/

/-- Every closing bracket closes one that is open, and none stays open. -/
structure Balanced (s : List Char) : Prop where
  opened : ∀ n, (s.take n).count '>' ≤ (s.take n).count '<'
  closed : s.count '<' = s.count '>'

namespace Balanced

variable {s s' : List Char}

theorem of_not_mem (hopen : '<' ∉ s) (hclose : '>' ∉ s) : Balanced s := by
  refine ⟨fun n => ?_, ?_⟩
  · rw [List.count_eq_zero.mpr fun hmem => hclose (List.mem_of_mem_take hmem)]
    exact Nat.zero_le _
  · rw [List.count_eq_zero.mpr hopen, List.count_eq_zero.mpr hclose]

theorem append (h : Balanced s) (h' : Balanced s') : Balanced (s ++ s') := by
  refine ⟨fun n => ?_, ?_⟩
  · rw [List.take_append, List.count_append, List.count_append]
    exact Nat.add_le_add (h.opened n) (h'.opened (n - s.length))
  · rw [List.count_append, List.count_append, h.closed, h'.closed]

theorem flatMap {α : Type} {f : α → List Char} {xs : List α} (h : ∀ x ∈ xs, Balanced (f x)) :
    Balanced (xs.flatMap f) := by
  induction xs with
  | nil => exact of_not_mem List.not_mem_nil List.not_mem_nil
  | cons x rest ih =>
    obtain ⟨hx, hrest⟩ := List.forall_mem_cons.mp h
    exact hx.append (ih hrest)

/-- Brackets around a balanced text. -/
theorem enclosed (h : Balanced s) : Balanced ('<' :: (s ++ ['>'])) := by
  refine ⟨fun n => ?_, ?_⟩
  · cases n with
    | zero => simp
    | succ n =>
      -- the opening bracket pays for the closing one
      have hinside := h.opened n
      have hend : (['>'].take (n - s.length)).count '>' ≤ 1 :=
        (List.take_sublist _ _).count_le '>'
      rw [List.take_succ_cons, List.take_append, List.count_cons, List.count_cons, List.count_append,
        List.count_append]
      simp
      omega
  · have hclosed := h.closed
    simp [hclosed]

end Balanced

namespace TypeRef

theorem furtherChars_eq (ts : List TypeRef) :
    furtherChars ts = (ts.flatMap fun t => [',', ' '] ++ t.sourceChars) ++ ['>'] := by
  induction ts with
  | nil => rfl
  | cons t ts ih => simp [furtherChars, ih]

theorem Unmarked.balanced {t : TypeRef} (h : t.Unmarked) : Balanced t.sourceChars := by
  induction h with
  | @mk name args hname hargs ih =>
    have hmark : ∀ c, isMark c = true → c ∉ name.toList := by
      intro c hc hmem
      rw [hname c hmem] at hc
      cases hc
    have hbrackets : Balanced (argumentChars args) := by
      cases args with
      | nil => exact .of_not_mem List.not_mem_nil List.not_mem_nil
      | cons t ts =>
        obtain ⟨ht, hts⟩ := List.forall_mem_cons.mp ih
        have hseparator : Balanced [',', ' '] := .of_not_mem (by decide) (by decide)
        have hfurther := Balanced.flatMap fun u hu => hseparator.append (hts u hu)
        have henclosed := (ht.append hfurther).enclosed
        simpa [argumentChars, furtherChars_eq] using henclosed
    exact (Balanced.of_not_mem (hmark '<' rfl) (hmark '>' rfl)).append hbrackets

end TypeRef

/-! ### The types of methods -/

namespace Method

/-- The types of a method: what it returns, then its parameters. -/
def types (m : Method) : List TypeRef :=
  m.returns :: m.params.map (·.type)

/-- The texts of the types of a method, in the same order. -/
def typeTexts (m : Method) : List String :=
  m.types.map (·.sourceName)

/-- A method that is implemented has these texts in its signature. -/
theorem signature_overriding (m : Method) (body : List String) :
    ∃ result params, m.typeTexts = result :: params ∧
      (Java.Method.overriding m body).signature =
        "public " ++ result ++ " " ++ m.name ++ "(" ++ ", ".intercalate
          (List.zipWith (fun type name => type ++ " " ++ name) params (m.params.map (·.name))) ++ ")" := by
  refine ⟨m.returns.sourceName, (m.params.map (·.type)).map (·.sourceName), rfl, ?_⟩
  rw [List.map_map, List.zipWith_map, List.zipWith_self]
  rfl

end Method

theorem TypeRef.eq_of_map_sourceName {ts us : List TypeRef} (hts : ∀ t ∈ ts, t.Unmarked)
    (hus : ∀ u ∈ us, u.Unmarked) (h : ts.map (·.sourceName) = us.map (·.sourceName)) : ts = us := by
  -- the texts tell the types, which are read back one by one
  have hread : ∀ vs : List TypeRef, (∀ v ∈ vs, v.Unmarked) →
      (vs.map (·.sourceName)).map parse? = vs.map some := by
    intro vs hvs
    rw [List.map_map]
    exact List.map_congr_left fun v hv => parse?_eq_some_iff.mpr ⟨hvs v hv, rfl⟩
  have hsome : ts.map some = us.map some := by
    rw [← hread ts hts, h, hread us hus]
  exact List.map_injective_iff.mpr (fun _ _ => Option.some.inj) hsome

/-- **Types render unambiguously.** Two types without marks in their names have different texts, with
balanced brackets, from which they can be read back. So the signatures of two methods that differ in a
type are written with different texts. -/
theorem sourceName_unambiguous :
    (∀ t u : TypeRef, t.Unmarked → u.Unmarked → t.sourceName = u.sourceName → t = u) ∧
    (∀ t : TypeRef, t.Unmarked →
      Balanced t.sourceName.toList ∧ TypeRef.parse? t.sourceName = some t) ∧
    (∀ m m' : Method, (∀ t ∈ m.types, t.Unmarked) → (∀ t ∈ m'.types, t.Unmarked) →
      m.types ≠ m'.types → m.typeTexts ≠ m'.typeTexts) ∧
    ∀ (m : Method) (body : List String), ∃ result params, m.typeTexts = result :: params ∧
      (Java.Method.overriding m body).signature =
        "public " ++ result ++ " " ++ m.name ++ "(" ++ ", ".intercalate
          (List.zipWith (fun type name => type ++ " " ++ name) params (m.params.map (·.name))) ++
          ")" := by
  have hread : ∀ t : TypeRef, t.Unmarked → TypeRef.parse? t.sourceName = some t :=
    fun t ht => TypeRef.parse?_eq_some_iff.mpr ⟨ht, rfl⟩
  refine ⟨fun t u ht hu htext => ?_, fun t ht => ⟨?_, hread t ht⟩, fun m m' hm hm' hne htexts => ?_,
    Method.signature_overriding⟩
  · have hsome : some t = some u := by
      rw [← hread t ht, htext, hread u hu]
    exact Option.some.inj hsome
  · rw [TypeRef.sourceName, String.toList_ofList]
    exact ht.balanced
  · exact hne (TypeRef.eq_of_map_sourceName hm hm' htexts)

/-- A type whose arguments have arguments, an empty name among them. -/
def nestedType : TypeRef :=
  .mk "java.util.Map" [.plain "java.lang.String", .mk "java.util.List" [.plain "a.User", .plain ""]]

theorem sourceName_unambiguous_nested :
    nestedType.Unmarked ∧ Balanced nestedType.sourceName.toList ∧
      TypeRef.parse? nestedType.sourceName = some nestedType ∧
      ∀ u : TypeRef, u.Unmarked → nestedType.sourceName = u.sourceName → nestedType = u := by
  have hname : ∀ name : String, name.toList.all (!TypeRef.isMark ·) = true →
      ∀ c ∈ name.toList, TypeRef.isMark c = false := by simp
  have hplain : ∀ name : String, name.toList.all (!TypeRef.isMark ·) = true →
      (TypeRef.plain name).Unmarked := fun name h => .mk (hname name h) (List.forall_mem_nil _)
  have hlist : (TypeRef.mk "java.util.List" [.plain "a.User", .plain ""]).Unmarked :=
    .mk (hname _ (by decide)) (List.forall_mem_cons.mpr ⟨hplain _ (by decide),
      List.forall_mem_singleton.mpr (hplain _ (by decide))⟩)
  have hnested : nestedType.Unmarked :=
    .mk (hname _ (by decide)) (List.forall_mem_cons.mpr ⟨hplain _ (by decide),
      List.forall_mem_singleton.mpr hlist⟩)
  obtain ⟨hunique, hread, -, -⟩ := sourceName_unambiguous
  obtain ⟨hbalanced, hparse⟩ := hread nestedType hnested
  exact ⟨hnested, hbalanced, hparse, fun u hu => hunique nestedType u hnested hu⟩

end ContractForge
