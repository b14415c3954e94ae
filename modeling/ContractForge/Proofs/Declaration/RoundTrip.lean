import ContractForge.Declaration.Writing
import ContractForge.Loading
import ContractForge.Proofs.Json.Records
import Mathlib.Data.Nat.Basic
import Mathlib.Order.MinMax

/-!
# Manifests are read back as they were written

For each kind of declaration

* `toFields` : the fields of its record, with those that are left out;
* `plain_toJson` : it is written without numbers and without strings that have no text;
* `restores_read` : its reader gives back what was written, as long as it is not nested too deep.

So a manifest that is written down from a valid set of declarations is parsed to the same set
(`Manifest.parse_written`). Only the arguments of types can nest it too deep
(`DeclarationSet.depth_toJson_le_iff`).
-/

namespace ContractForge

open Json
open Json.Value (array ofFields itemsDepth fieldDepth unlessEmpty)

/-! ### Types -/

namespace TypeRef

theorem listToJson_eq (ts : List TypeRef) : listToJson ts = ts.map toJson := by
  induction ts with
  | nil => rfl
  | cons t ts ih => rw [listToJson, ih, List.map_cons]

def toFields (t : TypeRef) : List (String × Option Value) :=
  [("name", some (.text t.name)), ("args", unlessEmpty toJson t.args)]

theorem toJson_eq (t : TypeRef) : t.toJson = ofFields t.toFields := by
  obtain ⟨name, args⟩ := t
  cases args with
  | nil => rfl
  | cons t ts =>
    rw [toJson, argsToJson, listToJson_eq]
    rfl

mutual

@[simp] theorem plain_toJson : (t : TypeRef) → t.toJson.Plain
  | mk name args => by
    rw [toJson_eq]
    apply Value.plain_ofFields
    have hargs := Value.fieldPlain_unlessEmpty (plain_args args)
    simpa [toFields, TypeRef.args] using hargs

theorem plain_args : (ts : List TypeRef) → ∀ t ∈ ts, t.toJson.Plain
  | [] => by
    intro t ht
    cases ht
  | u :: us => by
    intro t ht
    rcases List.mem_cons.mp ht with heq | hrest
    · rw [heq]
      exact plain_toJson u
    · exact plain_args us t hrest

end

/-- A type is read back if the fuel of the reader is enough for the room that is left. -/
theorem restores_fueled (fuel : Nat) : Restores fuel (read form fuel) toJson := by
  induction fuel with
  | zero =>
    intro t room hroom
    obtain rfl := Nat.le_zero.mp hroom
    rw [toJson_eq, Value.depth_ofFields, if_neg (Nat.not_succ_le_zero _)]
    rfl
  | succ fuel ih =>
    rw [funext toJson_eq]
    apply Restores.ofFields ["name", "args"] toFields (by decide) (fun _ => rfl)
    intro t room hroom
    obtain ⟨name, args⟩ := t
    have hargs := ih.unlessEmpty args (Nat.le_of_lt_succ hroom)
    simp [toFields, TypeRef.name, TypeRef.args, hargs]

theorem restores_read : Restores nestingLimit (read form typeDepth) toJson :=
  (restores_fueled typeDepth).mono (by decide)

end TypeRef

/-! ### Members of types and contracts -/

namespace Parameter

def toFields (p : Parameter) : List (String × Option Value) :=
  [("name", some (.text p.name)), ("type", some p.type.toJson)]

@[simp] theorem plain_toJson (p : Parameter) : p.toJson.Plain := by
  show (ofFields p.toFields).Plain
  apply Value.plain_ofFields
  simp [toFields]

theorem restores_read : Restores nestingLimit (read form) toJson := by
  apply Restores.ofFields ["name", "type"] toFields (by decide) (fun _ => rfl)
  intro p room hroom
  have htype := TypeRef.restores_read p.type room (Nat.le_of_lt hroom)
  simp [toFields, htype]

end Parameter

namespace Markers

def toFields (m : Markers) : List (String × Option Value) :=
  [("path", m.path.map .text), ("verbs", unlessEmpty .text m.verbs),
    ("resource", m.resource.map .text)]

theorem toJson_eq (m : Markers) : m.toJson = ofFields m.toFields := by
  obtain ⟨path, verbs, resource⟩ := m
  cases path <;> cases verbs <;> cases resource <;> rfl

@[simp] theorem plain_toJson (m : Markers) : m.toJson.Plain := by
  rw [toJson_eq]
  apply Value.plain_ofFields
  simp [toFields, Value.fieldPlain_unlessEmpty]

theorem restores_read : Restores nestingLimit (read form) toJson := by
  rw [funext toJson_eq]
  apply Restores.ofFields ["path", "verbs", "resource"] toFields (by decide) (fun _ => rfl)
  intro m room hroom
  have hverbs := (restores_text room).unlessEmpty m.verbs (Nat.le_refl room)
  simp only [toFields, List.map, optional_text, hverbs, Option.bind_eq_bind, Option.bind_some,
    Json.Value.fieldsDepth, fieldDepth_text, Nat.max_zero, Nat.zero_max]
  exact bind_ite_some _ _

end Markers

namespace Method

def toFields (m : Method) : List (String × Option Value) :=
  [("name", some (.text m.name)), ("params", some (array (m.params.map Parameter.toJson))),
    ("returns", some m.returns.toJson), ("markers", some m.markers.toJson)]

@[simp] theorem plain_toJson (m : Method) : m.toJson.Plain := by
  show (ofFields m.toFields).Plain
  apply Value.plain_ofFields
  simp [toFields, Value.plain_list]

theorem restores_read : Restores nestingLimit (read form) toJson := by
  apply Restores.ofFields ["name", "params", "returns", "markers"] toFields (by decide) (fun _ => rfl)
  intro m room hroom
  have hparams := Parameter.restores_read.list m.params room (Nat.le_of_lt hroom)
  have hreturns := TypeRef.restores_read m.returns room (Nat.le_of_lt hroom)
  have hmarkers := Markers.restores_read m.markers room (Nat.le_of_lt hroom)
  simp [toFields, hparams, hreturns, hmarkers, ite_and]

end Method

namespace Field

def toFields (f : Field) : List (String × Option Value) :=
  [("name", some (.text f.name)), ("type", some f.type.toJson), ("public", some (.bool f.isPublic))]

@[simp] theorem plain_toJson (f : Field) : f.toJson.Plain := by
  show (ofFields f.toFields).Plain
  apply Value.plain_ofFields
  simp [toFields]

theorem restores_read : Restores nestingLimit (read form) toJson := by
  apply Restores.ofFields ["name", "type", "public"] toFields (by decide) (fun _ => rfl)
  intro f room hroom
  have htype := TypeRef.restores_read f.type room (Nat.le_of_lt hroom)
  simp [toFields, htype]

end Field

namespace MemberMethod

def toFields (m : MemberMethod) : List (String × Option Value) :=
  [("name", some (.text m.name)), ("params", some (array (m.params.map Parameter.toJson))),
    ("returns", some m.returns.toJson), ("public", some (.bool m.isPublic))]

@[simp] theorem plain_toJson (m : MemberMethod) : m.toJson.Plain := by
  show (ofFields m.toFields).Plain
  apply Value.plain_ofFields
  simp [toFields, Value.plain_list]

theorem restores_read : Restores nestingLimit (read form) toJson := by
  apply Restores.ofFields ["name", "params", "returns", "public"] toFields (by decide) (fun _ => rfl)
  intro m room hroom
  have hparams := Parameter.restores_read.list m.params room (Nat.le_of_lt hroom)
  have hreturns := TypeRef.restores_read m.returns room (Nat.le_of_lt hroom)
  simp [toFields, hparams, hreturns, ite_and]

end MemberMethod

/-! ### Contracts, types and sets of both -/

namespace Contract

def toFields (c : Contract) : List (String × Option Value) :=
  [("name", some (.text c.name)), ("messages", some (.bool c.messages)),
    ("methods", some (array (c.methods.map Method.toJson)))]

@[simp] theorem plain_toJson (c : Contract) : c.toJson.Plain := by
  show (ofFields c.toFields).Plain
  apply Value.plain_ofFields
  simp [toFields, Value.plain_list]

theorem restores_read : Restores nestingLimit (read form) toJson := by
  apply Restores.ofFields ["name", "messages", "methods"] toFields (by decide) (fun _ => rfl)
  intro c room hroom
  have hmethods := Method.restores_read.list c.methods room (Nat.le_of_lt hroom)
  simp [toFields, hmethods]

end Contract

namespace TypeDecl

def toFields (d : TypeDecl) : List (String × Option Value) :=
  [("name", some (.text d.name)), ("fields", some (array (d.fields.map Field.toJson))),
    ("methods", some (array (d.methods.map MemberMethod.toJson)))]

@[simp] theorem plain_toJson (d : TypeDecl) : d.toJson.Plain := by
  show (ofFields d.toFields).Plain
  apply Value.plain_ofFields
  simp [toFields, Value.plain_list]

theorem restores_read : Restores nestingLimit (read form) toJson := by
  apply Restores.ofFields ["name", "fields", "methods"] toFields (by decide) (fun _ => rfl)
  intro d room hroom
  have hfields := Field.restores_read.list d.fields room (Nat.le_of_lt hroom)
  have hmethods := MemberMethod.restores_read.list d.methods room (Nat.le_of_lt hroom)
  simp [toFields, hfields, hmethods, ite_and]

end TypeDecl

namespace DeclarationSet

def toFields (set : DeclarationSet) : List (String × Option Value) :=
  [("contracts", some (array (set.contracts.map Contract.toJson))),
    ("types", some (array (set.types.map TypeDecl.toJson)))]

theorem plain_toJson (set : DeclarationSet) : set.toJson.Plain := by
  show (ofFields set.toFields).Plain
  apply Value.plain_ofFields
  simp [toFields, Value.plain_list]

theorem restores_read : Restores nestingLimit (read form) toJson := by
  apply Restores.ofFields ["contracts", "types"] toFields (by decide) (fun _ => rfl)
  intro set room hroom
  have hcontracts := Contract.restores_read.list set.contracts room (Nat.le_of_lt hroom)
  have htypes := TypeDecl.restores_read.list set.types room (Nat.le_of_lt hroom)
  simp [toFields, hcontracts, htypes, ite_and]

end DeclarationSet

/-! ### How deep types may be nested -/

namespace TypeRef

mutual

/-- How many levels of arguments a type has. -/
def nesting : TypeRef → Nat
  | mk _ args => argsNesting args

/-- How many levels of arguments there are from given arguments on. -/
def argsNesting : List TypeRef → Nat
  | [] => 0
  | t :: ts => max (t.nesting + 1) (argsNesting ts)

end

mutual

theorem depth_toJson : (t : TypeRef) → t.toJson.depth = 2 * t.nesting + 1
  | mk name args => by
    rw [toJson_eq, Value.depth_ofFields]
    have hargs := fieldDepth_args args
    simp [toFields, TypeRef.args, hargs, nesting]

theorem fieldDepth_args : (ts : List TypeRef) →
    fieldDepth (unlessEmpty toJson ts) = 2 * argsNesting ts
  | [] => rfl
  | t :: ts => by
    have ht := depth_toJson t
    have hts := fieldDepth_args ts
    show max t.toJson.depth (itemsDepth (ts.map toJson)) + 1 =
      2 * max (t.nesting + 1) (argsNesting ts)
    -- without further arguments there is no field that the recursion could be about
    cases ts with
    | nil =>
      simp only [List.map_nil, itemsDepth, argsNesting]
      omega
    | cons u us =>
      change itemsDepth ((u :: us).map toJson) + 1 = _ at hts
      omega

end

end TypeRef

theorem Markers.depth_toJson_le (m : Markers) : m.toJson.depth ≤ 2 := by
  have hverbs : fieldDepth (unlessEmpty .text m.verbs) ≤ 1 := by
    cases m.verbs with
    | nil => exact Nat.zero_le 1
    | cons verb verbs =>
      apply Value.depth_list_le_iff.mpr
      intro s _
      exact Nat.le_of_eq (Value.depth_text s)
  rw [toJson_eq, Value.depth_ofFields]
  simpa [toFields] using hverbs

theorem Parameter.depth_toJson (p : Parameter) : p.toJson.depth = p.type.toJson.depth + 1 := by
  show (ofFields p.toFields).depth = _
  simp [Value.depth_ofFields, toFields]

theorem Method.depth_toJson_le_iff {m : Method} {n : Nat} :
    m.toJson.depth ≤ n + 3 ↔
      (∀ p ∈ m.params, p.type.toJson.depth ≤ n) ∧ m.returns.toJson.depth ≤ n + 2 := by
  have hmarkers : m.markers.toJson.depth ≤ n + 2 :=
    Nat.le_trans m.markers.depth_toJson_le (Nat.le_add_left 2 n)
  show (ofFields m.toFields).depth ≤ _ ↔ _
  simp [Value.depth_ofFields, toFields, Value.depth_list_le_iff, Parameter.depth_toJson,
    hmarkers]

theorem MemberMethod.depth_toJson_le_iff {m : MemberMethod} {n : Nat} :
    m.toJson.depth ≤ n + 3 ↔
      (∀ p ∈ m.params, p.type.toJson.depth ≤ n) ∧ m.returns.toJson.depth ≤ n + 2 := by
  show (ofFields m.toFields).depth ≤ _ ↔ _
  simp [Value.depth_ofFields, toFields, Value.depth_list_le_iff, Parameter.depth_toJson]

theorem Field.depth_toJson (f : Field) : f.toJson.depth = f.type.toJson.depth + 1 := by
  show (ofFields f.toFields).depth = _
  simp [Value.depth_ofFields, toFields]

theorem Contract.depth_toJson_le_iff {c : Contract} {n : Nat} :
    c.toJson.depth ≤ n + 5 ↔ ∀ m ∈ c.methods,
      (∀ p ∈ m.params, p.type.toJson.depth ≤ n) ∧ m.returns.toJson.depth ≤ n + 2 := by
  show (ofFields c.toFields).depth ≤ _ ↔ _
  simp [Value.depth_ofFields, toFields, Value.depth_list_le_iff, Method.depth_toJson_le_iff]

theorem TypeDecl.depth_toJson_le_iff {d : TypeDecl} {n : Nat} :
    d.toJson.depth ≤ n + 5 ↔
      (∀ f ∈ d.fields, f.type.toJson.depth ≤ n + 2) ∧ ∀ m ∈ d.methods,
        (∀ p ∈ m.params, p.type.toJson.depth ≤ n) ∧ m.returns.toJson.depth ≤ n + 2 := by
  show (ofFields d.toFields).depth ≤ _ ↔ _
  simp [Value.depth_ofFields, toFields, Value.depth_list_le_iff,
    MemberMethod.depth_toJson_le_iff, Field.depth_toJson]

namespace DeclarationSet

/-- The types of the parameters of all methods. -/
def parameterTypes (set : DeclarationSet) : List TypeRef :=
  (set.contracts.flatMap fun c => c.methods.flatMap fun m => m.params.map (·.type)) ++
    set.types.flatMap fun d => d.methods.flatMap fun m => m.params.map (·.type)

/-- The types of the fields and the types that methods return. -/
def memberTypes (set : DeclarationSet) : List TypeRef :=
  (set.contracts.flatMap fun c => c.methods.map (·.returns)) ++
    set.types.flatMap fun d => d.fields.map (·.type) ++ d.methods.map (·.returns)

/-- Types are what can nest a set too deep: those of parameters with more than 59 levels of arguments,
and those of fields and results with more than 60. -/
theorem depth_toJson_le_iff {set : DeclarationSet} :
    set.toJson.depth ≤ nestingLimit ↔
      (∀ t ∈ set.parameterTypes, t.nesting ≤ 59) ∧
        ∀ t ∈ set.memberTypes, t.nesting ≤ 60 := by
  have hset : ∀ n, set.toJson.depth ≤ n + 7 ↔
      (∀ c ∈ set.contracts, c.toJson.depth ≤ n + 5) ∧
        ∀ d ∈ set.types, d.toJson.depth ≤ n + 5 := by
    intro n
    show (ofFields set.toFields).depth ≤ _ ↔ _
    simp [Value.depth_ofFields, toFields, Value.depth_list_le_iff]
  have hparameter : ∀ t : TypeRef, t.toJson.depth ≤ 120 ↔ t.nesting ≤ 59 := by
    intro t
    rw [t.depth_toJson]
    omega
  have hmember : ∀ t : TypeRef, t.toJson.depth ≤ 120 + 2 ↔ t.nesting ≤ 60 := by
    intro t
    rw [t.depth_toJson]
    omega
  rw [show nestingLimit = 120 + 7 from rfl, hset]
  simp only [Contract.depth_toJson_le_iff, TypeDecl.depth_toJson_le_iff, hparameter, hmember]
  simp only [parameterTypes, memberTypes, List.mem_append, List.mem_flatMap, List.mem_map]
  grind

end DeclarationSet

/-! ### Manifests -/

namespace Manifest

theorem ofJson?_written {set : DeclarationSet} {text : String} (h : set.toJson.Written text) :
    ofJson? text = if set.toJson.depth ≤ nestingLimit then some set else none := by
  rw [ofJson?, Json.Value.parse?_of_written set.plain_toJson h]
  exact DeclarationSet.restores_read set nestingLimit (Nat.le_refl nestingLimit)

theorem parse_of_read {set : DeclarationSet} {source text : String}
    (h : read source text = .ok set) (hvalid : set.validate = .ok ()) :
    parse source text = .ok set :=
  parse_eq_ok_iff.mpr ⟨h, hvalid⟩

/-- What is written down from a valid set is parsed to the set, from a source that ends in `.json` or
whose extension is not known. -/
theorem parse_written {set : DeclarationSet} {source text : String}
    (hvalid : set.validate = .ok ()) (hdepth : set.toJson.depth ≤ nestingLimit)
    (hsource : hasExtension source ".json" = true ∨
      hasExtension source ".yaml" = false ∧ hasExtension source ".yml" = false)
    (hwritten : set.toJson.Written text) : parse source text = .ok set := by
  have hjson := ofJson?_written hwritten
  rw [if_pos hdepth] at hjson
  apply parse_of_read _ hvalid
  by_cases hextension : hasExtension source ".json" = true
  · rw [read, if_pos hextension, hjson]
  · obtain ⟨hyaml, hyml⟩ := hsource.resolve_left hextension
    rw [read, if_neg hextension, hyaml, hyml, hjson]
    rfl

/-- A set with generic types, with markers that are there and others that are left out, and with a text
that needs escapes. -/
def shelf : DeclarationSet where
  contracts :=
    [{ name := "demo.Shelf"
       methods :=
        [{ name := "find"
           params :=
            [{ name := "keys"
               type := .mk "java.util.Map" [.plain "String", .mk "java.util.List" [.plain "int"]] }]
           returns := .mk "Promise" [.plain "demo.Book"]
           markers := { path := some "/books", verbs := ["GET", "POST"] } },
         { name := "cover", returns := .plain "byte[]",
           markers := { resource := some "a \"cover\"\n\\\x01\uffff.png" } }] },
     { name := "demo.Labels", messages := true }]
  types :=
    [{ name := "demo.Book"
       fields := [{ name := "title", type := .plain "String", isPublic := false }]
       methods := [{ name := "getTitle", returns := .plain "String" }] }]

theorem parse_written_shelf :
    parse "shelf.json" shelf.toJson.print = .ok shelf ∧
      parse "shelf.manifest" shelf.toJson.print = .ok shelf := by
  constructor
  · exact parse_written rfl (by decide) (.inl (by decide)) (Json.Value.written_print _)
  · exact parse_written rfl (by decide) (.inr (by decide)) (Json.Value.written_print _)

end Manifest
end ContractForge
