import ContractForge.Generation.Sinks
import ContractForge.Proofs.Generation.Discovery
import ContractForge.Proofs.Generation.Implementations
import ContractForge.Proofs.Generation.Outcome
import ContractForge.Proofs.Resource.Cache
import ContractForge.Proofs.Resource.Embedding

/-!
# Embedded content survives a pass

* `Java.FilledInUnits` : the methods of a class are units of bounded size, each called once and in
  order.
* `HoldsBytes` : an array that was filled with bytes, each cell once.
* `GivesBack` : a return statement that gives bytes back from a class.

`content_survives_runAll` : after a pass that succeeds, every marked method whose path is that of a
file gives the bytes of the file back.
-/

namespace ContractForge

open Java (Statement Member)

namespace Java

def Member.calls : Member → List String
  | initializer calls => calls
  | _ => []

def Member.name? : Member → Option String
  | method name _ => some name
  | _ => none

/-- Every method is a unit of bounded size, and the static blocks call each of them once, in the order
in which they stand. -/
structure FilledInUnits (limit : Nat) (members : List Member) : Prop where
  bounded : ∀ name body, .method name body ∈ members → body.length ≤ limit
  inOrder : members.flatMap Member.calls = members.filterMap Member.name?
  once : ∀ name body, .method name body ∈ members → (members.flatMap Member.calls).count name = 1

end Java

/-- Cells of an array that statements filled with bytes. -/
structure HoldsBytes (bytes : List UInt8) (cells : List Int) (statements : List Statement) :
    Prop where
  size : cells.length = bytes.length
  /-- Every index of the array is assigned once, and no other. -/
  once : ∀ i, statements.countP (Statement.assigns i) = if i < bytes.length then 1 else 0
  assigned : ∀ s ∈ statements, ∃ i v, s = .assign i v ∧ -128 ≤ v ∧ v ≤ 127
  congruent : cells.map (· % 256) = bytes.map fun b => (b.toNat : Int)

/-- The statement of a method of a return type gives bytes back from a class, once the class is
loaded. -/
inductive GivesBack (x : Artifact) (members : List Member) (bytes : List UInt8)
    (returns : TypeRef) (statement : String) : Prop
  /-- The array is returned as it is. -/
  | array {cells : List Int} {statements : List Statement} (htype : returns.isByteArray = true)
      (hstatement : statement = "return " ++ x.qualifiedName ++ ".data;")
      (hrun : Java.initialize? members = some (.array cells, statements))
      (hholds : HoldsBytes bytes cells statements)
  /-- The characters of the builder are decoded as base64 text. -/
  | text {chars : List Char} (htype : returns.isString = true)
      (hstatement : statement = "return new String(java.util.Base64.getDecoder().decode(" ++
        x.qualifiedName ++ ".data.toString()), java.nio.charset.StandardCharsets.UTF_8);")
      (hrun : Java.initialize? members = some (.builder chars, chars.map .append))
      (hstandard : chars = Base64.encode bytes)
      (hdecode : Base64.decode? chars = some bytes)
      (hbare : ∀ c ∈ chars, Java.isBare c = true)

/-! ### One class -/

variable {e : Encoding} {chunkSize : Nat} {bytes : List UInt8}

theorem mem_unitMembers {units : List (String × List Statement)} {name : String}
    {body : List Statement} (h : .method name body ∈ Java.unitMembers units) :
    (name, body) ∈ units := by
  obtain ⟨u, hu, heq⟩ := List.mem_map.mp h
  cases heq
  exact hu

theorem method_of_mem_embeddedMembers {name : String} {body : List Statement}
    (h : .method name body ∈ embeddedMembers e chunkSize bytes) :
    ∃ unit ∈ embeddedUnits e chunkSize bytes, unit.name = name ∧
      body.length = unit.statements.length := by
  have hmethod : Member.method name body ∈
      Java.unitMembers ((embeddedUnits e chunkSize bytes).map (·.read)) := by
    simpa [embeddedMembers] using h
  obtain ⟨unit, hunit, hread⟩ := List.mem_map.mp (mem_unitMembers hmethod)
  obtain ⟨hsource, -⟩ := (readable_of_mem_embeddedUnits hunit).map_source
  have hlength := congrArg List.length hsource
  rw [List.length_map, List.length_map, hread] at hlength
  exact ⟨unit, hunit, congrArg (·.1) hread, hlength.symm⟩

theorem calls_embeddedMembers (e : Encoding) (chunkSize : Nat) (bytes : List UInt8) :
    (embeddedMembers e chunkSize bytes).flatMap Member.calls =
      (embeddedUnits e chunkSize bytes).map (·.name) ∧
    (embeddedMembers e chunkSize bytes).filterMap Member.name? =
      (embeddedUnits e chunkSize bytes).map (·.name) := by
  have hmethods : ∀ units : List InitializerUnit,
      (Java.unitMembers (units.map (·.read))).flatMap Member.calls = [] ∧
        (Java.unitMembers (units.map (·.read))).filterMap Member.name? = units.map (·.name) := by
    intro units
    induction units with
    | nil => exact ⟨rfl, rfl⟩
    | cons unit rest ih => exact ⟨ih.1, congrArg (unit.name :: ·) ih.2⟩
  obtain ⟨hcalls, hnames⟩ := hmethods (embeddedUnits e chunkSize bytes)
  refine ⟨?_, hnames⟩
  simp only [embeddedMembers, List.flatMap_cons, hcalls, Member.calls, List.nil_append,
    List.append_nil, List.map_map]
  rfl

theorem filledInUnits_embeddedMembers (hchunk : 1 ≤ chunkSize) :
    Java.FilledInUnits chunkSize (embeddedMembers e chunkSize bytes) := by
  obtain ⟨hcalls, hnames⟩ := calls_embeddedMembers e chunkSize bytes
  refine ⟨fun name body h => ?_, hcalls.trans hnames.symm, fun name body h => ?_⟩
  · obtain ⟨unit, hunit, -, hlength⟩ := method_of_mem_embeddedMembers h
    rw [hlength, ← Nat.max_eq_left hchunk]
    exact length_le_of_mem_batches hunit
  · obtain ⟨unit, hunit, rfl, -⟩ := method_of_mem_embeddedMembers h
    rw [hcalls]
    exact List.count_eq_one_of_mem (nodup_names_batches _ _ _) (List.mem_map_of_mem hunit)

theorem holdsBytes_signed (bytes : List UInt8) :
    HoldsBytes bytes (bytes.map Encoding.signed)
      (Java.assignFrom 0 (bytes.map Encoding.signed)) where
  size := List.length_map _
  once i := by
    rw [Java.countP_assignFrom, List.length_map]
    simp only [Nat.zero_le, true_and, Nat.zero_add]
  assigned s hs := by
    obtain ⟨i, v, hv, rfl⟩ := Java.exists_of_mem_assignFrom hs
    obtain ⟨b, -, rfl⟩ := List.mem_map.mp hv
    exact ⟨i, _, rfl, Encoding.signed_mem_byte b⟩
  congruent := by
    rw [List.map_map]
    exact List.map_congr_left fun b _ => Encoding.signed_emod b

theorem ofReturnType_eq_raw {t : TypeRef} (h : Encoding.ofReturnType t = some .raw) :
    t.isByteArray = true := by
  unfold Encoding.ofReturnType at h
  split at h
  next harray => exact harray
  next => split at h <;> cases h

theorem ofReturnType_eq_text {t : TypeRef} (h : Encoding.ofReturnType t = some .text) :
    t.isString = true := by
  unfold Encoding.ofReturnType at h
  split at h
  next => cases h
  next =>
    split at h
    next hstring => exact hstring
    next => cases h

/-- The accessor of a resource gives its bytes back from the class of the resource. -/
theorem givesBack_artifact (chunkSize : Nat) {returns : TypeRef} {r : EmbeddedResource}
    (htype : Encoding.ofReturnType returns = some r.encoding) :
    GivesBack (r.artifact chunkSize) (embeddedMembers r.encoding chunkSize r.bytes) r.bytes returns
      (accessorStatement (some r)) := by
  obtain ⟨encoding, space, identifier, bytes⟩ := r
  cases encoding with
  | raw =>
    refine .array (ofReturnType_eq_raw htype) ?_ (initialize?_raw chunkSize bytes)
      (holdsBytes_signed bytes)
    simp only [accessorStatement, EmbeddedResource.accessor, String.append_assoc]
    rfl
  | text =>
    refine .text (ofReturnType_eq_text htype) ?_ (initialize?_text chunkSize bytes) rfl
      (Base64.decode?_encode bytes) fun c hc => Encoding.isBare_of_mem_encode hc
    simp only [accessorStatement, EmbeddedResource.accessor, String.append_assoc]
    rfl

/-! ### A whole pass -/

theorem accessorClass_congr {c d : Contract} (h : c.name = d.name) :
    accessorClass c = accessorClass d := by
  funext methods
  simp only [accessorClass, Contract.space, Contract.implName, Contract.simpleName, h]

/-- What is embedded for the path of a file has the bytes of the file. -/
theorem embed_eq_ok_of_resolve {context : PassContext} {e : Encoding} {path file : String}
    {r : Option EmbeddedResource} (hembed : embed context ⟨e, path⟩ = .ok r)
    (hfile : context.locator.resolve context.files path = some file) :
    ∃ content resource, context.files.read file = .ok content ∧ r = some resource ∧
      resource.encoding = e ∧ resource.bytes = content.data.toList := by
  unfold embed at hembed
  rw [hfile] at hembed
  dsimp only at hembed
  split at hembed
  next => cases hembed
  next content hread =>
    cases hembed
    exact ⟨content, _, hread, rfl, rfl, rfl⟩

variable {σ : Type}

/-- **Embedded content survives a pass.** In a pass that succeeds with units of at least one
statement, the implementation of the contract of a marked method whose path is that of a file has an
accessor for the method, whose only statement names a class that is written once. The source text of
that class has members that, executed as the class is loaded, leave the bytes of the file where the
accessor gives them back, and that are filled in units of bounded size. -/
theorem content_survives_runAll {context : PassContext} {generators : List Generator}
    {sink : Sink σ} {state final : σ} {names : List String} {c : Contract} {m : Method}
    {file : String} (hrun : runAll context generators sink state = (.ok names, final))
    (hresources : resources ∈ generators) (hchunk : 1 ≤ context.config.chunkSize)
    (hc : c ∈ context.declarations.contracts) (hm : m ∈ c.methods)
    (hmarked : m.markers.resource.isSome = true)
    (hfile : context.locator.resolve context.files (resourcePath c m) = some file) :
    ∃ (content : ByteArray) (artifacts : List Artifact) (implementation : Artifact)
      (cls : Java.Class) (accessor : Java.Method) (statement : String) (x : Artifact)
      (members : List Member),
      context.files.read file = .ok content ∧
      Accepts sink state artifacts final ∧ names = artifacts.map (·.qualifiedName) ∧
      implementation ∈ artifacts ∧ implementation.IsFileOf cls ∧
      cls.Implements c.name "" ∧ cls.HasOnlyMethods ∧
      accessor ∈ cls.methods ∧ accessor.Implements m [statement] ∧
      x ∈ artifacts ∧ names.count x.qualifiedName = 1 ∧
      Java.readClass? x.space x.simpleName x.content = some members ∧
      GivesBack x members content.data.toList m.returns statement ∧
      Java.FilledInUnits context.config.chunkSize members := by
  obtain ⟨artifacts, hmakes, haccepts, hnames, hnew⟩ := complete_of_runAll hrun
  obtain ⟨made, hmade, hincluded⟩ := hmakes.exists_of_mem hresources
  obtain ⟨cache, haccessors, hclasses⟩ := resources_generate_eq_ok hmade
  have hmarks : Marker.resource.marks c m = true := hmarked
  obtain ⟨g, hg, hgname, hgm⟩ := mem_discover hc hm hmarks
  obtain ⟨methods, hclass, haccess⟩ := haccessors g hg
  obtain ⟨method, hmethod, e, r, htype, hembed, hcached, rfl⟩ := haccess m hgm
  -- the group may be that of another contract of the name, which shares its path and its class
  rw [accessorClass_congr hgname] at hclass
  rw [resourcePath_congr hgname] at hembed hcached
  obtain ⟨content, resource, hread, rfl, hencoding, hbytes⟩ := embed_eq_ok_of_resolve hembed hfile
  have hx := hincluded _ (hclasses _ _ hcached)
  have hname : (resource.artifact context.config.chunkSize).qualifiedName ∈ names := by
    rw [hnames]
    exact List.mem_map_of_mem hx
  rw [← hencoding] at htype
  have hgives := givesBack_artifact context.config.chunkSize htype
  rw [hbytes] at hgives
  refine ⟨content, artifacts, _, accessorClass c methods, _, _, _, _, hread, haccepts, hnames,
    hincluded _ hclass, .ofClass _, ⟨rfl, String.append_empty.symm, rfl⟩, ⟨rfl, rfl⟩, hmethod,
    .overriding m _, hx, List.count_eq_one_of_mem hnew hname, ?_, hgives,
    filledInUnits_embeddedMembers hchunk⟩
  rw [← hbytes]
  exact readClass?_embeddedClass _ _ _ _ _

/-- A text of four bytes, two of them negative as array cells. -/
def mottoMethod : Method where
  name := "motto"
  returns := .plain "String"
  markers := { resource := some "logo.bin" }

/-- The same file as an array. -/
def logoMethod : Method where
  name := "logo"
  returns := .plain "byte[]"
  markers := { resource := some "logo.bin" }

/-- A file that one contract gives back in both encodings, in units of two statements. -/
def sharedFile : PassContext where
  declarations := { contracts := [{ name := "app.Assets", methods := [mottoMethod, logoMethod] }] }
  locator := { root := "/work", language := "java" }
  config := { chunkSize := 2 }
  files := { entries := [
    (["work"], .directory), (["work", "src"], .directory), (["work", "src", "main"], .directory),
    (["work", "src", "main", "resources"], .directory),
    (["work", "src", "main", "resources", "app"], .directory),
    (["work", "src", "main", "resources", "app", "logo.bin"], .file ⟨#[0, 127, 128, 255]⟩)] }

theorem content_survives_runAll_sharedFile :
    ∃ (names : List String) (final : MemorySink),
      runAll sharedFile [resources] MemorySink.sink {} = (.ok names, final) ∧
      ∀ m ∈ [mottoMethod, logoMethod],
        ∃ (content : ByteArray) (artifacts : List Artifact) (implementation : Artifact)
          (cls : Java.Class) (accessor : Java.Method) (statement : String) (x : Artifact)
          (members : List Member),
          sharedFile.files.read "/work/src/main/resources/app/logo.bin" = .ok content ∧
          Accepts MemorySink.sink {} artifacts final ∧
          names = artifacts.map (·.qualifiedName) ∧
          implementation ∈ artifacts ∧ implementation.IsFileOf cls ∧
          cls.Implements "app.Assets" "" ∧ cls.HasOnlyMethods ∧
          accessor ∈ cls.methods ∧ accessor.Implements m [statement] ∧
          x ∈ artifacts ∧ names.count x.qualifiedName = 1 ∧
          Java.readClass? x.space x.simpleName x.content = some members ∧
          GivesBack x members content.data.toList m.returns statement ∧
          Java.FilledInUnits 2 members := by
  have hok : (runAll sharedFile [resources] MemorySink.sink {}).1.isOk = true := by decide +kernel
  obtain ⟨names, final, hrun⟩ : ∃ names final,
      runAll sharedFile [resources] MemorySink.sink {} = (.ok names, final) := by
    revert hok
    rcases runAll sharedFile [resources] MemorySink.sink {} with ⟨names | names, final⟩
    · intro hok
      cases hok
    · exact fun _ => ⟨names, final, rfl⟩
  refine ⟨names, final, hrun, fun m hm => ?_⟩
  have hmarked : m.markers.resource = some "logo.bin" := by
    rcases List.mem_cons.mp hm with rfl | hlogo
    · rfl
    · rw [List.mem_singleton.mp hlogo]
      rfl
  refine content_survives_runAll
    (c := { name := "app.Assets", methods := [mottoMethod, logoMethod] }) hrun
    (List.mem_singleton_self _) (by decide) (List.mem_singleton_self _) hm (by rw [hmarked]; rfl) ?_
  rw [resourcePath, hmarked]
  decide +kernel

end ContractForge
