import ContractForge.Proofs.Resource.Uncached

/-!
# Every resource is embedded once

* `TypeRef.Embeddable` : the return types that an accessor may have.
* `ResourceKey.of?` : the encoding and the path that a method of a contract asks for.
* `EmbeddedResource.BuiltFor` : a resource is that of the file that a key's path leads to.
* `NamesClass` : a return statement gives back what a class holds.
* `IsAccessors` : an implementation in which methods with one key have one statement.
* `SharedByKey` : what is embedded is one resource for each key, and statements name its class.
* `ResourcesMade` : such implementations, and after them such resources.

`resources_embedded_once` : what accessors ask for is embedded once for each key, and accessors for one
key, in whichever contracts, return what one class holds.
-/

namespace ContractForge

/-- The return types of accessors. -/
def TypeRef.Embeddable (t : TypeRef) : Prop :=
  t.args = [] ∧ t.name ∈ ["byte[]", "String", "java.lang.String"]

/-- The key for which a method of the contract of a name asks. -/
def ResourceKey.of? (contract : String) (m : Method) : Option ResourceKey :=
  (Encoding.ofReturnType m.returns).map fun e =>
    ⟨e, markerPath (QualifiedName.split contract).1 (m.markers.resource.getD "")⟩

/-- The resource is that of the file to which the path of a key leads. -/
structure EmbeddedResource.BuiltFor (context : PassContext) (key : ResourceKey)
    (r : EmbeddedResource) : Prop where
  encoding : r.encoding = key.encoding
  space : r.space = spaceFor key.path
  content : ∃ file content, context.locator.resolve context.files key.path = some file ∧
    context.files.read file = .ok content ∧ r.bytes = content.data.toList ∧
    r.identifier = identifierFor key.encoding (Path.fileName file)

/-- A method that is marked with a resource asks for the key. -/
def PassContext.Asks (context : PassContext) (key : ResourceKey) : Prop :=
  ∃ c ∈ context.declarations.contracts, ∃ m ∈ c.methods, m.markers.resource.isSome = true ∧
    ResourceKey.of? c.name m = some key

/-- The return statement gives back the array of a class, or the text that its characters encode. -/
def NamesClass (statement name : String) : Prop :=
  statement = "return " ++ name ++ ".data;" ∨
    statement = "return new String(java.util.Base64.getDecoder().decode(" ++ name ++
      ".data.toString()), java.nio.charset.StandardCharsets.UTF_8);"

/-- The artifact implements the contract of a name with accessors, and the statement of each is known
from its key. -/
def IsAccessors (statement : ResourceKey → String) (contract : String) (methods : List Method)
    (a : Artifact) : Prop :=
  ∃ x, a.IsFileOf x ∧ x.Implements contract "" ∧ x.HasOnlyMethods ∧
    Overrides (fun m lines => ∃ key, ResourceKey.of? contract m = some key ∧ lines = [statement key])
      methods x.methods

/-- Resources are shared by their keys: what is embedded is one resource for every key that is asked
for and leads to a file, in the order of the keys, and the return statement for a key names the class
of its resource. -/
structure SharedByKey (context : PassContext) (embedded : List (ResourceKey × EmbeddedResource))
    (statement : ResourceKey → String) : Prop where
  sorted : embedded.Pairwise fun x y => x.1.before y.1 = true
  keys : ∀ key, key ∈ embedded.map (·.1) ↔
    context.Asks key ∧ ∃ file, context.locator.resolve context.files key.path = some file
  built : ∀ key r, (key, r) ∈ embedded → r.BuiltFor context key
  named : ∀ key, context.Asks key → ∀ name, NamesClass (statement key) name ↔
    ∃ r, (key, r) ∈ embedded ∧ (r.artifact context.config.chunkSize).qualifiedName = name
  missing : ∀ key, context.locator.resolve context.files key.path = none →
    statement key = "return null;"

/-- What is made of a set of declarations: an implementation for each contract name with marked
methods, in the order of discovery, and after these the resources, shared by their keys. -/
def ResourcesMade (context : PassContext) (made implementations : List Artifact)
    (embedded : List (ResourceKey × EmbeddedResource)) : Prop :=
  made = implementations ++ embedded.map (fun x => x.2.artifact context.config.chunkSize) ∧
    ∃ statement,
      List.Forall₂
        (fun name a =>
          IsAccessors statement name (context.declarations.markedMethods .resource name) a)
        (context.declarations.markedNames .resource) implementations ∧
      SharedByKey context embedded statement

/-! ### Return types and keys -/

theorem ofReturnType_eq_none_iff {t : TypeRef} :
    Encoding.ofReturnType t = none ↔ ¬t.Embeddable := by
  obtain ⟨name, args⟩ := t
  unfold Encoding.ofReturnType TypeRef.Embeddable TypeRef.isByteArray TypeRef.isString
    TypeRef.isGeneric
  cases args with
  | nil =>
    by_cases hbytes : name = "byte[]"
    · simp [TypeRef.args, TypeRef.name, hbytes]
    · simp [TypeRef.args, TypeRef.name, hbytes]
  | cons first rest => simp [TypeRef.args]

theorem ResourceKey.of?_name (c : Contract) (m : Method) :
    ResourceKey.of? c.name m =
      (Encoding.ofReturnType m.returns).map fun e => ⟨e, resourcePath c m⟩ := by
  simp only [ResourceKey.of?, resourcePath, Contract.space]

/-! ### The classes that return statements name -/

theorem suffix_of_eq_append {s before last : String} (h : s = before ++ last) :
    last.toList <:+ s.toList := by
  rw [h, String.toList_append]
  exact List.suffix_append _ _

/-- Two texts differ if neither of their ends is an end of the other. -/
theorem ne_of_ends {s s' before before' last last' : String} (h : s = before ++ last)
    (h' : s' = before' ++ last') (hlength : last.toList.length ≤ last'.toList.length)
    (hends : ¬last.toList <:+ last'.toList) : s ≠ s' := by
  rintro rfl
  exact hends (List.suffix_of_suffix_length_le (suffix_of_eq_append h) (suffix_of_eq_append h')
    hlength)

theorem not_namesClass_null (name : String) : ¬NamesClass "return null;" name := by
  rintro (h | h)
  · exact absurd (suffix_of_eq_append h) (by decide)
  · exact absurd (suffix_of_eq_append h) (by decide)

theorem namesClass_accessorStatement {r : EmbeddedResource} {name : String} :
    NamesClass (accessorStatement (some r)) name ↔ r.qualifiedName = name := by
  have hcancel : ∀ a b x y : String, a ++ x ++ b = a ++ y ++ b ↔ x = y := fun a b x y => by
    simp [← String.toList_inj]
  cases hencoding : r.encoding with
  | raw =>
    have hstatement : accessorStatement (some r) = "return " ++ r.qualifiedName ++ ".data;" := by
      simp [accessorStatement, EmbeddedResource.accessor, hencoding, String.append_assoc]
    rw [NamesClass, hstatement, hcancel, or_iff_left]
    exact ne_of_ends rfl rfl (by decide) (by decide)
  | text =>
    have hstatement : accessorStatement (some r) =
        "return new String(java.util.Base64.getDecoder().decode(" ++ r.qualifiedName ++
          ".data.toString()), java.nio.charset.StandardCharsets.UTF_8);" := by
      simp [accessorStatement, EmbeddedResource.accessor, hencoding, String.append_assoc]
      rw [← String.append_assoc]
      rfl
    rw [NamesClass, hstatement, hcancel, or_iff_right]
    exact (ne_of_ends rfl rfl (by decide) (by decide)).symm

/-! ### What is embedded -/

variable {context : PassContext} {key : ResourceKey} {r : EmbeddedResource}

theorem EmbeddedResource.qualifiedName_artifact (chunkSize : Nat) (r : EmbeddedResource) :
    (r.artifact chunkSize).qualifiedName = r.qualifiedName :=
  rfl

theorem builtFor_of_embedded? (h : embedded? context key = some r) : r.BuiltFor context key := by
  have hembed : embed context key = .ok (some r) := by rw [embed_eq, h]
  unfold embed at hembed
  split at hembed
  next => cases hembed
  next file hfile =>
    split at hembed
    next => cases hembed
    next content hread =>
      cases hembed
      exact ⟨rfl, rfl, file, content, hfile, hread, rfl, rfl⟩

theorem embedded?_eq_none_iff :
    embedded? context key = none ↔ context.locator.resolve context.files key.path = none := by
  constructor
  · intro h
    have hembed : embed context key = .ok none := by rw [embed_eq, h]
    unfold embed at hembed
    split at hembed
    next hfile => exact hfile
    next => split at hembed <;> cases hembed
  · intro h
    refine Option.eq_none_iff_forall_ne_some.mpr fun r hr => ?_
    obtain ⟨file, -, hfile, -⟩ := (builtFor_of_embedded? hr).content
    rw [h] at hfile
    cases hfile

theorem askedFor_discover_iff :
    AskedFor (discover context.declarations .resource) key ↔ context.Asks key := by
  constructor
  · rintro ⟨g, hg, m, hm, e, htype, rfl⟩
    obtain ⟨c, hc, hname, hmem, hmarks⟩ := (declared_of_mem_discover hg).methods m hm
    refine ⟨c, hc, m, hmem, hmarks, ?_⟩
    rw [hname, ResourceKey.of?_name, htype]
    rfl
  · rintro ⟨c, hc, m, hm, hmarks, hkey⟩
    rw [ResourceKey.of?_name] at hkey
    obtain ⟨e, htype, rfl⟩ := Option.map_eq_some_iff.mp hkey
    have hmarked : Marker.marks .resource c m = true := hmarks
    obtain ⟨g, hg, hname, hmem⟩ := mem_discover hc hm hmarked
    refine ⟨g, hg, m, hmem, e, htype, ?_⟩
    rw [resourcePath, resourcePath, Contract.space, Contract.space, hname]

theorem EmbeddedOnce.sharedByKey {embedded : List (ResourceKey × EmbeddedResource)}
    (h : EmbeddedOnce context (discover context.declarations .resource) embedded) :
    SharedByKey context embedded fun key => accessorStatement (embedded? context key) where
  sorted := h.sorted
  keys key := by
    rw [List.mem_map]
    constructor
    · rintro ⟨⟨_, r⟩, hmem, rfl⟩
      obtain ⟨hasked, hr⟩ := (h.mem_iff _ _).mp hmem
      obtain ⟨file, -, hfile, -⟩ := (builtFor_of_embedded? hr).content
      exact ⟨askedFor_discover_iff.mp hasked, file, hfile⟩
    · rintro ⟨hasked, file, hfile⟩
      cases hr : embedded? context key with
      | none => simp [embedded?_eq_none_iff.mp hr] at hfile
      | some r => exact ⟨(key, r), (h.mem_iff _ _).mpr ⟨askedFor_discover_iff.mpr hasked, hr⟩, rfl⟩
  built key r hmem := builtFor_of_embedded? ((h.mem_iff key r).mp hmem).2
  named key hasked name := by
    simp only [h.mem_iff, askedFor_discover_iff, hasked, true_and]
    cases embedded? context key with
    | none => simpa [accessorStatement] using not_namesClass_null name
    | some r => simp [namesClass_accessorStatement, EmbeddedResource.qualifiedName_artifact]
  missing key hnone := by rw [embedded?_eq_none_iff.mpr hnone]; rfl

/-! ### Accessors -/

/-- The report of a return type that no accessor may have. -/
def wrongType? (contract : String) (m : Method) : Option GenerationError :=
  match Encoding.ofReturnType m.returns with
  | none => some (.resourceType contract m.name m.returns.sourceName)
  | some _ => none

theorem wrongType?_eq_none_iff {contract : String} {m : Method} :
    wrongType? contract m = none ↔ m.returns.Embeddable := by
  rw [← not_iff_not, ← ofReturnType_eq_none_iff, wrongType?]
  cases Encoding.ofReturnType m.returns <;> simp

theorem wrongType?_eq_some_iff {contract : String} {m : Method} {e : GenerationError} :
    wrongType? contract m = some e ↔
      ¬m.returns.Embeddable ∧ e = .resourceType contract m.name m.returns.sourceName := by
  rw [← ofReturnType_eq_none_iff, wrongType?]
  cases Encoding.ofReturnType m.returns <;> simp [eq_comm]

theorem failure?_uncachedAccessor (context : PassContext) (c : Contract) (m : Method) :
    failure? (uncachedAccessor context c m) = wrongType? c.name m := by
  unfold uncachedAccessor wrongType?
  cases Encoding.ofReturnType m.returns <;> rfl

theorem failure?_resources_discover (context : PassContext) :
    failure? (resources.generate context (discover context.declarations .resource)) =
      (context.declarations.marked .resource).findSome? fun x => wrongType? x.1 x.2 := by
  rw [failure?_resources]
  exact failure?_mapM_discover (failure?_uncachedAccessor context)
    fun g methods => Artifact.ofClass (accessorClass g.contract methods)

theorem isAccessors_of_uncachedArtifact {g : Group} {a : Artifact}
    (h : uncachedArtifact context g = .ok a) :
    IsAccessors (fun key => accessorStatement (embedded? context key)) g.contract.name g.methods a := by
  obtain ⟨methods, hmethods, hclass⟩ := bind_eq_ok_iff.mp h
  cases hclass
  refine ⟨_, .ofClass _, ⟨rfl, String.append_empty.symm, rfl⟩, ⟨rfl, rfl⟩, ?_⟩
  refine (mapM_eq_ok_iff.mp hmethods).imp fun m method hmethod => ?_
  unfold uncachedAccessor at hmethod
  split at hmethod
  next => cases hmethod
  next e htype =>
    obtain rfl := Except.ok.inj hmethod
    refine ⟨_, ⟨⟨e, resourcePath g.contract m⟩, ?_, rfl⟩, .overriding m _⟩
    rw [ResourceKey.of?_name, htype]
    rfl

theorem resourcesMade_of_mapM {implementations : List Artifact}
    {embedded : List (ResourceKey × EmbeddedResource)}
    (himplementations : (discover context.declarations .resource).mapM (uncachedArtifact context) =
      .ok implementations)
    (honce : EmbeddedOnce context (discover context.declarations .resource) embedded) :
    ResourcesMade context
      (implementations ++ embedded.map fun x => x.2.artifact context.config.chunkSize)
      implementations embedded := by
  refine ⟨rfl, _, ?_, honce.sharedByKey⟩
  refine forall₂_discover (R := fun name methods a => IsAccessors _ name methods a) ?_
  exact (mapM_eq_ok_iff.mp himplementations).imp fun g a h => isAccessors_of_uncachedArtifact h

/-- **Resources are embedded once.** Accessors are made exactly if every method that is marked with a
resource returns bytes or a string; otherwise the report is that of the first method that does not, in
the order of discovery. On success there is one implementation for each contract name with such
methods, in the order of discovery, and after them one resource for each key that is asked for and
leads to a file, in the order of the keys. Accessors for one key have the same statement, and it names
the class of the resource of that key. -/
theorem resources_embedded_once (context : PassContext) :
    ((∃ made, resources.generate context (discover context.declarations .resource) = .ok made) ↔
      ∀ c ∈ context.declarations.contracts, ∀ m ∈ c.methods, m.markers.resource.isSome = true →
        m.returns.Embeddable) ∧
    (∀ e, resources.generate context (discover context.declarations .resource) = .error e ↔
      ∃ before contract m after,
        context.declarations.marked .resource = before ++ (contract, m) :: after ∧
        (∀ x ∈ before, x.2.returns.Embeddable) ∧ ¬m.returns.Embeddable ∧
        e = .resourceType contract m.name m.returns.sourceName) ∧
    ∀ made, resources.generate context (discover context.declarations .resource) = .ok made →
      ∃ implementations embedded, ResourcesMade context made implementations embedded := by
  refine ⟨?_, fun e => ?_, fun made hmade => ?_⟩
  · rw [exists_ok_iff_of_failure? (failure?_resources_discover context)]
    simp only [wrongType?_eq_none_iff]
    exact forall_marked_iff (P := fun m => m.returns.Embeddable)
  · rw [eq_error_iff_of_failure? (failure?_resources_discover context)]
    simp only [wrongType?_eq_none_iff, wrongType?_eq_some_iff, Prod.exists]
  · obtain ⟨implementations, embedded, himplementations, honce, rfl⟩ :=
      resources_eq_ok_iff.mp hmade
    exact ⟨implementations, embedded, resourcesMade_of_mapM himplementations honce⟩

end ContractForge
