import ContractForge.Generation.Selection
import ContractForge.Proofs.Generation.Discovery
import ContractForge.Proofs.Generation.Outcome
import ContractForge.Proofs.Generation.Traversal
import ContractForge.Proofs.Resource.AccessorDraft
import ContractForge.Proofs.Resource.Uncached
import ContractForge.Proofs.Service.ProxyDraft

/-!
# What parameters hide

Proxies and accessors write names of their own into the bodies of methods whose parameters are declared
elsewhere. Every method that is emitted is the source of a draft, and `Scoping` says when no parameter
hides one of these names (`scoping_of_made`). Nothing keeps a parameter from doing so: in `service_hidden`
one is called like the field that holds the remote service.
-/

namespace ContractForge

open Java (Draft firstPart)

/-- What a method of a proxy, of an accessor or of an embedded resource is, and when all names in it
denote what they are meant for. -/
inductive Scoping (context : PassContext) (method : Java.Method) : Prop
  /-- An initializer unit has no parameters. -/
  | unit {name : String} (hmethod : method.signature = "private static void " ++ name ++ "()")
  | constructor {c : Contract} (hc : c ∈ context.declarations.contracts)
      (hmethod : method = (constructorDraft context.config.runtime c.implName).method)
      (hmeant : (constructorDraft context.config.runtime c.implName).AsMeant)
  | requestBuilder (hmethod : method = (requestBuilderDraft context.config.runtime).method)
      (hmeant : (requestBuilderDraft context.config.runtime).AsMeant ↔
        firstPart context.config.runtime.contentType ∉ ["path", "requestDto", "method"])
  | call {c : Contract} {m : Method} {verb : Verb} {payload : TypeRef}
      (hc : c ∈ context.declarations.contracts) (hm : m ∈ c.methods)
      (hmarked : m.markers.path.isSome = true)
      (hverb : ∃ marker, m.markers.verbs = [marker] ∧
        verb.name.toList = marker.toList.map Char.toUpper)
      (hpayload : payload? context.config.runtime m.returns = some payload)
      (hmethod : method =
        (callDraft context.config.runtime context.declarations m verb payload).method)
      (hmeant : (callDraft context.config.runtime context.declarations m verb payload).AsMeant ↔
        ∀ p ∈ m.params,
          SparesCall context.config.runtime context.declarations m verb payload p.name)
  | accessor {c : Contract} {m : Method} {e : Encoding} (hc : c ∈ context.declarations.contracts)
      (hm : m ∈ c.methods) (hmarked : m.markers.resource.isSome = true)
      (hencoding : Encoding.ofReturnType m.returns = some e)
      (hmethod : method = (accessorDraft m (embedded? context ⟨e, resourcePath c m⟩)).method)
      (hmeant : (accessorDraft m (embedded? context ⟨e, resourcePath c m⟩)).AsMeant ↔
        ∀ r, embedded? context ⟨e, resourcePath c m⟩ = some r →
          ∀ p ∈ m.params, SparesAccess r p.name)

variable {context : PassContext} {groups : List Group} {made : List Artifact} {a : Artifact}

theorem scoping_of_services (hgroups : ∀ g ∈ groups, g.Declared context.declarations .path)
    (h : services.generate context groups = .ok made) (ha : a ∈ made) :
    ∃ cls, a = .ofClass cls ∧ ∀ method ∈ cls.methods, Scoping context method := by
  obtain ⟨g, hg, hproxy⟩ := exists_of_mem_mapM h ha
  obtain ⟨methods, hmethods, hclass⟩ := bind_eq_ok_iff.mp hproxy
  obtain rfl := Except.ok.inj hclass
  refine ⟨_, rfl, fun method hmethod => ?_⟩
  rcases List.mem_cons.mp hmethod with rfl | hmethod
  · exact .constructor (hgroups g hg).contract (method_constructorDraft _ _).symm
      (asMeant_constructorDraft _ _)
  rcases List.mem_cons.mp hmethod with rfl | hmethod
  · exact .requestBuilder (method_requestBuilderDraft _).symm (asMeant_requestBuilderDraft_iff _)
  obtain ⟨m, hm, hproxyMethod⟩ := exists_of_mem_mapM hmethods hmethod
  obtain ⟨c, hc, -, hmem, hmarks⟩ := (hgroups g hg).methods m hm
  obtain ⟨call, hcall, -⟩ := bind_eq_ok_iff.mp hproxyMethod
  obtain ⟨verb, payload, hverb, -, hpayload, -, rfl, -⟩ := ofMethod_eq_ok hcall
  have hdraft := hproxyMethod.symm.trans (proxyMethod_eq_draft hcall hpayload)
  exact .call hc hmem hmarks (methodVerb_eq_ok hverb) hpayload (Except.ok.inj hdraft)
    asMeant_callDraft_iff

theorem scoping_of_resources (hgroups : ∀ g ∈ groups, g.Declared context.declarations .resource)
    (h : resources.generate context groups = .ok made) (ha : a ∈ made) :
    ∃ cls, a = .ofClass cls ∧ ∀ method ∈ cls.methods, Scoping context method := by
  obtain ⟨implementations, embedded, himplementations, -, rfl⟩ := resources_eq_ok_iff.mp h
  rcases List.mem_append.mp ha with haccessor | hembedded
  · obtain ⟨g, hg, hartifact⟩ := exists_of_mem_mapM himplementations haccessor
    obtain ⟨methods, hmethods, hclass⟩ := bind_eq_ok_iff.mp hartifact
    obtain rfl := Except.ok.inj hclass
    refine ⟨_, rfl, fun method hmethod => ?_⟩
    obtain ⟨m, hm, haccess⟩ := exists_of_mem_mapM hmethods hmethod
    obtain ⟨c, hc, hname, hmem, hmarks⟩ := (hgroups g hg).methods m hm
    unfold uncachedAccessor at haccess
    split at haccess
    next => cases haccess
    next e hencoding =>
      obtain rfl := Except.ok.inj haccess
      refine .accessor hc hmem hmarks hencoding ?_ asMeant_accessorDraft_iff
      rw [accessorDraft, Draft.method_overriding, List.map_cons, List.map_nil,
        lineSource_accessorParts, resourcePath_congr hname]
  · obtain ⟨x, -, rfl⟩ := List.mem_map.mp hembedded
    refine ⟨_, rfl, fun method hmethod => ?_⟩
    obtain ⟨unit, -, rfl⟩ := List.mem_map.mp hmethod
    exact .unit rfl

/-- **When parameters hide nothing.** Every artifact of the two generators is the source of a class whose
methods are all as `Scoping` says. The names in a method denote what they are meant for, except that a
declared parameter may have the name of the field for the service, or the name with which that of a
configured type, an embedded class or a library class begins. -/
theorem scoping_of_made {generators : List Generator} (hgenerators : generators ⊆ [resources, services])
    (ha : Made context generators a) :
    ∃ cls, a = .ofClass cls ∧ ∀ method ∈ cls.methods, Scoping context method := by
  obtain ⟨g, hg, made, hgenerate, hmem⟩ := ha.exists_generator
  have hgroups : ∀ x ∈ discover context.declarations g.marker,
      x.Declared context.declarations g.marker := fun x hx => declared_of_mem_discover hx
  rcases List.mem_cons.mp (hgenerators hg) with rfl | hg
  · exact scoping_of_resources hgroups hgenerate hmem
  · obtain rfl := List.mem_singleton.mp hg
    exact scoping_of_services hgroups hgenerate hmem

/-- A method that posts its argument. -/
def posting (name argument : String) : Method where
  name
  params := [⟨argument, .plain "com.example.User"⟩]
  returns := .mk "contractgen.runtime.Promise" [.plain "com.example.User"]
  markers := { path := some "/users", verbs := ["POST"] }

/-- Of these methods one has an argument called like the field for the service. -/
def postingUsers : Contract where
  name := "com.example.Users"
  methods := [posting "create" "service", posting "add" "user"]

/-- A pass over this contract. -/
def postingContext : PassContext where
  declarations := { contracts := [postingUsers] }
  locator := { root := "/work", language := "java" }
  config := {}
  files := {}

/-- What becomes of one of its methods. -/
def postingDraft (name argument : String) : Draft :=
  callDraft postingContext.config.runtime postingContext.declarations (posting name argument) .post
    (.plain "com.example.User")

/-- What becomes of the contract. -/
def postingProxy : Java.Class :=
  proxyClass postingContext.config.runtime postingUsers
    [(postingDraft "create" "service").method, (postingDraft "add" "user").method]

theorem makes_posting :
    Makes postingContext [resources, services] [.ofClass postingProxy] := by
  have hmethod : ∀ name argument, proxyMethod postingContext postingUsers (posting name argument) =
      .ok (postingDraft name argument).method := by
    intro name argument
    have hcall : ServiceCall.ofMethod postingContext.config.runtime postingContext.declarations
        postingUsers (posting name argument) =
          .ok ⟨"/users", .post, argument, [], "com.example.User.class"⟩ := rfl
    have hpayload : payload? postingContext.config.runtime (posting name argument).returns =
        some (.plain "com.example.User") := rfl
    rw [proxyMethod_eq_draft hcall hpayload, postingDraft]
  have hmethods : postingUsers.methods.mapM (proxyMethod postingContext postingUsers) =
      .ok [(postingDraft "create" "service").method, (postingDraft "add" "user").method] :=
    mapM_eq_ok_iff.mpr (.cons (hmethod "create" "service") (.cons (hmethod "add" "user") .nil))
  have hproxy : proxyArtifact postingContext ⟨postingUsers, postingUsers.methods⟩ =
      .ok (.ofClass postingProxy) :=
    bind_eq_ok_iff.mpr ⟨_, hmethods, rfl⟩
  have hgroups : discover postingContext.declarations services.marker =
      [⟨postingUsers, postingUsers.methods⟩] := rfl
  have hservices : services.generate postingContext
      (discover postingContext.declarations services.marker) = .ok [.ofClass postingProxy] := by
    rw [hgroups]
    exact mapM_eq_ok_iff.mpr (.cons hproxy .nil)
  have hresources : resources.generate postingContext
      (discover postingContext.declarations resources.marker) = .ok [] := rfl
  exact .cons hresources (.cons hservices .nil)

/-- The proxy is one of the classes that `Scoping` is about. -/
theorem scoping_of_made_posting :
    Made postingContext [resources, services] (.ofClass postingProxy) ∧
    ∃ cls, Artifact.ofClass postingProxy = .ofClass cls ∧
      ∀ method ∈ cls.methods, Scoping postingContext method := by
  have hmade : Made postingContext [resources, services] (.ofClass postingProxy) :=
    ⟨_, makes_posting, List.mem_cons_self⟩
  exact ⟨hmade, scoping_of_made (fun _ h => h) hmade⟩

/-- A method that posts an argument called `service` calls the argument. -/
theorem service_hidden :
    postingContext.declarations.validate = .ok () ∧ postingContext.config.validate = .ok () ∧
    Made postingContext [resources, services] (.ofClass postingProxy) ∧
    ∃ d : Draft, d.method ∈ postingProxy.methods ∧ d.params.map (·.name) = ["service"] ∧ ¬d.AsMeant ∧
      d.method.body =
        ["return service.invoke(requestBuilder(\"/users\", service, " ++
           "contractgen.runtime.HttpMethod.POST)",
         "        .build(), com.example.User.class);"] := by
  refine ⟨rfl, rfl, ⟨_, makes_posting, List.mem_cons_self⟩, postingDraft "create" "service", ?_, rfl,
    by decide, ?_⟩
  · simp [postingProxy, proxyClass]
  · decide +kernel

end ContractForge
