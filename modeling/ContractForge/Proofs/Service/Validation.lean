import ContractForge.Proofs.Generation.Implementations
import ContractForge.Proofs.Service.CallReading

/-!
# Which service methods are accepted

* `ServiceRule` : the rules for a method with a route, and `ServiceRule.inOrder`, the order in which
  they are checked.
* `ServiceRule.Kept` : what a rule demands.
* `ServiceRule.Broken` : how a rule is broken, and what is reported of it.
* `FirstBroken` : the report of the first rule that a method breaks.

`services_report_first_fault` : proxies are made exactly if every method with a route keeps all rules.
Otherwise the first rule that is broken by the first method that breaks one is reported.
-/

namespace ContractForge

/-- The verbs, as markers in upper case. -/
def verbNames : List String :=
  ["GET", "POST", "PUT", "DELETE", "HEAD"]

/-- The verbs whose argument is sent as query parameters. -/
def queryVerbNames : List String :=
  ["GET", "DELETE", "HEAD"]

/-- The rules for a method with a route. -/
inductive ServiceRule where
  | oneVerb
  | knownVerb
  | oneParameter
  | eventualResult
  | declaredArgument
  deriving DecidableEq

namespace ServiceRule

/-- The order in which the rules are checked. -/
def inOrder : List ServiceRule :=
  [oneVerb, knownVerb, oneParameter, eventualResult, declaredArgument]

/-- What a rule demands of a method. -/
def Kept (context : PassContext) (m : Method) : ServiceRule → Prop
  | oneVerb => ∃ marker, m.markers.verbs = [marker]
  | knownVerb => ∀ marker, m.markers.verbs = [marker] → marker.map Char.toUpper ∈ verbNames
  | oneParameter => m.params.length ≤ 1
  | eventualResult => ∃ payload, m.returns = .mk context.config.runtime.promise [payload]
  | declaredArgument => ∀ marker p, m.markers.verbs = [marker] → m.params = [p] →
      marker.map Char.toUpper ∈ queryVerbNames → p.type.isScalar = false →
      ∃ d ∈ context.declarations.types, d.name = p.type.name

/-- The method of a contract breaks a rule, and this is reported. -/
inductive Broken (context : PassContext) (contract : String) (m : Method) :
    ServiceRule → GenerationError → Prop
  | noVerb (hverbs : m.markers.verbs = []) :
    Broken context contract m oneVerb (.noVerb contract m.name)
  | severalVerbs (hverbs : 2 ≤ m.markers.verbs.length) :
    Broken context contract m oneVerb (.severalVerbs contract m.name m.markers.verbs)
  | unknownVerb {marker : String} (hverbs : m.markers.verbs = [marker])
      (hunknown : marker.map Char.toUpper ∉ verbNames) :
    Broken context contract m knownVerb (.unknownVerb contract m.name marker)
  | tooManyParameters (hparams : 2 ≤ m.params.length) :
    Broken context contract m oneParameter (.tooManyParameters contract m.name m.params.length)
  | notEventual (hreturns : ∀ payload, m.returns ≠ .mk context.config.runtime.promise [payload]) :
    Broken context contract m eventualResult
      (.notEventual contract m.name context.config.runtime.promise m.returns.sourceName)
  | unresolvedType {marker : String} {p : Parameter} (hverbs : m.markers.verbs = [marker])
      (hparams : m.params = [p]) (hquery : marker.map Char.toUpper ∈ queryVerbNames)
      (hscalar : p.type.isScalar = false)
      (hundeclared : ∀ d ∈ context.declarations.types, d.name ≠ p.type.name) :
    Broken context contract m declaredArgument
      (.unresolvedType contract m.name p.type.sourceName)

end ServiceRule

/-- The first rule that a method breaks, in the order of the rules, is reported. -/
def FirstBroken (context : PassContext) (contract : String) (m : Method) (e : GenerationError) :
    Prop :=
  ∃ before rule after, ServiceRule.inOrder = before ++ rule :: after ∧
    (∀ r ∈ before, r.Kept context m) ∧ rule.Broken context contract m e

/-! ### The rules as checks -/

theorem ofMarker?_eq_some_iff {marker : String} {verb : Verb} :
    Verb.ofMarker? marker = some verb ↔ marker.map Char.toUpper = verb.name := by
  constructor
  · intro h
    have hname : verb.name.toList = marker.toList.map Char.toUpper := by
      simpa using List.find?_some h
    rw [← String.toList_inj, String.toList_map, hname]
  · intro h
    have hname : marker.toList.map Char.toUpper = verb.name.toList := by
      rw [← String.toList_map, h]
    rw [Verb.ofMarker?, hname]
    cases verb <;> rfl

theorem mem_verbNames_iff {name : String} : name ∈ verbNames ↔ ∃ verb : Verb, name = verb.name := by
  constructor
  · intro h
    simp only [verbNames, List.mem_cons, List.not_mem_nil, or_false] at h
    rcases h with rfl | rfl | rfl | rfl | rfl
    · exact ⟨.get, rfl⟩
    · exact ⟨.post, rfl⟩
    · exact ⟨.put, rfl⟩
    · exact ⟨.delete, rfl⟩
    · exact ⟨.head, rfl⟩
  · rintro ⟨verb, rfl⟩
    cases verb <;> decide

theorem ofMarker?_eq_none_iff {marker : String} :
    Verb.ofMarker? marker = none ↔ marker.map Char.toUpper ∉ verbNames := by
  rw [mem_verbNames_iff, Option.eq_none_iff_forall_ne_some]
  simp only [ne_eq, ofMarker?_eq_some_iff, not_exists]

theorem name_mem_queryVerbNames_iff {verb : Verb} :
    verb.name ∈ queryVerbNames ↔ verb.hasBody = false := by
  cases verb <;> decide

theorem payload?_eq_some_iff {names : RuntimeNames} {returns payload : TypeRef} :
    payload? names returns = some payload ↔ returns = .mk names.promise [payload] := by
  constructor
  · exact payload?_eq_some
  · rintro rfl
    simp [payload?, TypeRef.args, TypeRef.name]

theorem payload?_eq_none_iff {names : RuntimeNames} {returns : TypeRef} :
    payload? names returns = none ↔ ∀ payload, returns ≠ .mk names.promise [payload] := by
  rw [Option.eq_none_iff_forall_ne_some]
  simp only [ne_eq, payload?_eq_some_iff]

theorem queryParams?_eq_none_iff {set : DeclarationSet} {p : Parameter} :
    queryParams? set p = none ↔ p.type.isScalar = false ∧ ∀ d ∈ set.types, d.name ≠ p.type.name := by
  unfold queryParams? DeclarationSet.findType?
  by_cases hscalar : p.type.isScalar = true
  · simp [hscalar]
  · simp [hscalar]

namespace ServiceRule

variable {context : PassContext} {contract : String} {c : Contract} {m : Method} {rule : ServiceRule}
  {e : GenerationError}

/-- What the check of one rule reports. -/
def fault? (context : PassContext) (contract : String) (m : Method) :
    ServiceRule → Option GenerationError
  | oneVerb =>
    match m.markers.verbs with
    | [] => some (.noVerb contract m.name)
    | [_] => none
    | verbs => some (.severalVerbs contract m.name verbs)
  | knownVerb =>
    match m.markers.verbs with
    | [marker] =>
      if (Verb.ofMarker? marker).isNone then some (.unknownVerb contract m.name marker) else none
    | _ => none
  | oneParameter =>
    if 1 < m.params.length then some (.tooManyParameters contract m.name m.params.length) else none
  | eventualResult =>
    if (payload? context.config.runtime m.returns).isNone then
      some (.notEventual contract m.name context.config.runtime.promise m.returns.sourceName)
    else none
  | declaredArgument =>
    match m.markers.verbs, m.params with
    | [marker], [p] =>
      if (Verb.ofMarker? marker).any (!·.hasBody) && (queryParams? context.declarations p).isNone then
        some (.unresolvedType contract m.name p.type.sourceName)
      else none
    | _, _ => none

theorem any_ofMarker?_iff {marker : String} :
    (Verb.ofMarker? marker).any (!·.hasBody) = true ↔
      marker.map Char.toUpper ∈ queryVerbNames := by
  cases hmarker : Verb.ofMarker? marker with
  | none =>
    have hunknown := ofMarker?_eq_none_iff.mp hmarker
    have hsub : queryVerbNames ⊆ verbNames := by decide
    simpa using fun hquery => hunknown (hsub hquery)
  | some verb => rw [ofMarker?_eq_some_iff.mp hmarker, name_mem_queryVerbNames_iff]; simp

/-- A check is silent exactly if its rule is kept. -/
theorem fault?_eq_none_iff : fault? context contract m rule = none ↔ rule.Kept context m := by
  cases rule with
  | oneVerb =>
    rcases hverbs : m.markers.verbs with _ | ⟨marker, _ | ⟨second, rest⟩⟩ <;>
      simp [fault?, Kept, hverbs]
  | knownVerb =>
    rcases hverbs : m.markers.verbs with _ | ⟨marker, _ | ⟨second, rest⟩⟩
    · simp [fault?, Kept, hverbs]
    · simp [fault?, Kept, hverbs, ofMarker?_eq_none_iff]
    · simp [fault?, Kept, hverbs]
  | oneParameter => simp [fault?, Kept]
  | eventualResult =>
    simp only [fault?, Kept, ← payload?_eq_some_iff, ← Option.isSome_iff_exists]
    cases payload? context.config.runtime m.returns <;> simp
  | declaredArgument =>
    rcases hverbs : m.markers.verbs with _ | ⟨marker, _ | ⟨second, rest⟩⟩
    · simp [fault?, Kept, hverbs]
    · rcases hparams : m.params with _ | ⟨p, _ | ⟨second, rest⟩⟩
      · simp [fault?, Kept, hverbs, hparams]
      · simp [fault?, Kept, hverbs, hparams, any_ofMarker?_iff, queryParams?_eq_none_iff]
      · simp [fault?, Kept, hverbs, hparams]
    · simp [fault?, Kept, hverbs]

/-- A check reports exactly how its rule is broken. -/
theorem fault?_eq_some_iff :
    fault? context contract m rule = some e ↔ rule.Broken context contract m e := by
  constructor
  · intro h
    cases rule with
    | oneVerb =>
      rcases hverbs : m.markers.verbs with _ | ⟨marker, _ | ⟨second, rest⟩⟩
      · simp only [fault?, hverbs] at h
        cases h
        exact .noVerb hverbs
      · simp [fault?, hverbs] at h
      · simp only [fault?, hverbs] at h
        cases h
        rw [← hverbs]
        exact .severalVerbs (by simp [hverbs])
    | knownVerb =>
      simp only [fault?] at h
      split at h
      next marker hverbs =>
        split_ifs at h with hunknown
        cases h
        exact .unknownVerb hverbs (ofMarker?_eq_none_iff.mp (Option.isNone_iff_eq_none.mp hunknown))
      next => cases h
    | oneParameter =>
      simp only [fault?] at h
      split_ifs at h with hparams
      cases h
      exact .tooManyParameters hparams
    | eventualResult =>
      simp only [fault?] at h
      split_ifs at h with hnone
      cases h
      exact .notEventual (payload?_eq_none_iff.mp (Option.isNone_iff_eq_none.mp hnone))
    | declaredArgument =>
      simp only [fault?] at h
      split at h
      next marker p hverbs hparams =>
        split_ifs at h with hfault
        cases h
        obtain ⟨hquery, hundeclared⟩ := Bool.and_eq_true_iff.mp hfault
        obtain ⟨hscalar, hnone⟩ :=
          queryParams?_eq_none_iff.mp (Option.isNone_iff_eq_none.mp hundeclared)
        exact .unresolvedType hverbs hparams (any_ofMarker?_iff.mp hquery) hscalar hnone
      next => cases h
  · intro h
    cases h with
    | noVerb hverbs => simp [fault?, hverbs]
    | severalVerbs hverbs =>
      rcases hlist : m.markers.verbs with _ | ⟨marker, _ | ⟨second, rest⟩⟩
      · simp [hlist] at hverbs
      · simp [hlist] at hverbs
      · simp [fault?, hlist]
    | unknownVerb hverbs hunknown => simp [fault?, hverbs, ofMarker?_eq_none_iff.mpr hunknown]
    | tooManyParameters hparams => exact if_pos hparams
    | notEventual hreturns => simp [fault?, payload?_eq_none_iff.mpr hreturns]
    | unresolvedType hverbs hparams hquery hscalar hundeclared =>
      have hnone := queryParams?_eq_none_iff.mpr ⟨hscalar, hundeclared⟩
      simp [fault?, hverbs, hparams, any_ofMarker?_iff.mpr hquery, hnone]

end ServiceRule

/-! ### One method -/

open ServiceRule (fault? fault?_eq_none_iff fault?_eq_some_iff)

variable {context : PassContext} {c : Contract} {m : Method} {e : GenerationError}

/-- The last check refuses an argument exactly if it is sent as query parameters and has none. -/
theorem fault?_declaredArgument {marker : String} {verb : Verb} (hverbs : m.markers.verbs = [marker])
    (hmarker : Verb.ofMarker? marker = some verb) (hcount : ¬1 < m.params.length) :
    fault? context c.name m .declaredArgument =
      if verb.hasBody then none else failure? (methodQuery context.declarations c m) := by
  rcases hparams : m.params with _ | ⟨p, _ | ⟨second, rest⟩⟩
  · simp [methodQuery, fault?, hverbs, hparams, failure?]
  · cases hquery : queryParams? context.declarations p <;> cases hbody : verb.hasBody <;>
      simp [methodQuery, fault?, hverbs, hparams, hmarker, hbody, hquery, failure?]
  · simp [hparams] at hcount

/-- A method is refused with the report of the first check that is not silent. -/
theorem failure?_ofMethod (context : PassContext) (c : Contract) (m : Method) :
    failure? (ServiceCall.ofMethod context.config.runtime context.declarations c m) =
      ServiceRule.inOrder.findSome? (fault? context c.name m) := by
  simp only [ServiceRule.inOrder, List.findSome?_cons, List.findSome?_nil]
  unfold ServiceCall.ofMethod methodVerb
  rcases hverbs : m.markers.verbs with _ | ⟨marker, _ | ⟨second, rest⟩⟩
  · simp [fault?, hverbs, failure?, bind, Except.bind]
  · cases hmarker : Verb.ofMarker? marker with
    | none => simp [fault?, hverbs, hmarker, failure?, bind, Except.bind]
    | some verb =>
      by_cases hcount : 1 < m.params.length
      · simp [fault?, hverbs, hmarker, hcount, failure?, bind, Except.bind]
      · rw [fault?_declaredArgument hverbs hmarker hcount]
        cases hpayload : payload? context.config.runtime m.returns with
        | none => simp [fault?, hverbs, hmarker, hcount, hpayload, failure?, bind, Except.bind]
        | some payload =>
          simp only [fault?, hverbs, hmarker, hcount, hpayload, bind, Except.bind]
          cases hbody : verb.hasBody with
          | true => simp [failure?, pure, Except.pure]
          | false =>
            cases methodQuery context.declarations c m <;> simp [failure?, pure, Except.pure]
  · simp [fault?, hverbs, failure?, bind, Except.bind]

theorem findSome?_fault?_eq_none_iff {contract : String} :
    ServiceRule.inOrder.findSome? (fault? context contract m) = none ↔
      ∀ rule, ServiceRule.Kept context m rule := by
  rw [List.findSome?_eq_none_iff]
  simp only [fault?_eq_none_iff]
  refine ⟨fun h rule => h rule ?_, fun h rule _ => h rule⟩
  cases rule <;> decide

theorem findSome?_fault?_eq_some_iff {contract : String} :
    ServiceRule.inOrder.findSome? (fault? context contract m) = some e ↔
      FirstBroken context contract m e := by
  rw [List.findSome?_eq_some_iff]
  simp only [fault?_eq_none_iff, fault?_eq_some_iff]
  constructor
  · rintro ⟨before, rule, after, horder, hbroken, hkept⟩
    exact ⟨before, rule, after, horder, hkept, hbroken⟩
  · rintro ⟨before, rule, after, horder, hkept, hbroken⟩
    exact ⟨before, rule, after, horder, hbroken, hkept⟩

/-! ### The generator -/

theorem failure?_proxyMethod (context : PassContext) (c : Contract) (m : Method) :
    failure? (proxyMethod context c m) =
      ServiceRule.inOrder.findSome? (fault? context c.name m) := by
  rw [← failure?_ofMethod]
  exact failure?_bind_ok _ _

/-- The generator fails with the first report in the order of discovery. -/
theorem failure?_services (context : PassContext) :
    failure? (services.generate context (discover context.declarations .path)) =
      (context.declarations.marked .path).findSome? fun x =>
        ServiceRule.inOrder.findSome? (fault? context x.1 x.2) :=
  failure?_mapM_discover (f := proxyMethod context)
    (p := fun contract m => ServiceRule.inOrder.findSome? (fault? context contract m))
    (failure?_proxyMethod context) fun g methods =>
      Artifact.ofClass (proxyClass context.config.runtime g.contract methods)

/-- The artifact is the proxy of a contract: its class keeps the remote service and the interceptor and,
after the constructor and the helper that starts a request, implements the methods with bodies that
make the calls they declare. -/
def IsProxy (context : PassContext) (contract : String) (methods : List Method) (a : Artifact) :
    Prop :=
  ∃ x overrides, a.IsFileOf x ∧ x.Implements contract "" ∧
    x.fields = proxyFields context.config.runtime ∧ x.staticInit = [] ∧
    x.methods = proxyConstructor context.config.runtime x.name ::
      proxyRequestBuilder context.config.runtime :: overrides ∧
    Overrides (fun m lines => ∃ call, readCall? context.config.runtime lines = some call ∧
      Declares context m call) methods overrides

theorem isProxy_of_proxyArtifact {g : Group} {a : Artifact}
    (hpath : ∀ m ∈ g.methods, m.markers.path.isSome = true)
    (h : proxyArtifact context g = .ok a) : IsProxy context g.contract.name g.methods a := by
  obtain ⟨overrides, hmethods, hclass⟩ := bind_eq_ok_iff.mp h
  cases hclass
  refine ⟨_, overrides, .ofClass _, ⟨rfl, String.append_empty.symm, rfl⟩, rfl, rfl, rfl, ?_⟩
  have hall := (List.forall₂_and_left _ _).mpr ⟨hpath, mapM_eq_ok_iff.mp hmethods⟩
  refine hall.imp fun m method ⟨hroute, hmethod⟩ => ?_
  obtain ⟨call, hcall, hbody⟩ := bind_eq_ok_iff.mp hmethod
  obtain rfl := Except.ok.inj hbody
  exact ⟨_, ⟨call, readCall?_body _ call, ofMethod_declares hroute hcall⟩, .overriding m _⟩

/-- **Service methods are checked in order.** Proxies are made exactly if every method with a route
keeps every rule. Otherwise the report is that of the first rule that is broken by the first method
that breaks one, in the order of discovery, whatever is wrong with later rules and methods. On success
there is one proxy for each contract name with routes, in the order of discovery. -/
theorem services_report_first_fault (context : PassContext) :
    ((∃ made, services.generate context (discover context.declarations .path) = .ok made) ↔
      ∀ c ∈ context.declarations.contracts, ∀ m ∈ c.methods, m.markers.path.isSome = true →
        ∀ rule, ServiceRule.Kept context m rule) ∧
    (∀ e, services.generate context (discover context.declarations .path) = .error e ↔
      ∃ before contract m after,
        context.declarations.marked .path = before ++ (contract, m) :: after ∧
        (∀ x ∈ before, ∀ rule, ServiceRule.Kept context x.2 rule) ∧
        FirstBroken context contract m e) ∧
    ∀ made, services.generate context (discover context.declarations .path) = .ok made →
      List.Forall₂
        (fun name a => IsProxy context name (context.declarations.markedMethods .path name) a)
        (context.declarations.markedNames .path) made := by
  refine ⟨?_, fun e => ?_, fun made hmade => ?_⟩
  · rw [exists_ok_iff_of_failure? (failure?_services context)]
    simp only [findSome?_fault?_eq_none_iff]
    exact forall_marked_iff (P := fun m => ∀ rule, ServiceRule.Kept context m rule)
  · rw [eq_error_iff_of_failure? (failure?_services context)]
    simp only [findSome?_fault?_eq_none_iff, findSome?_fault?_eq_some_iff, Prod.exists]
  · refine forall₂_discover (R := fun name methods a => IsProxy context name methods a) ?_
    have hpath : ∀ g ∈ discover context.declarations .path, ∀ m ∈ g.methods,
        m.markers.path.isSome = true := by
      intro g hg m hm
      obtain ⟨c, -, -, -, hmarks⟩ := (declared_of_mem_discover hg).methods m hm
      exact hmarks
    have hall := (List.forall₂_and_left _ _).mpr ⟨hpath, mapM_eq_ok_iff.mp hmade⟩
    exact hall.imp fun g a ⟨hroutes, hproxy⟩ => isProxy_of_proxyArtifact hroutes hproxy

end ContractForge
