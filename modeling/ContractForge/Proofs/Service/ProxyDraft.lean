import ContractForge.Proofs.Java.Scope
import ContractForge.Proofs.Service.CallReading
import ContractForge.Proofs.Service.Members

/-!
# The names in a proxy

* `constructorDraft`, `requestBuilderDraft`, `callDraft` : the methods of a proxy by their parts.
* `SparesCall` : a name that hides nothing which a call needs.

The constructor and the helper have parameters of their own, which hide nothing, unless a content type is
configured that begins with one of them. A call is made with the names of declared parameters, and hides
nothing exactly if all of these are spared (`asMeant_callDraft_iff`).
-/

namespace ContractForge

open Java (Part Draft firstPart ownNames argumentNames lineSource lineSource_nil lineSource_cons
  lineSource_append)

/-! ### Constructor and helper -/

/-- The constructor of a proxy. Its parameters are passed on to the fields of the same names. -/
def constructorDraft (names : RuntimeNames) (className : String) : Draft where
  annotations := [names.inject]
  head := "public " ++ className
  params := [⟨names.remoteService, serviceField⟩,
    ⟨"@" ++ names.nullable ++ " " ++ interceptorType names, interceptorField⟩]
  body :=
    [[.text ("this." ++ serviceField ++ " = "), .own "java.util.Objects", .text ".requireNonNull(",
       .argument serviceField, .text ");"],
     [.text ("this." ++ interceptorField ++ " = "), .argument interceptorField, .text ";"]]
  passed := by simp [List.filterMap_cons, Part.argument?]

/-- The helper of a proxy. -/
def requestBuilderDraft (names : RuntimeNames) : Draft where
  annotations := []
  head := "private " ++ builderType names ++ " requestBuilder"
  params := [⟨"String", "path"⟩, ⟨"@" ++ names.nullable ++ " Object", "requestDto"⟩,
    ⟨names.httpMethod, "method"⟩]
  body :=
    [[.text (builderType names ++ " builder = "), .own serviceField, .text ".requestBuilder(",
       .argument "path", .text ", ", .argument "requestDto", .text ")"],
     [.text (continuation ++ ".method("), .argument "method", .text ")"],
     [.text (continuation ++ ".contentType("), .own names.contentType, .text ");"],
     [.text "return ", .own interceptorField, .text " != null"],
     [.text (continuation ++ "? "), .own interceptorField, .text ".apply(builder)"],
     [.text (continuation ++ ": builder;")]]
  passed := by simp [List.filterMap_cons, Part.argument?]

theorem method_constructorDraft (names : RuntimeNames) (className : String) :
    (constructorDraft names className).method = proxyConstructor names className := by
  have hcheck : " = java.util.Objects.requireNonNull(" =
      " = " ++ ("java.util.Objects" ++ ".requireNonNull(") := by decide
  have hnullable : ", @" = ", " ++ "@" := by decide
  unfold Draft.method constructorDraft proxyConstructor
  rw [Java.Method.mk.injEq]
  refine ⟨?_, rfl, ?_⟩
  · simp only [List.map_cons, List.map_nil, String.intercalate_cons_cons,
      String.intercalate_singleton, String.append_assoc, hnullable]
  · simp only [List.map_cons, List.map_nil, lineSource_cons, lineSource_nil, Part.source,
      String.append_empty, String.append_assoc, hcheck]

theorem method_requestBuilderDraft (names : RuntimeNames) :
    (requestBuilderDraft names).method = proxyRequestBuilder names := by
  have hparams : " requestBuilder(String path, @" =
      " requestBuilder" ++ ("(" ++ ("String" ++ (" " ++ ("path" ++ (", " ++ "@"))))) := by decide
  have hdto : " Object requestDto, " = " Object" ++ (" " ++ ("requestDto" ++ ", ")) := by decide
  have hmethod : " method)" = " " ++ ("method" ++ ")") := by decide
  have hcall : ".requestBuilder(path, requestDto)" =
      ".requestBuilder(" ++ ("path" ++ (", " ++ ("requestDto" ++ ")"))) := by decide
  have hset : ".method(method)" = ".method(" ++ ("method" ++ ")") := by decide
  simp only [Draft.method, requestBuilderDraft, proxyRequestBuilder, List.map_cons, List.map_nil,
    lineSource_cons, lineSource_nil, Part.source, String.append_empty, String.append_assoc,
    String.intercalate_cons_cons, String.intercalate_singleton, hparams, hdto, hmethod, hcall, hset]

theorem asMeant_constructorDraft (names : RuntimeNames) (className : String) :
    (constructorDraft names className).AsMeant := by
  have hnames : ownNames (constructorDraft names className).body = ["java.util.Objects"] := rfl
  have hparams : (constructorDraft names className).params.map (·.name) =
      [serviceField, interceptorField] := rfl
  unfold Draft.AsMeant
  rw [hnames, hparams]
  decide

theorem asMeant_requestBuilderDraft_iff (names : RuntimeNames) :
    (requestBuilderDraft names).AsMeant ↔
      firstPart names.contentType ∉ ["path", "requestDto", "method"] := by
  have hnames : ownNames (requestBuilderDraft names).body =
      [serviceField, names.contentType, interceptorField, interceptorField] := rfl
  have hparams : (requestBuilderDraft names).params.map (·.name) =
      ["path", "requestDto", "method"] := rfl
  have hfields : firstPart serviceField ∉ ["path", "requestDto", "method"] ∧
      firstPart interceptorField ∉ ["path", "requestDto", "method"] := by decide
  unfold Draft.AsMeant
  rw [hnames, hparams]
  constructor
  · intro h
    exact h _ (by simp)
  · intro h name hname
    simp only [List.mem_cons, List.not_mem_nil, or_false] at hname
    rcases hname with rfl | rfl | rfl | rfl
    · exact hfields.1
    · exact h
    · exact hfields.2
    · exact hfields.2

/-! ### Calls -/

/-- What is sent as the body of a request. -/
def contentPart (m : Method) (verb : Verb) : Part :=
  match m.params.head? with
  | some p => if verb.hasBody then .argument p.name else .text "null"
  | none => .text "null"

/-- The first line of a call. -/
def headParts (names : RuntimeNames) (m : Method) (verb : Verb) : List Part :=
  [.text "return ", .own serviceField,
    .text (".invoke(requestBuilder(" ++ Java.literal (m.markers.path.getD "") ++ ", "),
    contentPart m verb, .text ", ", .own names.httpMethod, .text ("." ++ verb.name ++ ")")]

/-- The line that adds a member of an argument. -/
def memberParts (argument : String) (x : SentMember) : List Part :=
  let start : Part := .text (continuation ++ ".queryParam(" ++ Java.literal x.name ++ ", ")
  if x.type.isString then [start, .argument argument, .text (x.access ++ ")")]
  else [start, .own "String", .text ".valueOf(", .argument argument, .text (x.access ++ "))")]

/-- The members of the argument that are sent as query parameters. -/
def queryMembers (set : DeclarationSet) (m : Method) (verb : Verb) : List SentMember :=
  if verb.hasBody then [] else (m.params.head?.bind (sentMembers? set)).getD []

/-- The lines that add these members. -/
def queryLines (set : DeclarationSet) (m : Method) (verb : Verb) : List (List Part) :=
  (m.params.take 1).flatMap fun p => (queryMembers set m verb).map (memberParts p.name)

/-- The description of a payload. A class literal begins with the name of a type, which no parameter
hides. -/
def descriptorParts (names : RuntimeNames) (payload : TypeRef) : List Part :=
  if payload.isGeneric then
    [.own names.typeLiteral, .text (".create(" ++ classLiteral payload.name ++ ", " ++
      ", ".intercalate (payload.args.map fun arg => classLiteral arg.name) ++ ")")]
  else [.text (classLiteral payload.name)]

/-- The lines of a call. -/
def callLines (names : RuntimeNames) (set : DeclarationSet) (m : Method) (verb : Verb)
    (payload : TypeRef) : List (List Part) :=
  headParts names m verb :: queryLines set m verb ++
    [.text (continuation ++ ".build(), ") :: descriptorParts names payload ++ [.text ");"]]

/-! ### The text of a call -/

theorem source_contentPart (m : Method) (verb : Verb) :
    (contentPart m verb).source =
      if verb.hasBody then (m.params.head?.map (·.name)).getD "null" else "null" := by
  unfold contentPart
  cases m.params.head? with
  | none => simp [Part.source]
  | some p =>
    by_cases hbody : verb.hasBody = true
    · simp only [hbody, if_true, Part.source, Option.map_some, Option.getD_some]
    · simp only [hbody, Bool.false_eq_true, if_false, Part.source]

theorem lineSource_memberParts (argument : String) (x : SentMember) :
    lineSource (memberParts argument x) = (x.sent argument).line := by
  have hclose : "))" = ")" ++ ")" := by decide
  have hvalue : "String.valueOf(" = "String" ++ ".valueOf(" := by decide
  unfold memberParts SentMember.sent stringExpression QueryParam.line
  split
  next =>
    simp only [lineSource_cons, lineSource_nil, Part.source, String.append_empty,
      String.append_assoc]
  next =>
    simp only [lineSource_cons, lineSource_nil, Part.source, String.append_empty,
      String.append_assoc, hclose, hvalue]

theorem lineSource_descriptorParts (names : RuntimeNames) (payload : TypeRef) :
    lineSource (descriptorParts names payload) = payloadDescriptor names payload := by
  unfold descriptorParts payloadDescriptor
  split
  next =>
    simp only [lineSource_cons, lineSource_nil, Part.source, String.append_empty,
      String.append_assoc]
  next => simp only [lineSource_cons, lineSource_nil, Part.source, String.append_empty]

/-- The members that are sent are the query parameters of a method. -/
theorem map_sent_queryMembers {set : DeclarationSet} {c : Contract} {m : Method} {verb : Verb}
    {query : List QueryParam} (hbody : verb.hasBody = false)
    (h : methodQuery set c m = .ok query) :
    query = (m.params.take 1).flatMap fun p =>
      (queryMembers set m verb).map (SentMember.sent p.name) := by
  unfold methodQuery at h
  unfold queryMembers
  cases hparams : m.params with
  | nil =>
    rw [hparams] at h
    exact (Except.ok.inj h).symm
  | cons p rest =>
    rw [hparams, List.head?_cons] at h
    dsimp only at h
    rw [queryParams?_eq] at h
    cases hmembers : sentMembers? set p with
    | none =>
      rw [hmembers] at h
      cases h
    | some members =>
      rw [hmembers] at h
      obtain rfl := Except.ok.inj h
      simp [hbody, hmembers]

theorem map_lineSource_queryLines (set : DeclarationSet) (m : Method) (verb : Verb) :
    (queryLines set m verb).map lineSource =
      ((m.params.take 1).flatMap fun p =>
        (queryMembers set m verb).map (SentMember.sent p.name)).map QueryParam.line := by
  rw [queryLines, List.map_flatMap, List.map_flatMap]
  congr 1
  funext p
  rw [List.map_map, List.map_map]
  exact List.map_congr_left fun x _ => lineSource_memberParts p.name x

/-- The lines of a call are those of the method. -/
theorem map_lineSource_callLines {names : RuntimeNames} {set : DeclarationSet} {c : Contract}
    {m : Method} {call : ServiceCall} {payload : TypeRef}
    (h : ServiceCall.ofMethod names set c m = .ok call)
    (hpayload : payload? names m.returns = some payload) :
    (callLines names set m call.verb payload).map lineSource = call.body names := by
  obtain ⟨verb, found, -, -, hfound, hroute, hverb, hdescriptor, hsent⟩ := ofMethod_eq_ok h
  obtain rfl : found = payload := Option.some.inj (hfound.symm.trans hpayload)
  rw [← hverb] at hsent
  have hcontent : (contentPart m call.verb).source = call.content := by
    rw [source_contentPart]
    by_cases hbody : call.verb.hasBody = true
    · rw [if_pos hbody] at hsent ⊢
      exact hsent.1.symm
    · rw [if_neg hbody] at hsent ⊢
      exact hsent.1.symm
  have hquery : (queryLines set m call.verb).map lineSource = call.query.map QueryParam.line := by
    rw [map_lineSource_queryLines]
    by_cases hbody : call.verb.hasBody = true
    · rw [if_pos hbody] at hsent
      simp [hsent.2, queryMembers, hbody]
    · rw [if_neg hbody] at hsent
      rw [← map_sent_queryMembers (by simpa using hbody) hsent.2]
  have hhead : lineSource (headParts names m call.verb) = call.headLine names := by
    unfold headParts ServiceCall.headLine
    simp only [hroute, ← hcontent]
    simp only [lineSource_cons, lineSource_nil, Part.source, String.append_empty,
      String.append_assoc]
  have hlast : lineSource (.text (continuation ++ ".build(), ") :: descriptorParts names found ++
      [.text ");"]) = continuation ++ ".build(), " ++ call.descriptor ++ ");" := by
    rw [hdescriptor, ← lineSource_descriptorParts]
    simp only [List.cons_append, lineSource_cons, lineSource_append, lineSource_nil, Part.source,
      String.append_empty, String.append_assoc]
  unfold callLines ServiceCall.body
  rw [List.map_append, List.map_cons, List.map_cons, List.map_nil, hhead, hquery, hlast]

/-! ### The names in a call -/

theorem contentPart_eq_or (m : Method) (verb : Verb) :
    contentPart m verb = .text "null" ∨ ∃ p ∈ m.params, contentPart m verb = .argument p.name := by
  unfold contentPart
  cases hparams : m.params with
  | nil => exact .inl rfl
  | cons p rest =>
    by_cases hbody : verb.hasBody = true
    · exact .inr ⟨p, List.mem_cons_self, if_pos hbody⟩
    · exact .inl (if_neg hbody)

theorem argument?_headParts (names : RuntimeNames) (m : Method) (verb : Verb) :
    (headParts names m verb).filterMap Part.argument? ⊆ m.params.map (·.name) := by
  unfold headParts
  rcases contentPart_eq_or m verb with hcontent | ⟨p, hp, hcontent⟩
  · simp [hcontent, List.filterMap_cons, Part.argument?]
  · simpa [hcontent, List.filterMap_cons, Part.argument?] using ⟨p, hp, rfl⟩

theorem own?_headParts (names : RuntimeNames) (m : Method) (verb : Verb) :
    (headParts names m verb).filterMap Part.own? = [serviceField, names.httpMethod] := by
  unfold headParts
  rcases contentPart_eq_or m verb with hcontent | ⟨p, hp, hcontent⟩
  · rw [hcontent]
    rfl
  · rw [hcontent]
    rfl

theorem argument?_memberParts (argument : String) (x : SentMember) :
    (memberParts argument x).filterMap Part.argument? = [argument] := by
  unfold memberParts
  dsimp only
  split <;> rfl

theorem own?_memberParts (argument : String) (x : SentMember) :
    (memberParts argument x).filterMap Part.own? = if x.type.isString then [] else ["String"] := by
  unfold memberParts
  dsimp only
  split <;> rfl

theorem mem_queryLines_iff {set : DeclarationSet} {m : Method} {verb : Verb} {line : List Part} :
    line ∈ queryLines set m verb ↔
      ∃ p ∈ m.params.take 1, ∃ x ∈ queryMembers set m verb, memberParts p.name x = line := by
  simp only [queryLines, List.mem_flatMap, List.mem_map]

theorem argumentNames_queryLines (set : DeclarationSet) (m : Method) (verb : Verb) :
    argumentNames (queryLines set m verb) ⊆ m.params.map (·.name) := by
  intro name hname
  obtain ⟨line, hline, hmem⟩ := List.mem_flatMap.mp hname
  obtain ⟨p, hp, x, -, rfl⟩ := mem_queryLines_iff.mp hline
  rw [argument?_memberParts, List.mem_singleton] at hmem
  rw [hmem]
  exact List.mem_map_of_mem (List.mem_of_mem_take hp)

theorem mem_ownNames_queryLines {set : DeclarationSet} {m : Method} {verb : Verb} {name : String} :
    name ∈ ownNames (queryLines set m verb) ↔
      name = "String" ∧ m.params ≠ [] ∧
        ∃ x ∈ queryMembers set m verb, x.type.isString = false := by
  constructor
  · intro hname
    obtain ⟨line, hline, hmem⟩ := List.mem_flatMap.mp hname
    obtain ⟨p, hp, x, hx, rfl⟩ := mem_queryLines_iff.mp hline
    rw [own?_memberParts] at hmem
    split at hmem
    next => cases hmem
    next htype =>
      have hne : m.params ≠ [] := List.ne_nil_of_mem (List.mem_of_mem_take hp)
      exact ⟨List.mem_singleton.mp hmem, hne, x, hx, by simpa using htype⟩
  · intro h
    obtain ⟨rfl, hne, x, hx, htype⟩ := h
    obtain ⟨p, rest, hparams⟩ := List.exists_cons_of_ne_nil hne
    have hp : p ∈ m.params.take 1 := by simp [hparams]
    refine List.mem_flatMap.mpr ⟨_, mem_queryLines_iff.mpr ⟨p, hp, x, hx, rfl⟩, ?_⟩
    rw [own?_memberParts, if_neg (by simp [htype])]
    exact List.mem_singleton_self _

theorem argument?_descriptorParts (names : RuntimeNames) (payload : TypeRef) :
    (descriptorParts names payload).filterMap Part.argument? = [] := by
  unfold descriptorParts
  split <;> rfl

theorem own?_descriptorParts (names : RuntimeNames) (payload : TypeRef) :
    (descriptorParts names payload).filterMap Part.own? =
      if payload.isGeneric then [names.typeLiteral] else [] := by
  unfold descriptorParts
  split <;> rfl

theorem argumentNames_callLines (names : RuntimeNames) (set : DeclarationSet) (m : Method)
    (verb : Verb) (payload : TypeRef) :
    argumentNames (callLines names set m verb payload) ⊆ m.params.map (·.name) := by
  have hhead := argument?_headParts names m verb
  have hquery := argumentNames_queryLines set m verb
  rw [callLines, Java.argumentNames_append, Java.argumentNames_cons]
  simp only [Java.argumentNames_cons, Java.argumentNames_nil, List.filterMap_append,
    List.filterMap_cons, List.filterMap_nil, Part.argument?, argument?_descriptorParts,
    List.append_nil, List.cons_append]
  exact List.append_subset.mpr ⟨hhead, hquery⟩

/-- The names of its own with which a call begins an expression. -/
theorem mem_ownNames_callLines {names : RuntimeNames} {set : DeclarationSet} {m : Method}
    {verb : Verb} {payload : TypeRef} {name : String} :
    name ∈ ownNames (callLines names set m verb payload) ↔
      name = serviceField ∨ name = names.httpMethod ∨
      (name = "String" ∧ m.params ≠ [] ∧
        ∃ x ∈ queryMembers set m verb, x.type.isString = false) ∨
      payload.isGeneric = true ∧ name = names.typeLiteral := by
  rw [← mem_ownNames_queryLines, callLines, Java.ownNames_append, Java.ownNames_cons,
    own?_headParts]
  simp [List.filterMap_cons, Part.own?, own?_descriptorParts]

/-- The implementation of a method that makes a call. -/
def callDraft (names : RuntimeNames) (set : DeclarationSet) (m : Method) (verb : Verb)
    (payload : TypeRef) : Draft :=
  Draft.overriding m (callLines names set m verb payload)
    (argumentNames_callLines names set m verb payload)

theorem proxyMethod_eq_draft {context : PassContext} {c : Contract} {m : Method}
    {call : ServiceCall} {payload : TypeRef}
    (h : ServiceCall.ofMethod context.config.runtime context.declarations c m = .ok call)
    (hpayload : payload? context.config.runtime m.returns = some payload) :
    proxyMethod context c m =
      .ok (callDraft context.config.runtime context.declarations m call.verb payload).method := by
  unfold proxyMethod
  dsimp only
  rw [h, callDraft, Draft.method_overriding, map_lineSource_callLines h hpayload]
  rfl

/-- A parameter of this name hides nothing that a call needs. -/
structure SparesCall (names : RuntimeNames) (set : DeclarationSet) (m : Method) (verb : Verb)
    (payload : TypeRef) (name : String) : Prop where
  service : name ≠ serviceField
  verbs : name ≠ firstPart names.httpMethod
  /-- A member that is no string is converted to one. -/
  conversion : (∃ x ∈ queryMembers set m verb, x.type.isString = false) → name ≠ "String"
  literal : payload.isGeneric = true → name ≠ firstPart names.typeLiteral

theorem asMeant_callDraft_iff {names : RuntimeNames} {set : DeclarationSet} {m : Method}
    {verb : Verb} {payload : TypeRef} :
    (callDraft names set m verb payload).AsMeant ↔
      ∀ p ∈ m.params, SparesCall names set m verb payload p.name := by
  have hservice : firstPart serviceField = serviceField := by decide
  have hstring : firstPart "String" = "String" := by decide
  rw [callDraft, Draft.asMeant_overriding_iff]
  refine forall₂_congr fun p hp => ?_
  have hne : m.params ≠ [] := List.ne_nil_of_mem hp
  constructor
  · intro h
    refine ⟨?_, ?_, fun hconverted => ?_, fun hgeneric => ?_⟩
    · rw [← hservice]
      exact h _ (mem_ownNames_callLines.mpr (.inl rfl))
    · exact h _ (mem_ownNames_callLines.mpr (.inr (.inl rfl)))
    · rw [← hstring]
      exact h _ (mem_ownNames_callLines.mpr (.inr (.inr (.inl ⟨rfl, hne, hconverted⟩))))
    · exact h _ (mem_ownNames_callLines.mpr (.inr (.inr (.inr ⟨hgeneric, rfl⟩))))
  · intro h name hname
    rcases mem_ownNames_callLines.mp hname with rfl | rfl | ⟨rfl, -, hconverted⟩ | ⟨hgeneric, rfl⟩
    · rw [hservice]
      exact h.service
    · exact h.verbs
    · rw [hstring]
      exact h.conversion hconverted
    · exact h.literal hgeneric

end ContractForge
