import ContractForge.Proofs.Generation.Steps
import ContractForge.Proofs.Java.StringLiteral
import ContractForge.Service.Proxy

/-!
# Reading service calls

The lines of a service method are read back as the call that they make.

* `readHead?`, `readQuery?`, `readEnd?` : the three kinds of line, each taken apart from both ends, so
  that expressions may hold any text.
* `readCall?` : the call of a whole body.
* `Declares` : what a method declares of the call it makes.

`readCall?_body` : a call is read back from its lines. `proxyMethod_declares` : what is read from the
body of an accepted method is what the method declares.
-/

namespace ContractForge

open Text (stripStart? stripEnd? stripStart?_append stripEnd?_append)
open Java (readLiteral? readLiteral?_literal)

/-! ### The lines of a call -/

/-- How the first line of a call ends: after its content, the verb. -/
def verbEnd (names : RuntimeNames) (verb : Verb) : List Char :=
  (", " ++ names.httpMethod ++ "." ++ verb.name ++ ")").toList

/-- The content and the verb at the end of the first line of a call. -/
def readVerb? (names : RuntimeNames) (s : List Char) : Option (String × Verb) :=
  Verb.all.findSome? fun verb =>
    (stripEnd? (verbEnd names verb) s).map fun content => (String.ofList content, verb)

/-- The route, the content and the verb of the first line of a call. -/
def readHead? (names : RuntimeNames) (line : String) : Option (String × String × Verb) := do
  let s ← stripStart? "return service.invoke(requestBuilder(".toList line.toList
  let (route, s) ← readLiteral? s
  let s ← stripStart? ", ".toList s
  let (content, verb) ← readVerb? names s
  return (String.ofList route, content, verb)

/-- The parameter that a line adds. -/
def readQuery? (line : String) : Option QueryParam := do
  let s ← stripStart? "        .queryParam(".toList line.toList
  let (name, s) ← readLiteral? s
  let s ← stripStart? ", ".toList s
  let value ← stripEnd? ")".toList s
  return ⟨String.ofList name, String.ofList value⟩

/-- The descriptor of the last line of a call. -/
def readEnd? (line : String) : Option String := do
  let s ← stripStart? "        .build(), ".toList line.toList
  let descriptor ← stripEnd? ");".toList s
  return String.ofList descriptor

/-- The parameters and the descriptor of the lines after the first. -/
def readFurther? : List String → Option (List QueryParam × String)
  | [] => none
  | [line] => (readEnd? line).map fun descriptor => ([], descriptor)
  | line :: rest => do
    let q ← readQuery? line
    let (query, descriptor) ← readFurther? rest
    return (q :: query, descriptor)

/-- The call that the lines of a body make. -/
def readCall? (names : RuntimeNames) : List String → Option ServiceCall
  | [] => none
  | head :: rest => do
    let (route, content, verb) ← readHead? names head
    let (query, descriptor) ← readFurther? rest
    return { route, verb, content, query, descriptor }

/-! ### Calls are read back -/

/-- The last two letters of a verb tell it from the others. -/
theorem eq_of_lastLetters {v w : Verb}
    (h : v.name.toList.reverse.take 2 = w.name.toList.reverse.take 2) : v = w := by
  revert h
  cases v <;> cases w <;> decide

theorem take_reverse_verbEnd (names : RuntimeNames) (verb : Verb) (s : List Char) :
    (s ++ verbEnd names verb).reverse.take 3 = ')' :: verb.name.toList.reverse.take 2 := by
  have hlength : 2 ≤ verb.name.toList.reverse.length := by
    cases verb <;> decide
  have hend : ")".toList.reverse = [')'] := rfl
  simp only [verbEnd, String.toList_append, List.reverse_append, hend, List.append_assoc,
    List.cons_append, List.nil_append, List.take_succ_cons, List.take_append_of_le_length hlength]

theorem eq_of_append_verbEnd {names : RuntimeNames} {v w : Verb} {a b : List Char}
    (h : a ++ verbEnd names v = b ++ verbEnd names w) : v = w := by
  have hlast := congrArg (fun s : List Char => s.reverse.take 3) h
  simp only [take_reverse_verbEnd] at hlast
  exact eq_of_lastLetters (List.cons.inj hlast).2

theorem mem_all (verb : Verb) : verb ∈ Verb.all := by
  cases verb <;> decide

theorem readVerb?_append (names : RuntimeNames) (content : List Char) (verb : Verb) :
    readVerb? names (content ++ verbEnd names verb) = some (String.ofList content, verb) := by
  unfold readVerb?
  have hself : stripEnd? (verbEnd names verb) (content ++ verbEnd names verb) = some content :=
    stripEnd?_append content _
  cases hfound : Verb.all.findSome? fun w =>
      (stripEnd? (verbEnd names w) (content ++ verbEnd names verb)).map
        fun content => (String.ofList content, w) with
  | none =>
    have hnone := List.findSome?_eq_none_iff.mp hfound verb (mem_all verb)
    simp [hself] at hnone
  | some found =>
    obtain ⟨w, -, hw⟩ := List.exists_of_findSome?_eq_some hfound
    obtain ⟨content', hstrip, rfl⟩ := Option.map_eq_some_iff.mp hw
    have hsplit := Text.stripEnd?_eq_some_iff.mp hstrip
    obtain rfl := eq_of_append_verbEnd hsplit
    rw [List.append_cancel_right hsplit]

theorem readHead?_headLine (names : RuntimeNames) (call : ServiceCall) :
    readHead? names (call.headLine names) = some (call.route, call.content, call.verb) := by
  have hstart : "return service.invoke(requestBuilder(" =
      "return " ++ serviceField ++ ".invoke(requestBuilder(" := by decide
  have hline : (call.headLine names).toList =
      "return service.invoke(requestBuilder(".toList ++ ((Java.literal call.route).toList ++
        (", ".toList ++ (call.content.toList ++ verbEnd names call.verb))) := by
    unfold ServiceCall.headLine
    rw [hstart]
    simp only [verbEnd, String.toList_append, List.append_assoc]
  simp only [readHead?, hline, stripStart?_append, readLiteral?_literal, readVerb?_append,
    Option.bind_eq_bind, Option.bind_some, Option.pure_def, String.ofList_toList]

theorem readQuery?_line (q : QueryParam) : readQuery? q.line = some q := by
  have hstart : "        .queryParam(" = continuation ++ ".queryParam(" := by decide
  have hline : q.line.toList = "        .queryParam(".toList ++ ((Java.literal q.name).toList ++
      (", ".toList ++ (q.value.toList ++ ")".toList))) := by
    rw [hstart]
    simp only [QueryParam.line, String.toList_append, List.append_assoc]
  simp only [readQuery?, hline, stripStart?_append, stripEnd?_append, readLiteral?_literal,
    Option.bind_eq_bind, Option.bind_some, Option.pure_def, String.ofList_toList]

theorem readEnd?_append (descriptor : String) :
    readEnd? (continuation ++ ".build(), " ++ descriptor ++ ");") = some descriptor := by
  have hstart : "        .build(), " = continuation ++ ".build(), " := by decide
  have hline : (continuation ++ ".build(), " ++ descriptor ++ ");").toList =
      "        .build(), ".toList ++ (descriptor.toList ++ ");".toList) := by
    rw [hstart]
    simp only [String.toList_append, List.append_assoc]
  simp only [readEnd?, hline, stripStart?_append, stripEnd?_append, Option.bind_eq_bind,
    Option.bind_some, Option.pure_def, String.ofList_toList]

theorem readFurther?_lines (query : List QueryParam) (descriptor : String) :
    readFurther? (query.map QueryParam.line ++
      [continuation ++ ".build(), " ++ descriptor ++ ");"]) = some (query, descriptor) := by
  induction query with
  | nil => simp [readFurther?, readEnd?_append]
  | cons q rest ih =>
    rw [List.map_cons, List.cons_append, readFurther?]
    · simp [readQuery?_line, ih]
    · simp

/-- A call is read back from its lines, whatever texts it is made of. -/
theorem readCall?_body (names : RuntimeNames) (call : ServiceCall) :
    readCall? names (call.body names) = some call := by
  simp [ServiceCall.body, readCall?, readHead?_headLine, readFurther?_lines]

/-! ### What a method declares -/

/-- The call is what a method declares: its route, its verb, what the verb sends, and the payload
that its result promises. -/
structure Declares (context : PassContext) (m : Method) (call : ServiceCall) : Prop where
  /-- The route is the path marker's text. -/
  route : m.markers.path = some call.route
  /-- The verb is the only marker's, in upper case. -/
  verb : ∃ marker, m.markers.verbs = [marker] ∧
    call.verb.name.toList = marker.toList.map Char.toUpper
  /-- There is one parameter at most. -/
  parameters : m.params.length ≤ 1
  /-- A posted or put argument is the body, and there are no query parameters. -/
  body : call.verb ∈ [.post, .put] →
    (m.params = [] → call.content = "null") ∧ (∀ p, m.params = [p] → call.content = p.name) ∧
      call.query = []
  /-- Any other argument is sent as its query parameters, and there is no body. -/
  query : call.verb ∈ [.get, .delete, .head] →
    call.content = "null" ∧ (m.params = [] → call.query = []) ∧
      ∀ p, m.params = [p] → queryParams? context.declarations p = some call.query
  /-- The descriptor names the payload and all its arguments. -/
  descriptor : ∃ payload, m.returns = .mk context.config.runtime.promise [payload] ∧
    (payload.args = [] → call.descriptor = payload.name ++ ".class") ∧
    (payload.args ≠ [] → call.descriptor =
      context.config.runtime.typeLiteral ++ ".create(" ++ payload.name ++ ".class" ++
        String.join (payload.args.map fun arg => ", " ++ arg.name ++ ".class") ++ ")")

theorem methodVerb_eq_ok {c : Contract} {m : Method} {verb : Verb} (h : methodVerb c m = .ok verb) :
    ∃ marker, m.markers.verbs = [marker] ∧ verb.name.toList = marker.toList.map Char.toUpper := by
  unfold methodVerb at h
  split at h
  next => cases h
  next marker hverbs =>
    split at h
    next found hfound =>
      cases h
      have hname := List.find?_some hfound
      exact ⟨marker, hverbs, by simpa using hname⟩
    next => cases h
  next => cases h

theorem payload?_eq_some {names : RuntimeNames} {returns payload : TypeRef}
    (h : payload? names returns = some payload) : returns = .mk names.promise [payload] := by
  obtain ⟨name, args⟩ := returns
  unfold payload? at h
  split at h
  next p hargs =>
    split_ifs at h with hname
    obtain rfl := Option.some.inj h
    simp only [TypeRef.args] at hargs
    simp only [TypeRef.name] at hname
    rw [hargs, hname]
  next => cases h

/-- A separator in front of a joined list stands in front of every item. -/
theorem append_intercalate (sep first : String) (rest : List String) :
    sep ++ sep.intercalate (first :: rest) = String.join ((first :: rest).map (sep ++ ·)) := by
  induction rest generalizing first with
  | nil => simp
  | cons second rest ih =>
    have hrest := ih second
    rw [List.map_cons, String.join_cons, ← hrest, String.intercalate_cons_cons]
    simp only [String.append_assoc]

theorem payloadDescriptor_of_plain (names : RuntimeNames) {payload : TypeRef}
    (h : payload.args = []) : payloadDescriptor names payload = payload.name ++ ".class" := by
  simp [payloadDescriptor, TypeRef.isGeneric, h, classLiteral]

theorem payloadDescriptor_of_generic (names : RuntimeNames) {payload : TypeRef}
    (h : payload.args ≠ []) :
    payloadDescriptor names payload = names.typeLiteral ++ ".create(" ++ payload.name ++ ".class" ++
      String.join (payload.args.map fun arg => ", " ++ arg.name ++ ".class") ++ ")" := by
  obtain ⟨first, rest, hargs⟩ := List.exists_cons_of_ne_nil h
  have hjoin := append_intercalate ", " (classLiteral first.name)
    (rest.map fun arg => classLiteral arg.name)
  have hitems : (payload.args.map fun arg => ", " ++ arg.name ++ ".class") =
      (classLiteral first.name :: rest.map fun arg => classLiteral arg.name).map (", " ++ ·) := by
    simp [hargs, classLiteral, String.append_assoc]
  rw [hitems, ← hjoin, payloadDescriptor, if_pos (by simp [TypeRef.isGeneric, hargs]), hargs]
  simp only [classLiteral, List.map_cons, String.append_assoc]

theorem methodQuery_eq_ok {set : DeclarationSet} {c : Contract} {m : Method}
    {query : List QueryParam} (h : methodQuery set c m = .ok query) :
    (m.params = [] → query = []) ∧ ∀ p, m.params = [p] → queryParams? set p = some query := by
  unfold methodQuery at h
  split at h
  next hparams =>
    cases h
    refine ⟨fun _ => rfl, fun p hp => ?_⟩
    rw [hp] at hparams
    cases hparams
  next p hparams =>
    split at h
    next found hfound =>
      cases h
      refine ⟨fun hnil => ?_, fun p' hp => ?_⟩
      · rw [hnil] at hparams
        cases hparams
      · rw [hp] at hparams
        cases hparams
        exact hfound
    next => cases h

/-- An accepted method passes every rule, and its call is put together from what the rules find. -/
theorem ofMethod_eq_ok {names : RuntimeNames} {set : DeclarationSet} {c : Contract} {m : Method}
    {call : ServiceCall} (h : ServiceCall.ofMethod names set c m = .ok call) :
    ∃ verb payload, methodVerb c m = .ok verb ∧ m.params.length ≤ 1 ∧
      payload? names m.returns = some payload ∧ call.route = m.markers.path.getD "" ∧
      call.verb = verb ∧ call.descriptor = payloadDescriptor names payload ∧
      if verb.hasBody then
        call.content = (m.params.head?.map (·.name)).getD "null" ∧ call.query = []
      else call.content = "null" ∧ methodQuery set c m = .ok call.query := by
  unfold ServiceCall.ofMethod at h
  obtain ⟨verb, hverb, h⟩ := bind_eq_ok_iff.mp h
  dsimp only at h
  by_cases hcount : 1 < m.params.length
  · rw [if_pos hcount] at h
    cases h
  rw [if_neg hcount] at h
  split at h
  next => cases h
  next payload hpayload =>
    refine ⟨verb, payload, hverb, by omega, hpayload, ?_⟩
    by_cases hbody : verb.hasBody = true
    · rw [if_pos hbody] at h
      cases h
      simp [hbody]
    · rw [if_neg hbody] at h
      obtain ⟨query, hquery, h⟩ := bind_eq_ok_iff.mp h
      cases h
      simp [hbody, hquery]

theorem hasBody_iff {verb : Verb} : verb.hasBody = true ↔ verb ∈ [Verb.post, .put] := by
  cases verb <;> decide

theorem hasBody_eq_false_iff {verb : Verb} :
    verb.hasBody = false ↔ verb ∈ [Verb.get, .delete, .head] := by
  cases verb <;> decide

/-- The call of a method with a route is the one that it declares. -/
theorem ofMethod_declares {context : PassContext} {c : Contract} {m : Method} {call : ServiceCall}
    (hpath : m.markers.path.isSome = true)
    (h : ServiceCall.ofMethod context.config.runtime context.declarations c m = .ok call) :
    Declares context m call := by
  obtain ⟨route, hroute⟩ := Option.isSome_iff_exists.mp hpath
  obtain ⟨verb, payload, hverb, hcount, hpayload, hcallRoute, rfl, hdescriptor, hsent⟩ :=
    ofMethod_eq_ok h
  refine ⟨?_, methodVerb_eq_ok hverb, hcount, fun hmem => ?_, fun hmem => ?_, payload,
    payload?_eq_some hpayload, fun hargs => ?_, fun hargs => ?_⟩
  · rw [hcallRoute, hroute, Option.getD_some]
  · rw [if_pos (hasBody_iff.mpr hmem)] at hsent
    refine ⟨fun hnil => ?_, fun p hp => ?_, hsent.2⟩
    · rw [hsent.1, hnil]
      rfl
    · rw [hsent.1, hp]
      rfl
  · have hbody := hasBody_eq_false_iff.mpr hmem
    rw [if_neg (by simp [hbody])] at hsent
    exact ⟨hsent.1, methodQuery_eq_ok hsent.2⟩
  · rw [hdescriptor, payloadDescriptor_of_plain _ hargs]
  · rw [hdescriptor, payloadDescriptor_of_generic _ hargs]

/-- **A service call sends what its method declares.** Whatever texts the declarations and the
configuration are made of, the body of an accepted method with a route reads as one call, and that
call is the one that the method declares. -/
theorem proxyMethod_declares {context : PassContext} {c : Contract} {m : Method}
    {implementation : Java.Method} (hpath : m.markers.path.isSome = true)
    (haccepted : proxyMethod context c m = .ok implementation) :
    ∃ call, readCall? context.config.runtime implementation.body = some call ∧
      Declares context m call := by
  unfold proxyMethod at haccepted
  obtain ⟨call, hcall, hbody⟩ := bind_eq_ok_iff.mp haccepted
  obtain rfl := Except.ok.inj hbody
  exact ⟨call, readCall?_body _ call, ofMethod_declares hpath hcall⟩

/-- A route with a quote in it, an argument with a field and a getter of one name, and a payload with
an argument of its own. -/
theorem proxyMethod_declares_search :
    let query : TypeDecl :=
      { name := "Query", fields := [{ name := "id", type := .plain "int" }]
        methods := [{ name := "getId", returns := .plain "String" }] }
    let context : PassContext :=
      { declarations := { types := [query] }, locator := ⟨"/", "java"⟩, config := {}, files := {} }
    let m : Method :=
      { name := "search", params := [⟨"query", .plain "Query"⟩]
        returns := .mk "contractgen.runtime.Promise" [.mk "java.util.List" [.plain "User"]]
        markers := { path := some "/users?by=\"id\"", verbs := ["get"] } }
    m.markers.path.isSome = true ∧
      ∃ implementation, proxyMethod context { name := "Users" } m = .ok implementation ∧
        ∃ call, readCall? context.config.runtime implementation.body = some call ∧
          Declares context m call := by
  intro query context m
  have hpath : m.markers.path.isSome = true := rfl
  have haccepted : ∃ implementation,
      proxyMethod context { name := "Users" } m = .ok implementation := ⟨_, rfl⟩
  obtain ⟨implementation, haccepted⟩ := haccepted
  exact ⟨hpath, implementation, haccepted, proxyMethod_declares hpath haccepted⟩

end ContractForge
