import ContractForge.Generation.Pass
import ContractForge.Java.Literal
import ContractForge.Service.Query
import ContractForge.Service.Verb

/-!
# Service proxies

A contract with routes becomes a class that calls an injected remote service.

* `ServiceCall` : what one method sends: route, verb, body, query parameters, and the descriptor of
  the payload it expects.
* `ServiceCall.ofMethod` : the call of a method, or the first rule that the method breaks. The rules
  are checked in this order: one verb, a known verb, at most one parameter, an eventual result, and
  a known type for an argument that is sent as query parameters.
* `ServiceCall.body` : the lines of the method that makes the call.
* `services` : the generator.
-/

namespace ContractForge

/-- The field that holds the remote service. -/
def serviceField : String := "service"

/-- The field that holds the interceptor of requests. -/
def interceptorField : String := "requestBuilderInterceptor"

/-- How far the further lines of a statement are set in. -/
def continuation : String := "        "

/-- What a service method sends and what it expects. -/
structure ServiceCall where
  route : String
  verb : Verb
  /-- The expression sent as the body. -/
  content : String := "null"
  query : List QueryParam := []
  /-- The expression that describes the payload. -/
  descriptor : String

/-- The single known verb of a method. -/
def methodVerb (c : Contract) (m : Method) : Except GenerationError Verb :=
  match m.markers.verbs with
  | [] => .error (.noVerb c.name m.name)
  | [marker] =>
    match Verb.ofMarker? marker with
    | some verb => .ok verb
    | none => .error (.unknownVerb c.name m.name marker)
  | verbs => .error (.severalVerbs c.name m.name verbs)

/-- The class literal of a raw type name. -/
def classLiteral (name : String) : String :=
  name ++ ".class"

/-- The expression that describes a payload type. -/
def payloadDescriptor (names : RuntimeNames) (payload : TypeRef) : String :=
  if payload.isGeneric then
    names.typeLiteral ++ ".create(" ++ classLiteral payload.name ++ ", " ++
      ", ".intercalate (payload.args.map fun arg => classLiteral arg.name) ++ ")"
  else classLiteral payload.name

/-- The payload of an eventual result: the only argument of the configured promise. -/
def payload? (names : RuntimeNames) (returns : TypeRef) : Option TypeRef :=
  match returns.args with
  | [payload] => if returns.name = names.promise then some payload else none
  | _ => none

/-- The query parameters of a method, from its only parameter if it has one. -/
def methodQuery (set : DeclarationSet) (c : Contract) (m : Method) :
    Except GenerationError (List QueryParam) :=
  match m.params.head? with
  | none => .ok []
  | some p =>
    match queryParams? set p with
    | some query => .ok query
    | none => .error (.unresolvedType c.name m.name p.type.sourceName)

/-- The call that a method makes. -/
def ServiceCall.ofMethod (names : RuntimeNames) (set : DeclarationSet) (c : Contract) (m : Method) :
    Except GenerationError ServiceCall := do
  let verb ← methodVerb c m
  if 1 < m.params.length then
    .error (.tooManyParameters c.name m.name m.params.length)
  match payload? names m.returns with
  | none => .error (.notEventual c.name m.name names.promise m.returns.sourceName)
  | some payload =>
    let route := m.markers.path.getD ""
    let descriptor := payloadDescriptor names payload
    if verb.hasBody then
      return { route, verb, descriptor, content := (m.params.head?.map (·.name)).getD "null" }
    else
      return { route, verb, descriptor, query := ← methodQuery set c m }

/-- The line that adds a query parameter. -/
def QueryParam.line (q : QueryParam) : String :=
  continuation ++ ".queryParam(" ++ Java.literal q.name ++ ", " ++ q.value ++ ")"

/-- The first line of a call. -/
def ServiceCall.headLine (names : RuntimeNames) (call : ServiceCall) : String :=
  "return " ++ serviceField ++ ".invoke(requestBuilder(" ++ Java.literal call.route ++ ", " ++
    call.content ++ ", " ++ names.httpMethod ++ "." ++ call.verb.name ++ ")"

/-- The lines of a call. -/
def ServiceCall.body (names : RuntimeNames) (call : ServiceCall) : List String :=
  call.headLine names :: call.query.map QueryParam.line ++
    [continuation ++ ".build(), " ++ call.descriptor ++ ");"]

/-- The type of the request builder. -/
def builderType (names : RuntimeNames) : String :=
  names.httpRequest ++ ".Builder"

/-- The type of the interceptor of requests. -/
def interceptorType (names : RuntimeNames) : String :=
  names.function ++ "<" ++ builderType names ++ ", " ++ builderType names ++ ">"

/-- The fields of a proxy. -/
def proxyFields (names : RuntimeNames) : List Java.Field :=
  [{ declaration := "private final " ++ names.remoteService ++ " " ++ serviceField },
   { declaration := "private final " ++ interceptorType names ++ " " ++ interceptorField
     annotations := [names.nullable] }]

/-- The constructor, which takes the service and an interceptor that may be null. -/
def proxyConstructor (names : RuntimeNames) (className : String) : Java.Method where
  signature :=
    "public " ++ className ++ "(" ++ names.remoteService ++ " " ++ serviceField ++ ", @" ++
      names.nullable ++ " " ++ interceptorType names ++ " " ++ interceptorField ++ ")"
  annotations := [names.inject]
  body :=
    ["this." ++ serviceField ++ " = java.util.Objects.requireNonNull(" ++ serviceField ++ ");",
     "this." ++ interceptorField ++ " = " ++ interceptorField ++ ";"]

/-- The helper that starts every request. -/
def proxyRequestBuilder (names : RuntimeNames) : Java.Method where
  signature :=
    "private " ++ builderType names ++ " requestBuilder(String path, @" ++ names.nullable ++
      " Object requestDto, " ++ names.httpMethod ++ " method)"
  body :=
    [builderType names ++ " builder = " ++ serviceField ++ ".requestBuilder(path, requestDto)",
     continuation ++ ".method(method)",
     continuation ++ ".contentType(" ++ names.contentType ++ ");",
     "return " ++ interceptorField ++ " != null",
     continuation ++ "? " ++ interceptorField ++ ".apply(builder)",
     continuation ++ ": builder;"]

/-- The class that implements the routes of a contract. -/
def proxyClass (names : RuntimeNames) (c : Contract) (methods : List Java.Method) : Java.Class where
  package := c.space
  name := c.implName
  implements := [c.name]
  fields := proxyFields names
  methods := proxyConstructor names c.implName :: proxyRequestBuilder names :: methods

/-- The implementation of one service method. -/
def proxyMethod (context : PassContext) (c : Contract) (m : Method) :
    Except GenerationError Java.Method := do
  let names := context.config.runtime
  let call ← ServiceCall.ofMethod names context.declarations c m
  return .overriding m (call.body names)

/-- The proxy of one contract. -/
def proxyArtifact (context : PassContext) (g : Group) : Except GenerationError Artifact := do
  let methods ← g.methods.mapM (proxyMethod context g.contract)
  return .ofClass (proxyClass context.config.runtime g.contract methods)

/-- Implements the methods with routes. -/
def services : Generator where
  name := "services"
  marker := .path
  generate context groups := groups.mapM (proxyArtifact context)

end ContractForge
