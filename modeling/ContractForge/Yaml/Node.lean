import ContractForge.Yaml.Lexer

/-!
# YAML nodes

* `Yaml.Node` : a scalar, a sequence, a mapping, or an alias of a node that carries an anchor.
* `Yaml.Node.ofTokens?` : the only document of a text, or `none` where the tokens make up no
  document or several. A text without a document counts as one empty scalar.

Values that are left out become empty plain scalars.
-/

namespace ContractForge.Yaml

/-- Anchor and tag of a node. -/
structure Properties where
  anchor : Option (List Char) := none
  tag : Option TagText := none

/-- A node of a document. -/
inductive Node where
  | reference (name : List Char)
  | scalar (props : Properties) (style : Style) (text : List Char)
  | sequence (props : Properties) (items : List Node)
  | mapping (props : Properties) (entries : List (Node × Node))

namespace Node

/-- The value that is left out. -/
def empty : Node :=
  scalar {} .plain []

/-- What the handles of tags stand for. -/
abbrev Handles := List (List Char × TagText)

/-- The handles that need no directive. -/
def standardHandles : Handles :=
  [(['!'], .ofString "!"), (['!', '!'], .ofString "tag:yaml.org,2002:")]

/-- The full tag of a handle and a suffix. -/
def fullTag? (handles : Handles) (handle : List Char) (suffix : TagText) : Option TagText :=
  if handle.isEmpty then some suffix
  else (handles.find? (·.1 == handle)).map fun (_, stem) => stem ++ suffix

/-- Reads anchor and tag, in either order. -/
def takeProperties? (handles : Handles) (tokens : List Token) :
    Option (Properties × List Token) :=
  match tokens with
  | .anchor name :: .tag handle suffix :: rest
  | .tag handle suffix :: .anchor name :: rest =>
    (fullTag? handles handle suffix).map fun tag => ({ anchor := some name, tag := some tag }, rest)
  | .anchor name :: rest => some ({ anchor := some name }, rest)
  | .tag handle suffix :: rest =>
    (fullTag? handles handle suffix).map fun tag => ({ tag := some tag }, rest)
  | _ => some ({}, tokens)

/-- Nothing stands where an entry of a block sequence may. -/
def endsBlockEntry : List Token → Bool
  | .blockEntry :: _ | .blockEnd :: _ => true
  | _ => false

/-- Nothing stands where an entry of a sequence without an indentation of its own may. -/
def endsIndentlessEntry : List Token → Bool
  | .blockEntry :: _ | .key :: _ | .value :: _ | .blockEnd :: _ => true
  | _ => false

/-- Nothing stands where a key or a value of a block mapping may. -/
def endsBlockPair : List Token → Bool
  | .key :: _ | .value :: _ | .blockEnd :: _ => true
  | _ => false

/-- Nothing stands where a key of a flow mapping may. -/
def endsFlowKey : List Token → Bool
  | .value :: _ | .flowEntry :: _ | .flowMappingEnd :: _ => true
  | _ => false

/-- Nothing stands where a value of a flow mapping may. -/
def endsFlowValue : List Token → Bool
  | .flowEntry :: _ | .flowMappingEnd :: _ => true
  | _ => false

/-- Nothing stands where the value of a pair in a flow sequence may. -/
def endsPairValue : List Token → Bool
  | .flowEntry :: _ | .flowSequenceEnd :: _ => true
  | _ => false

mutual

/-- The node that tokens begin with. Block collections are taken only where `block`, and sequences
without an indentation of their own only where `indentless`. -/
def take? (handles : Handles) (block indentless : Bool) : Nat → List Token →
    Option (Node × List Token)
  | 0, _ => none
  | fuel + 1, tokens =>
    match tokens with
    | .reference name :: rest => some (reference name, rest)
    | _ => do
      let (props, rest) ← takeProperties? handles tokens
      match rest, block, indentless with
      | .blockEntry :: _, _, true =>
        let (items, rest) ← takeIndentless? handles fuel rest
        return (sequence props items, rest)
      | .scalar style text :: rest, _, _ =>
        return (scalar props style text, rest)
      | .flowSequenceStart :: rest, _, _ =>
        let (items, rest) ← takeFlowItems? handles true fuel rest
        return (sequence props items, rest)
      | .flowMappingStart :: rest, _, _ =>
        let (entries, rest) ← takeFlowEntries? handles true fuel rest
        return (mapping props entries, rest)
      | .blockSequenceStart :: rest, true, _ =>
        let (items, rest) ← takeBlockItems? handles fuel rest
        return (sequence props items, rest)
      | .blockMappingStart :: rest, true, _ =>
        let (entries, rest) ← takeBlockEntries? handles fuel rest
        return (mapping props entries, rest)
      | rest, _, _ =>
        if props.anchor.isSome || props.tag.isSome then return (scalar props .plain [], rest)
        else none

/-- A node, or the empty one where nothing stands. -/
def takeOr? (handles : Handles) (block indentless absent : Bool) : Nat → List Token →
    Option (Node × List Token)
  | 0, _ => none
  | fuel + 1, tokens =>
    if absent then some (empty, tokens) else take? handles block indentless fuel tokens

/-- The items of a block sequence, up to its end. -/
def takeBlockItems? (handles : Handles) : Nat → List Token → Option (List Node × List Token)
  | 0, _ => none
  | fuel + 1, tokens =>
    match tokens with
    | .blockEntry :: rest => do
      let (item, rest) ← takeOr? handles true false (endsBlockEntry rest) fuel rest
      let (items, rest) ← takeBlockItems? handles fuel rest
      return (item :: items, rest)
    | .blockEnd :: rest => some ([], rest)
    | _ => none

/-- The items of a sequence without an indentation of its own. -/
def takeIndentless? (handles : Handles) : Nat → List Token → Option (List Node × List Token)
  | 0, _ => none
  | fuel + 1, tokens =>
    match tokens with
    | .blockEntry :: rest => do
      let (item, rest) ← takeOr? handles true false (endsIndentlessEntry rest) fuel rest
      let (items, rest) ← takeIndentless? handles fuel rest
      return (item :: items, rest)
    | _ => some ([], tokens)

/-- The entries of a block mapping, up to its end. -/
def takeBlockEntries? (handles : Handles) : Nat → List Token →
    Option (List (Node × Node) × List Token)
  | 0, _ => none
  | fuel + 1, tokens =>
    match tokens with
    | .key :: rest => do
      let (key, rest) ← takeOr? handles true true (endsBlockPair rest) fuel rest
      let (value, rest) ←
        match rest with
        | .value :: rest => takeOr? handles true true (endsBlockPair rest) fuel rest
        | _ => some (empty, rest)
      let (entries, rest) ← takeBlockEntries? handles fuel rest
      return ((key, value) :: entries, rest)
    | .blockEnd :: rest => some ([], rest)
    | _ => none

/-- The items of a flow sequence, up to its end. An item may be a single pair. -/
def takeFlowItems? (handles : Handles) (isFirst : Bool) : Nat → List Token →
    Option (List Node × List Token)
  | 0, _ => none
  | fuel + 1, tokens => do
    let tokens ←
      match tokens, isFirst with
      | .flowSequenceEnd :: _, _ | _, true => some tokens
      | .flowEntry :: rest, false => some rest
      | _, false => none
    match tokens with
    | .flowSequenceEnd :: rest => some ([], rest)
    | .key :: rest =>
      let (pair, rest) ← takePair? handles fuel rest
      let (items, rest) ← takeFlowItems? handles false fuel rest
      return (mapping {} [pair] :: items, rest)
    | _ =>
      let (item, rest) ← take? handles false false fuel tokens
      let (items, rest) ← takeFlowItems? handles false fuel rest
      return (item :: items, rest)

/-- A single pair in a flow sequence. Where its key is left out, the token in its place is lost. -/
def takePair? (handles : Handles) : Nat → List Token → Option ((Node × Node) × List Token)
  | 0, _ => none
  | fuel + 1, tokens => do
    let (key, rest) ←
      match tokens with
      | .value :: rest | .flowEntry :: rest | .flowSequenceEnd :: rest => some (empty, rest)
      | _ => take? handles false false fuel tokens
    match rest with
    | .value :: rest =>
      let (value, rest) ← takeOr? handles false false (endsPairValue rest) fuel rest
      return ((key, value), rest)
    | _ => return ((key, empty), rest)

/-- The entries of a flow mapping, up to its end. -/
def takeFlowEntries? (handles : Handles) (isFirst : Bool) : Nat → List Token →
    Option (List (Node × Node) × List Token)
  | 0, _ => none
  | fuel + 1, tokens => do
    let tokens ←
      match tokens, isFirst with
      | .flowMappingEnd :: _, _ | _, true => some tokens
      | .flowEntry :: rest, false => some rest
      | _, false => none
    match tokens with
    | .flowMappingEnd :: rest => some ([], rest)
    | .key :: rest =>
      let (key, rest) ← takeOr? handles false false (endsFlowKey rest) fuel rest
      let (value, rest) ←
        match rest with
        | .value :: rest => takeOr? handles false false (endsFlowValue rest) fuel rest
        | _ => some (empty, rest)
      let (entries, rest) ← takeFlowEntries? handles false fuel rest
      return ((key, value) :: entries, rest)
    | _ =>
      let (key, rest) ← take? handles false false fuel tokens
      let (entries, rest) ← takeFlowEntries? handles false fuel rest
      return ((key, empty) :: entries, rest)

end

/-! ## Documents -/

/-- The directives before a document, and the tokens after them. A version or a handle is declared
once at most, and the version is 1.1 or 1.2. -/
def takeDirectives? (hasVersion : Bool) (handles : Handles) : List Token →
    Option (Handles × List Token)
  | .versionDirective major minor :: rest =>
    if hasVersion || major ≠ 1 || (minor ≠ 1 && minor ≠ 2) then none
    else takeDirectives? true handles rest
  | .tagDirective handle stem :: rest =>
    if handles.any (·.1 == handle) then none
    else takeDirectives? hasVersion (handles ++ [(handle, stem)]) rest
  | tokens => some (handles, tokens)

/-- The document begins with no explicit mark. -/
def startsImplicitly : List Token → Bool
  | .versionDirective .. :: _ | .tagDirective .. :: _ | .documentStart :: _ | [] => false
  | _ => true

/-- Nothing stands where the content of an explicit document may. -/
def endsDocument : List Token → Bool
  | .versionDirective .. :: _ | .tagDirective .. :: _ | .documentStart :: _
  | .documentEnd :: _ | [] => true
  | _ => false

/-- Tokens without the marks of document ends they begin with. -/
def dropEndMarks : List Token → List Token
  | .documentEnd :: rest => dropEndMarks rest
  | tokens => tokens

/-- The only document that tokens make up. -/
def ofTokens? (tokens : List Token) : Option Node := do
  let fuel := 4 * tokens.length + 4
  let (node, rest) ←
    if tokens.isEmpty then some (empty, [])
    else if startsImplicitly tokens then take? standardHandles true false fuel tokens
    else do
      let (handles, rest) ← takeDirectives? false [] tokens
      match rest with
      | .documentStart :: rest =>
        takeOr? (handles ++ standardHandles) true false (endsDocument rest) fuel rest
      | _ => none
  if (dropEndMarks rest).isEmpty then return node else none

/-- The only document of a text. -/
def parse? (text : String) : Option Node := do
  ofTokens? (← tokens? text)

end Node
end ContractForge.Yaml
