import ContractForge.Json.Token

/-!
# JSON values

* `Json.Value` : a document. Objects keep their members in order, repeated keys included.
  `Value.text` and `Value.record` build strings and objects of the usual kind.
* `Json.Value.parse?` : the value of a text that is one JSON document.
-/

namespace ContractForge.Json

/-- A JSON document. The content of a string and the name of a member are `none` when they hold
unpaired surrogates. -/
inductive Value where
  | null
  | bool (value : Bool)
  | number (spelling : String)
  | string (content : Option String)
  | array (items : List Value)
  | object (members : List (Option String × Value))

namespace Value

/-- The value of a text. -/
def text (s : String) : Value :=
  string (some s)

/-- The object of named members. -/
def record (members : List (String × Value)) : Value :=
  object (members.map fun (name, value) => (some name, value))

mutual

/-- The value that tokens begin with, and the tokens after it. -/
def take? : Nat → List Token → Option (Value × List Token)
  | 0, _ => none
  | fuel + 1, tokens =>
    match tokens with
    | .null :: rest => some (null, rest)
    | .bool b :: rest => some (bool b, rest)
    | .number spelling :: rest => some (number (String.ofList spelling), rest)
    | .string content :: rest => some (string content, rest)
    | .openArray :: .closeArray :: rest => some (array [], rest)
    | .openArray :: rest => (takeItems? fuel rest).map fun (items, rest) => (array items, rest)
    | .openObject :: .closeObject :: rest => some (object [], rest)
    | .openObject :: rest =>
      (takeMembers? fuel rest).map fun (members, rest) => (object members, rest)
    | _ => none

/-- The items of an array, at least one, up to its closing bracket. -/
def takeItems? : Nat → List Token → Option (List Value × List Token)
  | 0, _ => none
  | fuel + 1, tokens =>
    match take? fuel tokens with
    | some (item, .closeArray :: rest) => some ([item], rest)
    | some (item, .comma :: rest) =>
      (takeItems? fuel rest).map fun (items, rest) => (item :: items, rest)
    | _ => none

/-- The members of an object, at least one, up to its closing brace. -/
def takeMembers? : Nat → List Token → Option (List (Option String × Value) × List Token)
  | 0, _ => none
  | fuel + 1, tokens =>
    match tokens with
    | .string key :: .colon :: rest =>
      match take? fuel rest with
      | some (value, .closeObject :: rest) => some ([(key, value)], rest)
      | some (value, .comma :: rest) =>
        (takeMembers? fuel rest).map fun (members, rest) => ((key, value) :: members, rest)
      | _ => none
    | _ => none

end

/-- The value that makes up all tokens. -/
def ofTokens? (tokens : List Token) : Option Value :=
  match take? (2 * tokens.length + 1) tokens with
  | some (value, []) => some value
  | _ => none

/-- The value of a text that is one document. -/
def parse? (text : String) : Option Value := do
  ofTokens? (← Token.scan? text)

end Value
end ContractForge.Json
