/-!
# Type references

A type reference is a raw name with generic arguments.

* `TypeRef.sourceName` : the type as it stands in source text, `name<arg, …, arg>`.
* `isPrimitive`, `isString`, `isByteArray`, `isScalar` : the kinds of type that the generators tell
  apart. A type with arguments is of none of these kinds.
-/

namespace ContractForge

/-- A type as contracts refer to it: a raw name and the generic arguments in order. -/
inductive TypeRef where
  | mk (name : String) (args : List TypeRef)

namespace TypeRef

/-- The raw name, such as `java.util.List` or `byte[]`. -/
def name : TypeRef → String
  | mk name _ => name

/-- The generic arguments, in order. -/
def args : TypeRef → List TypeRef
  | mk _ args => args

/-- The type of a name, without arguments. -/
def plain (name : String) : TypeRef :=
  mk name []

mutual

/-- The source text of a type. -/
def sourceChars : TypeRef → List Char
  | mk name args => name.toList ++ argumentChars args

/-- The bracketed arguments, or nothing where there are none. -/
def argumentChars : List TypeRef → List Char
  | [] => []
  | t :: ts => '<' :: sourceChars t ++ furtherChars ts

/-- The arguments after one that is already written, and the closing bracket. -/
def furtherChars : List TypeRef → List Char
  | [] => ['>']
  | t :: ts => ',' :: ' ' :: sourceChars t ++ furtherChars ts

end

/-- The type as it stands in source text. -/
def sourceName (t : TypeRef) : String :=
  String.ofList t.sourceChars

/-- The type has generic arguments. -/
def isGeneric (t : TypeRef) : Bool :=
  !t.args.isEmpty

/-- The primitive types. -/
def primitives : List String :=
  ["boolean", "byte", "short", "int", "long", "char", "float", "double"]

/-- The boxed forms of the primitive types, as simple names. -/
def boxes : List String :=
  ["Boolean", "Byte", "Short", "Integer", "Long", "Character", "Float", "Double"]

def isPrimitive (t : TypeRef) : Bool :=
  !t.isGeneric && primitives.contains t.name

def isString (t : TypeRef) : Bool :=
  !t.isGeneric && (t.name == "String" || t.name == "java.lang.String")

def isByteArray (t : TypeRef) : Bool :=
  !t.isGeneric && t.name == "byte[]"

/-- The type is the boxed form of a primitive, by its simple or its qualified name. -/
def isBoxed (t : TypeRef) : Bool :=
  !t.isGeneric && (boxes.contains t.name || boxes.any fun box => t.name == "java.lang." ++ box)

/-- Values of the type are passed on as one value: primitives, their boxes and strings. -/
def isScalar (t : TypeRef) : Bool :=
  t.isPrimitive || t.isString || t.isBoxed

end TypeRef
end ContractForge
