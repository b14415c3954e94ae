import ContractForge.Batch
import ContractForge.Digest.Base64
import ContractForge.Digest.Sha256
import ContractForge.Generation.Artifact

/-!
# Embedded resources

The bytes of a file become a class that holds them: one statement for each byte, or for each
character of their base64 text, in initializer units that the static block calls in order.

* `Encoding` : whether bytes are kept as they are or as base64 text, which the return type decides.
* `embeddedClass` : the class for a byte sequence.
* `EmbeddedResource` : such a class under its qualified name; `accessor` is the expression that
  gives the content back.
-/

namespace ContractForge

/-- How content is embedded. -/
inductive Encoding where
  /-- As bytes. -/
  | raw
  /-- As base64 text, decoded to a string on access. -/
  | text
  deriving DecidableEq

namespace Encoding

/-- The encoding that a return type asks for. -/
def ofReturnType (t : TypeRef) : Option Encoding :=
  if t.isByteArray then some raw
  else if t.isString then some text
  else none

/-- The first letter of the class names of an encoding. -/
def letter : Encoding → String
  | raw => "b"
  | text => "s"

/-- The field that holds the data. -/
def field (e : Encoding) (size : Nat) : String :=
  match e with
  | raw => s!"public static final byte[] data = new byte[{size}]"
  | text => "public static final StringBuilder data = new StringBuilder()"

/-- A byte as the signed number it stands for in an array of bytes. -/
def signed (b : UInt8) : Int :=
  if b.toNat < 128 then b.toNat else (b.toNat : Int) - 256

/-- The assignments of bytes from an index on. -/
def assignments (index : Nat) : List UInt8 → List String
  | [] => []
  | b :: rest => s!"data[{index}] = {signed b};" :: assignments (index + 1) rest

/-- The statement that appends a character. -/
def append (c : Char) : String :=
  "data.append('" ++ c.toString ++ "');"

/-- The statements that fill the data field. -/
def statements (e : Encoding) (bytes : List UInt8) : List String :=
  match e with
  | raw => assignments 0 bytes
  | text => (Base64.encode bytes).map append

end Encoding

/-- The stem of the names of initializer units. -/
def unitStem : String := "i"

/-- The method of an initializer unit. -/
def InitializerUnit.method (unit : InitializerUnit) : Java.Method where
  signature := "private static void " ++ unit.name ++ "()"
  body := unit.statements

/-- The class that holds a byte sequence. -/
def embeddedClass (e : Encoding) (chunkSize : Nat) (space name : String) (bytes : List UInt8) :
    Java.Class :=
  let units := batches chunkSize unitStem (e.statements bytes)
  { package := space
    name
    fields := [{ declaration := e.field bytes.length }]
    staticInit := invocations units
    methods := units.map (·.method) }

/-- A resource embedded in a class of its own. -/
structure EmbeddedResource where
  encoding : Encoding
  space : String
  identifier : String
  bytes : List UInt8

namespace EmbeddedResource

/-- The class name: the letter of the encoding and the digest of the file name. -/
def identifierFor (e : Encoding) (fileName : String) : String :=
  e.letter ++ Sha256.hexDigest fileName.toUTF8.data.toList

/-- The namespace of the class: the directories of the logical path. -/
def spaceFor (path : String) : String :=
  match Text.splitLast? '/' path.toList with
  | some (dirs, _) => pathNamespace (String.ofList dirs)
  | none => ""

def qualifiedName (r : EmbeddedResource) : String :=
  qualify r.space r.identifier

/-- The expression that gives the content back. -/
def accessor (r : EmbeddedResource) : String :=
  let data := r.qualifiedName ++ ".data"
  match r.encoding with
  | .raw => data
  | .text =>
    "new String(java.util.Base64.getDecoder().decode(" ++ data ++
      ".toString()), java.nio.charset.StandardCharsets.UTF_8)"

/-- The source file of the class. -/
def artifact (chunkSize : Nat) (r : EmbeddedResource) : Artifact :=
  .ofClass (embeddedClass r.encoding chunkSize r.space r.identifier r.bytes)

end EmbeddedResource
end ContractForge
