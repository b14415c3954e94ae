/-!
# Verbs

The request methods that a service method may be marked with. `Verb.ofMarker?` reads a marker in any
ASCII case; `Verb.hasBody` tells whether the argument travels as the body of the request.
-/

namespace ContractForge

/-- A request method. -/
inductive Verb where
  | get
  | post
  | put
  | delete
  | head
  deriving DecidableEq

namespace Verb

def name : Verb → String
  | get => "GET"
  | post => "POST"
  | put => "PUT"
  | delete => "DELETE"
  | head => "HEAD"

/-- All verbs. -/
def all : List Verb :=
  [get, post, put, delete, head]

/-- The verb of a marker, whatever the case of its ASCII letters. -/
def ofMarker? (marker : String) : Option Verb :=
  all.find? fun v => v.name.toList == marker.toList.map Char.toUpper

/-- The argument is the body of the request. -/
def hasBody : Verb → Bool
  | post | put => true
  | get | delete | head => false

end Verb
end ContractForge
