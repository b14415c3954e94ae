import ContractForge.Declaration.Basic

/-!
# Discovery of marked methods

* `Marker` : what a generator is triggered by, and which contracts and methods carry it.
* `Group` : a contract with those of its methods that carry a marker.
* `discover` : the groups of a declaration set. Contracts of one name form one group, at the place
  of the first of them that carries the marker.
-/

namespace ContractForge

/-- What a generator is triggered by. -/
inductive Marker where
  /-- A route on a method. -/
  | path
  /-- An embedded resource on a method. -/
  | resource
  /-- A message bundle, on a contract and so on all its methods. -/
  | messages
  deriving DecidableEq

namespace Marker

def name : Marker → String
  | path => "path"
  | resource => "resource"
  | messages => "messages"

/-- The method carries the marker, itself or through its contract. -/
def marks (marker : Marker) (c : Contract) (m : Method) : Bool :=
  match marker with
  | path => m.markers.path.isSome
  | resource => m.markers.resource.isSome
  | messages => c.messages

/-- The marker sits on the contract itself, whether or not it has methods. -/
def marksContract (marker : Marker) (c : Contract) : Bool :=
  match marker with
  | messages => c.messages
  | path | resource => false

end Marker

/-- The marked methods of a contract, in declaration order. -/
structure Group where
  contract : Contract
  methods : List Method

/-- The group that a contract contributes, if it carries the marker at all. -/
def Group.ofContract? (marker : Marker) (c : Contract) : Option Group :=
  let methods := c.methods.filter (marker.marks c)
  if marker.marksContract c || !methods.isEmpty then some ⟨c, methods⟩ else none

/-- Groups with one more, whose methods join the group of the same contract name if there is one. -/
def addGroup (g : Group) : List Group → List Group
  | [] => [g]
  | x :: xs =>
    if x.contract.name = g.contract.name then { x with methods := x.methods ++ g.methods } :: xs
    else x :: addGroup g xs

/-- The marked methods of a set, grouped by contract name. -/
def discover (set : DeclarationSet) (marker : Marker) : List Group :=
  (set.contracts.filterMap (Group.ofContract? marker)).foldl (fun groups g => addGroup g groups) []

end ContractForge
