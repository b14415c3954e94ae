import ContractForge.Message.Bundle
import ContractForge.Resource.Accessors
import ContractForge.Service.Proxy
import ContractForge.Text.Lowercase

/-!
# Selection of generators

`Selection` names the generators that a pass runs. `Selection.parse` reads a name in any case.
-/

namespace ContractForge

/-- The generators that a pass runs. -/
inductive Selection where
  | all
  | resources
  | services
  | messages
  deriving DecidableEq

namespace Selection

def name : Selection → String
  | all => "all"
  | resources => "resources"
  | services => "services"
  | messages => "messages"

/-- The selections there are. -/
def choices : List Selection :=
  [all, resources, services, messages]

/-- What is selected when nothing is said. -/
def default : Selection := all

/-- The generators of a selection, in the order in which they run. -/
def generators : Selection → List Generator
  | all => [ContractForge.resources, ContractForge.services, ContractForge.messages]
  | resources => [ContractForge.resources]
  | services => [ContractForge.services]
  | messages => [ContractForge.messages]

/-- The selection of a name, whatever its case. -/
def parse? (text : String) : Option Selection :=
  choices.find? fun s => s.name.toList == text.toList.flatMap Text.lowercase

/-- Why a name selects nothing. -/
def unknownMessage (text : String) : String :=
  s!"unknown generator '{text}', expected one of: " ++ ", ".intercalate (choices.map name)

end Selection
end ContractForge
