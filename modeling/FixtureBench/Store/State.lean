import FixtureBench.Descriptor.Infer
import FixtureBench.Fixtures.Basic
import FixtureBench.Store.Entry

/-!
# State of the bench

The state holds the list of components and the component that is selected. What belongs to the
selection arrives in two parts, the component and its fixtures, in either order.
-/

namespace FixtureBench

structure LoadedComponent where
  component : Component
  types : Keyed Descriptor

/-- The component under inspection, with the descriptors of its props. -/
structure Selection where
  key : String
  reference : Option Component
  types : Option (Keyed Descriptor)
  fixtures : Option Fixtures

namespace Selection

def ofKey (key : String) : Selection := ⟨key, none, none, none⟩

/-- The component with its descriptors, once both are there. -/
def loaded (s : Selection) : Option LoadedComponent := do
  return ⟨← s.reference, ← s.types⟩

/-- Replace props by callbacks that log their calls. -/
def logCallbacks (props : Props) (names : List String) : Props :=
  names.foldl (fun props name => props.insert name (.func (.logging name))) props

/-- The props an instance is previewed with, once component and fixtures are there. -/
def instanceProps (s : Selection) (index : Nat) (overrides : Overrides)
    (callbacksToLog : List String) : Option Props := do
  let types ← s.types
  let fixtures ← s.fixtures
  let props ← fixtures.instanceProps index types overrides
  some (logCallbacks props callbacksToLog)

def instanceErrors (s : Selection) (index : Nat) (overrides : Overrides)
    (callbacksToLog : List String) : Option (List PropError) := do
  let component ← s.reference
  let props ← s.instanceProps index overrides callbacksToLog
  some (component.invalidProps props)

end Selection

structure State where
  components : Option (List ComponentEntry)
  selected : Option Selection

namespace State

def initial : State := ⟨none, none⟩

instance : Inhabited State := ⟨initial⟩

def fixtures? (s : State) : Option Fixtures := s.selected.bind (·.fixtures)

def types? (s : State) : Option (Keyed Descriptor) := s.selected.bind (·.types)

/-- Change the selection if it is the one that `key` names. -/
def modifySelected (s : State) (key : String) (f : Selection → Selection) : State :=
  { s with selected := s.selected.map fun sel => if sel.key = key then f sel else sel }

end State

end FixtureBench
