import FixtureBench.Cursor.Access
import FixtureBench.Store.State

/-!
# Actions on the bench

`Action.run` applies an action to the state in place. What was loaded for a component that is no
longer selected is dropped. An edit is addressed by a cursor into the list of instances.
-/

namespace FixtureBench

inductive Action where
  | componentListLoaded (components : List ComponentEntry)
  | selectComponent (key : String)
  | componentLoaded (key : String) (component : Component)
  | fixturesLoaded (key : String) (fixtures : Fixtures)
  | updateFixture (cursor : Cursor) (value : PropValue)

def Action.name : Action → String
  | componentListLoaded _ => "component_list_loaded"
  | selectComponent _ => "select_component"
  | componentLoaded .. => "component_loaded"
  | fixturesLoaded .. => "fixtures_loaded"
  | updateFixture .. => "update_fixture"

inductive StoreError where
  | noSelection
  | fixturesNotLoaded (key : String)
  | emptyCursor
  | cursor (error : CursorError)
  | fixtures (error : FixturesError)

def StoreError.message : StoreError → String
  | noSelection => "no component is selected"
  | fixturesNotLoaded key => "fixtures for `" ++ key ++ "` have not loaded"
  | emptyCursor => "fixture cursor must address at least one instance"
  | cursor error => "invalid fixture cursor: " ++ error.message
  | fixtures error => "malformed fixtures: " ++ error.message

namespace Fixtures

/-- The fixtures with a value stored below the list of instances, which stays a list unless the
cursor is empty. -/
def update (f : Fixtures) (cursor : Cursor) (value : PropValue) :
    Except CursorError Fixtures := do
  match ← Tree.set (.arr f.instances) cursor value with
  | .arr instances => return { f with instances }
  | _ => return f

end Fixtures

/-- A computation that works on the state in place. What it did before it fails stays done. -/
abbrev InPlace := ExceptT StoreError (StateM State)

namespace Action

def editFixtures (cursor : Cursor) (value : PropValue) : InPlace Unit := do
  if cursor.isEmpty then throw .emptyCursor
  let some selected := (← get).selected | throw .noSelection
  let some fixtures := selected.fixtures | throw (.fixturesNotLoaded selected.key)
  match fixtures.update cursor value with
  | .error error => throw (.cursor error)
  | .ok fixtures =>
    modify fun s => { s with selected := some { selected with fixtures := some fixtures } }

/-- Apply an action. Descriptors of a loaded component are inferred with a registry. -/
def perform (registry : Registry) : Action → InPlace Unit
  | componentListLoaded components => modify fun s => { s with components := some components }
  | selectComponent key => modify fun s => { s with selected := some (.ofKey key) }
  | componentLoaded key component => do
    let types := component.inferTypes registry
    modify (·.modifySelected key fun selected => { selected with types := some types })
    modify (·.modifySelected key fun selected => { selected with reference := some component })
  | fixturesLoaded key fixtures =>
    modify (·.modifySelected key fun selected => { selected with fixtures := some fixtures })
  | updateFixture cursor value => editFixtures cursor value

def run (registry : Registry) (a : Action) (s : State) : Except StoreError Unit × State :=
  (a.perform registry).run.run s

end Action

namespace State

/-- The state after an action, unless the action fails. -/
def dispatch (registry : Registry) (s : State) (a : Action) : Except StoreError State :=
  match a.run registry s with
  | (.ok (), next) => .ok next
  | (.error error, _) => .error error

end State

end FixtureBench
