import FixtureBench.Descriptor.Minimal
import FixtureBench.Fixtures.Error
import FixtureBench.Json.Outline
import FixtureBench.Json.Printer

/-!
# Fixtures

The fixtures of a component are sample props, one set for each instance that is previewed. In a
document they stand under `instances`, and all other members are carried along in order. Props
that an instance lacks are filled in with minimal values.
-/

namespace FixtureBench

structure Fixtures where
  instances : List PropValue
  /-- The other members of the document. -/
  extra : Keyed PropValue

namespace Fixtures

def empty : Fixtures := ⟨[], {}⟩

instance : Inhabited Fixtures := ⟨empty⟩

instance : BEq Fixtures :=
  ⟨fun a b => (Tree.arr a.instances == .arr b.instances) && (Tree.obj a.extra == .obj b.extra)⟩

def instancesKey : String := "instances"

/-- The fixtures of a document. Without the list of instances there are none. -/
def ofJson : Json → Except FixturesError Fixtures
  | .obj members => do
    let extra := members.entries.filter (·.1 ≠ instancesKey)
    let instances ← match members.get? instancesKey with
      | none => .ok []
      | some (.arr items) => .ok items
      | some found => .error (.instancesNotArray found)
    return ⟨instances.map PropValue.ofJson, (Keyed.mk extra).map PropValue.ofJson⟩
  | found => .error (.notObject found)

def instancesJson (f : Fixtures) : Json := PropValue.toJson (.arr f.instances)

/-- The document of fixtures, instances first. An extra member may replace the instances. -/
def toJson (f : Fixtures) : Json :=
  .obj ((Keyed.empty.insert instancesKey f.instancesJson).insertAll
    (f.extra.map PropValue.toJson).entries)

/-- The text of fixtures: every member is written, instances first. -/
def render (f : Fixtures) : String :=
  Json.render (.obj ⟨(instancesKey, f.instancesJson) :: (f.extra.map PropValue.toJson).entries⟩)

/-- The fixtures that a text holds. The list of instances must not be repeated; of other repeated
members the last counts, at the place of the first. -/
def parse? (text : String) : Option Fixtures :=
  match Json.Outline.parse? text with
  | some (.object members) => do
    let pairs ← Json.Outline.membersToJson? (Json.Outline.nestingLimit - 1) members
    if (pairs.filter (·.1 = instancesKey)).length ≤ 1 then
      (ofJson (.obj (.ofPairs pairs))).toOption
    else none
  | _ => none

/-- Add the minimal value of every declared prop that is missing, in the order of declaration. -/
def fillMissing (overrides : Overrides) (index : UInt64) (props : Props)
    (types : List (String × Descriptor)) : Props :=
  types.foldl (fun props (name, d) =>
    if props.contains name then props
    else props.insert name (d.minimal overrides [.index index, .key name])) props

/-- The props of an instance with every declared prop present: stored props first, then minimal
values. An instance that is no object stores nothing. -/
def instanceProps (f : Fixtures) (index : Nat) (types : Keyed Descriptor) (overrides : Overrides) :
    Option Props := do
  let stored ← f.instances[index]?
  some (fillMissing overrides (UInt64.ofNat index) (stored.asObject?.getD {}) types.entries)

end Fixtures

end FixtureBench
