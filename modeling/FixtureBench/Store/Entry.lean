import FixtureBench.Json.Outline
import FixtureBench.Json.Printer

/-!
# Entries of the component list

An entry names a component that can be previewed. As text it is an object with the members `key`
and `name`, or an array of the two strings. Other members of the object are ignored, whatever they
hold; a repeated `key` or `name` is refused.
-/

namespace FixtureBench

/-- The key a component is loaded by, and its display name. -/
structure ComponentEntry where
  key : String
  name : String
deriving DecidableEq

namespace ComponentEntry

def toJson (e : ComponentEntry) : Json := .obj ⟨[("key", .str e.key), ("name", .str e.name)]⟩

def only? (key : String) (members : List (String × Json.Outline)) : Option Json.Outline :=
  match members.filter (·.1 = key) with
  | [(_, value)] => some value
  | _ => none

def stringOf? : Json.Outline → Option String
  | .text parts => Json.Outline.decodeText? parts
  | _ => none

def parse? (text : String) : Option ComponentEntry := do
  match ← Json.Outline.parse? text with
  | .object members =>
    let members ← members.mapM fun (key, value) => do
      some (← Json.Outline.decodeText? key, value)
    some ⟨← (only? "key" members).bind stringOf?, ← (only? "name" members).bind stringOf?⟩
  | .array [key, name] => some ⟨← stringOf? key, ← stringOf? name⟩
  | _ => none

end ComponentEntry

end FixtureBench
