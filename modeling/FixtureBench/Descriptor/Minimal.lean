import FixtureBench.Cursor.Step
import FixtureBench.Descriptor.Basic

/-!
# Minimal values

The minimal value of a type is the smallest representative of a required type, and null for an
optional type and wherever none is known. Overrides give the values at chosen cursors of the
result instead.
-/

namespace FixtureBench

/-- Values to use at chosen cursors. The latest entry of a cursor counts. -/
structure Overrides where
  entries : List (Cursor × PropValue)

namespace Overrides

def empty : Overrides := ⟨[]⟩

instance : EmptyCollection Overrides := ⟨empty⟩

def insert (o : Overrides) (place : Cursor) (value : PropValue) : Overrides :=
  ⟨(place, value) :: o.entries⟩

def ofPairs (pairs : List (Cursor × PropValue)) : Overrides :=
  pairs.foldl (fun o pair => o.insert pair.1 pair.2) empty

def get? (o : Overrides) (place : Cursor) : Option PropValue := o.entries.lookup place

end Overrides

namespace Descriptor

mutual

def minimal (overrides : Overrides) : Descriptor → Cursor → PropValue
  | bare _, path => (overrides.get? path).getD .null
  | typed form required _, path =>
    match overrides.get? path with
    | some value => value
    | none => if required then minimalOfForm overrides form path else .null

/-- The minimal value of a required type. -/
def minimalOfForm (overrides : Overrides) : TypeForm Descriptor → Cursor → PropValue
  | .scalar s, _ =>
    match s with
    | .string | .node | .element | .any => .str ""
    | .number => .num .zero
    | .bool => .bool false
    | .array => .arr []
    | .object => .obj {}
    | .func => .func .noop
  | .shape ⟨fields⟩, path => .obj ⟨minimalFields overrides fields path⟩
  | .arrayOf item, path => .arr [minimal overrides item (path ++ [.index 0])]
  | .objectOf _, _ => .obj {}
  | .instanceOf _, _ => .null
  | .oneOf literals, _ => literals.head?.getD .null
  | .oneOfType [], _ => .null
  | .oneOfType (first :: _), path => minimal overrides first path

def minimalFields (overrides : Overrides) :
    List (String × Descriptor) → Cursor → List (String × PropValue)
  | [], _ => []
  | (name, field) :: rest, path =>
    (name, minimal overrides field (path ++ [.key name])) :: minimalFields overrides rest path

end

end Descriptor

end FixtureBench
