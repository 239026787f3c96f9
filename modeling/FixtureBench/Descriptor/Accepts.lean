import FixtureBench.Descriptor.Basic

/-!
# Values of a type

A value is checked by the source of the descriptor where there is one, and otherwise by the form,
part by part. An absent member of an object counts as null for a source.
-/

namespace FixtureBench

namespace Descriptor

mutual

/-- Whether a value, or its absence, satisfies a descriptor. -/
def acceptsMember : Descriptor → Option PropValue → Bool
  | bare v, value => v.acceptsValue (value.getD .null)
  | typed _ _ (some v), value => v.acceptsValue (value.getD .null)
  | typed _ required none, none => !required
  | typed _ required none, some .null => !required
  | typed (.scalar s) _ none, some value => s.accepts value
  | typed (.shape ⟨fields⟩) _ none, some (.obj members) => acceptsFields fields members
  | typed (.arrayOf item) _ none, some (.arr items) =>
    items.all fun value => item.acceptsMember (some value)
  | typed (.objectOf entry) _ none, some (.obj members) =>
    members.values.all fun value => entry.acceptsMember (some value)
  | typed (.instanceOf expected) _ none, some (.leaf (.inst actual)) => expected == actual
  | typed (.oneOf literals) _ none, some value => literals.any (·.looseEq value)
  | typed (.oneOfType alternatives) _ none, some value => anyAccepts alternatives value
  | _, _ => false

def acceptsFields : List (String × Descriptor) → Props → Bool
  | [], _ => true
  | (name, field) :: rest, members =>
    field.acceptsMember (members.get? name) && acceptsFields rest members

def anyAccepts : List Descriptor → PropValue → Bool
  | [], _ => false
  | alternative :: rest, value => alternative.acceptsMember (some value) || anyAccepts rest value

end

def accepts (d : Descriptor) (value : PropValue) : Bool := d.acceptsMember (some value)

end Descriptor

end FixtureBench
