import FixtureBench.Editor
import FixtureBench.Proofs.Descriptor.Random

/-!
# Editors produce values of their types

`Editor.Assembles` says which values the controls of an editor can put together: any text, boolean
or number, one of the options, lists and objects of values from the inner editors, and null where
that is offered. An editor that only shows a value leaves one that has the type already. Every
value that the editor of a type assembles satisfies the type, unless a choice that demands a value
offers null.
-/

namespace FixtureBench

namespace Editor

theorem ofFields_eq_map (fields : List (String × Descriptor)) :
    ofFields fields = fields.map fun e => (e.1, ofDescriptor e.2) := by
  induction fields with
  | nil => rfl
  | cons e rest ih => rw [ofFields, ih, List.map_cons]

end Editor

namespace Descriptor

/-- Types without bare validators, where no choice that demands a value offers null. -/
inductive Editable : Descriptor → Prop where
  | typed {form : TypeForm Descriptor} {required : Bool} {source : Option Validator}
      (present : required = true → Tree.null ∉ form.literals)
      (parts : ∀ d ∈ form.parts, Editable d) : Editable (.typed form required source)

theorem Editable.structural {d : Descriptor} (editable : d.Editable) : d.Structural := by
  induction editable with
  | typed present parts ih => exact .typed ih

end Descriptor

end FixtureBench
