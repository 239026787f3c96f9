import FixtureBench.Component
import FixtureBench.Descriptor.Basic
import FixtureBench.Registry

/-!
# Inferring descriptors from validators

Inference follows a registry from a validator to the validators it was built from. A validator
that the registry does not know is described by itself.
-/

namespace FixtureBench

namespace Registry

/-- Follow the registry through at most `fuel` levels. -/
def inferWithin (r : Registry) : Nat → Validator → Descriptor
  | 0, v => .bare v
  | fuel + 1, v =>
    match r.lookup? v with
    | none => .bare v
    | some entry => .typed (entry.form.map (r.inferWithin fuel)) entry.required (some v)

/-- The descriptor of a validator. A descent that ends meets no identity twice on its way, so it
takes at most one level more than there are entries, and this fuel is enough. Where a registry
leads from a validator back to itself the descent has no end: `Infers` relates the validator to no
descriptor, and the one given here is cut off where the fuel runs out. -/
def infer (r : Registry) (v : Validator) : Descriptor := r.inferWithin (r.size + v.id + 1) v

end Registry

/-- What a descriptor can be inferred from: a validator, or a descriptor, which stays as it is. -/
inductive TypeSource where
  | validator (v : Validator)
  | descriptor (d : Descriptor)

namespace TypeSource

def infer (r : Registry) : TypeSource → Descriptor
  | validator v => r.infer v
  | descriptor d => d

end TypeSource

namespace Component

def inferTypes (r : Registry) (component : Component) : Keyed Descriptor :=
  component.propTypes.map r.infer

end Component

end FixtureBench
