import FixtureBench.Validator.Basic

/-!
# Components

A component is known by its display name and the validators of its declared props.
-/

namespace FixtureBench

structure Component where
  displayName : String
  propTypes : Keyed Validator

namespace Component

def invalidProps (component : Component) (props : Props) : List PropError :=
  component.propTypes.entries.filterMap fun (name, v) =>
    match v.checkGuarded props name component.displayName with
    | .ok () => none
    | .error error => some error

end Component

end FixtureBench
