import FixtureBench.TypeForm
import FixtureBench.Validator.Basic

/-!
# Checks of type forms

`TypeForm.check` is the check of a validator that is built from other validators. Parts are
checked in order, each under its full name, and the first failure is the outcome. A choice passes
with its first part that passes, and reports none of the rejections before it.
-/

namespace FixtureBench

namespace TypeForm

/-- Check a value against several validators until one passes. A check that breaks off ends the
search. -/
def checkAny (value : PropValue) (ctx : CheckContext) : List Validator → Verdict
  | [] => .rejected (.noMatchingType ctx.prop ctx.component)
  | v :: rest =>
    match v.checkValue (some value) ctx with
    | .error (.rejected _) => checkAny value ctx rest
    | verdict => verdict

def displayLiterals (literals : List PropValue) : String :=
  "[" ++ ", ".intercalate (literals.map PropValue.display) ++ "]"

/-- The check of a present value that is not null against a form. -/
def check (form : TypeForm Validator) : TypeCheck := fun value ctx =>
  match form with
  | scalar s => if s.accepts value then .passed else .rejected (ctx.invalidType value s.name)
  | shape fields =>
    match value with
    | .obj members =>
      fields.entries.forM fun (key, field) => field.checkValue (members.get? key) (ctx.member key)
    | _ => .rejected (ctx.invalidType value "object")
  | arrayOf item =>
    match value with
    | .arr items => items.zipIdx.forM fun (value, i) => item.checkValue (some value) (ctx.item i)
    | _ => .rejected (ctx.invalidType value "array")
  | objectOf entry =>
    match value with
    | .obj members =>
      members.entries.forM fun (key, value) => entry.checkValue (some value) (ctx.member key)
    | _ => .rejected (ctx.invalidType value "object")
  | instanceOf expected =>
    match value with
    | .leaf (.inst actual) =>
      if actual = expected then .passed
      else .rejected (.notInstance ctx.prop ctx.component value.typeName expected.name)
    | _ => .rejected (.notInstance ctx.prop ctx.component value.typeName expected.name)
  | oneOf literals =>
    if literals.any (·.looseEq value) then .passed
    else .rejected
      (.notOneOf ctx.prop ctx.component value.display (displayLiterals literals))
  | oneOfType alternatives => checkAny value ctx alternatives

end TypeForm

end FixtureBench
