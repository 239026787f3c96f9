import FixtureBench.PropValue
import FixtureBench.Validator.Error

/-!
# Validators

A validator checks one prop. A custom validator sees all props; the others check a value that is
present and not null, and come in pairs: the optional one accepts absence and null, its required
counterpart rejects them. A validator is known by its identity, and two validators are equal when
their identities are.
-/

namespace FixtureBench

/-- How a check fails: it rejects the prop, or it breaks off without a result. -/
inductive CheckFailure where
  | rejected (error : PropError)
  | panicked
deriving DecidableEq

abbrev Verdict := Except CheckFailure Unit

instance : DecidableEq Verdict
  | .ok (), .ok () => .isTrue rfl
  | .ok _, .error _ => .isFalse nofun
  | .error _, .ok _ => .isFalse nofun
  | .error a, .error b => decidable_of_iff (a = b) ⟨congrArg _, Except.error.inj⟩

namespace Verdict

def passed : Verdict := .ok ()

def rejected (error : PropError) : Verdict := .error (.rejected error)

def panicked : Verdict := .error .panicked

def isPassed : Verdict → Bool
  | .ok () => true
  | .error _ => false

end Verdict

/-- Where a check runs: the component and the full name of the prop. -/
structure CheckContext where
  component : String
  prop : String

namespace CheckContext

def anonymous : CheckContext := ⟨"<<anonymous>>", "value"⟩

def required (ctx : CheckContext) : PropError := .required ctx.prop ctx.component

def invalidType (ctx : CheckContext) (found : PropValue) (expected : String) : PropError :=
  .invalidType ctx.prop ctx.component found.typeName expected

def member (ctx : CheckContext) (key : String) : CheckContext :=
  ⟨ctx.component, ctx.prop ++ "." ++ key⟩

def item (ctx : CheckContext) (index : Nat) : CheckContext :=
  ⟨ctx.component, ctx.prop ++ "[" ++ toString index ++ "]"⟩

end CheckContext

/-- A check of a value that is present and not null. -/
abbrev TypeCheck := PropValue → CheckContext → Verdict

/-- A check given by the user: of all props, for a prop name, on behalf of a component. -/
abbrev CustomCheck := Props → String → String → Verdict

/-- The identity of a validator. Identities are handed out in increasing order. -/
abbrev ValidatorId := Nat

inductive Validator where
  | custom (id : ValidatorId) (check : CustomCheck)
  | required (id : ValidatorId) (check : TypeCheck)
  | optional (id requiredId : ValidatorId) (check : TypeCheck)

namespace Validator

def id : Validator → ValidatorId
  | custom id _ => id
  | required id _ => id
  | optional id _ _ => id

instance : BEq Validator := ⟨fun v w => v.id == w.id⟩

def isCustom : Validator → Bool
  | custom .. => true
  | _ => false

def isRequired : Validator → Bool
  | required .. => true
  | _ => false

/-- The required counterpart of an optional validator. -/
def counterpart? : Validator → Option Validator
  | optional _ requiredId check => some (required requiredId check)
  | _ => none

/-- The validator that demands a value; required and custom validators stay as they are. -/
def toRequired (v : Validator) : Validator := v.counterpart?.getD v

/-- Check one value; `none` is the value of an absent prop. A custom validator sees it as the only
prop there is. -/
def checkValue (v : Validator) (value : Option PropValue) (ctx : CheckContext) : Verdict :=
  match v with
  | custom _ check =>
    check ⟨(value.map fun value => (ctx.prop, value)).toList⟩ ctx.prop ctx.component
  | required _ check =>
    match value with
    | none | some .null => .rejected ctx.required
    | some value => check value ctx
  | optional _ _ check =>
    match value with
    | none | some .null => .passed
    | some value => check value ctx

def check (v : Validator) (props : Props) (name component : String) : Verdict :=
  match v with
  | custom _ check => check props name component
  | v => v.checkValue (props.get? name) ⟨component, name⟩

/-- Check the prop `name` of a component; a check that breaks off counts as a rejection. -/
def checkGuarded (v : Validator) (props : Props) (name component : String) :
    Except PropError Unit :=
  match v.check props name component with
  | .ok () => .ok ()
  | .error (.rejected error) => .error error
  | .error .panicked => .error (.panicked name)

def acceptsValue (v : Validator) (value : PropValue) : Bool :=
  (v.checkValue (some value) .anonymous).isPassed

/-- The text of a validator where values are listed for inspection; its identity is shown as
`number`. -/
def inspect (v : Validator) (number : Int) : String :=
  "Validator(#" ++ toString number ++ ", " ++
    (if v.isCustom then "custom" else "required: " ++ toString v.isRequired) ++ ")"

end Validator

end FixtureBench
