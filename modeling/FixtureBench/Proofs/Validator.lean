import FixtureBench.Proofs.Form

/-!
# Validators of a form

`Validator.Tests form required v` says that `v` is a validator as libraries build them: it checks
values against `form`, and it is the required one of its pair or not. Validators that never break
off, and whose verdict depends on the value alone, are `ValueOnly`. A validator built from such
validators is one of them, and so is its required counterpart.
-/

namespace FixtureBench

namespace Validator

inductive Tests (form : TypeForm Validator) : Bool → Validator → Prop where
  | optional (id requiredId : ValidatorId) :
      Tests form false (.optional id requiredId form.check)
  | required (id : ValidatorId) : Tests form true (.required id form.check)

namespace Tests

variable {form : TypeForm Validator} {required : Bool} {v : Validator}

theorem toRequired (h : Tests form required v) : Tests form true v.toRequired := by
  cases h with
  | optional id requiredId => exact .required requiredId
  | required id => exact .required id

theorem checkValue_some (h : Tests form required v) {value : PropValue} (hvalue : value ≠ .null)
    (ctx : CheckContext) : v.checkValue (some value) ctx = form.check value ctx := by
  cases h <;> cases value with
  | null => exact absurd rfl hvalue
  | _ => rfl

theorem checkValue_missing (h : Tests form required v) {value : Option PropValue}
    (hvalue : value.getD .null = .null) (ctx : CheckContext) :
    v.checkValue value ctx = if required then .rejected ctx.required else .passed := by
  cases value with
  | none => cases h <;> rfl
  | some value =>
    cases hvalue
    cases h <;> rfl

theorem check_eq (h : Tests form required v) (props : Props) (name component : String) :
    v.check props name component = v.checkValue (props.get? name) ⟨component, name⟩ := by
  cases h <;> rfl

theorem checkGuarded_congr (h : Tests form required v) {props props' : Props} {name : String}
    (heq : props.get? name = props'.get? name) (component : String) :
    v.checkGuarded props name component = v.checkGuarded props' name component := by
  rw [checkGuarded, checkGuarded, h.check_eq, h.check_eq, heq]

theorem checkGuarded_of_passed (h : Tests form required v) {props : Props}
    {name component : String}
    (passed : v.checkValue (props.get? name) ⟨component, name⟩ = .passed) :
    v.checkGuarded props name component = .ok () := by
  rw [checkGuarded, h.check_eq, passed]
  rfl

theorem decides_missing (h : Tests form required v) {value : Option PropValue}
    (hvalue : value.getD .null = .null) (ctx : CheckContext) :
    (v.checkValue value ctx).Decides !required := by
  rw [h.checkValue_missing hvalue]
  cases required with
  | false => exact Verdict.decides_passed
  | true => exact Verdict.decides_rejected _

end Tests

/-- The checks of a value, or of its absence, never break off. Whether they pass does not depend on
the names in the context, and absence counts as null. -/
structure ValueOnly (v : Validator) : Prop where
  total : ∀ value ctx, v.checkValue value ctx ≠ .panicked
  steady : ∀ (value value' : Option PropValue) (ctx ctx' : CheckContext),
    value.getD .null = value'.getD .null →
      (v.checkValue value ctx).isPassed = (v.checkValue value' ctx').isPassed

namespace ValueOnly

theorem decides {v : Validator} (h : v.ValueOnly) (value : Option PropValue) (ctx : CheckContext) :
    (v.checkValue value ctx).Decides (v.acceptsValue (value.getD .null)) :=
  ⟨h.total value ctx, h.steady _ _ _ _ rfl⟩

theorem of_decides {v : Validator} (passes : PropValue → Bool)
    (h : ∀ value ctx, (v.checkValue value ctx).Decides (passes (value.getD .null))) :
    v.ValueOnly where
  total value ctx := (h value ctx).1
  steady value value' ctx ctx' heq := by rw [(h value ctx).2, (h value' ctx').2, heq]

theorem toRequired {v : Validator} (h : v.ValueOnly) : v.toRequired.ValueOnly := by
  cases v with
  | custom id check => exact h
  | required id check => exact h
  | optional id requiredId check =>
    refine of_decides (fun value => !value.isNull &&
      (optional id requiredId check).acceptsValue value) fun value ctx => ?_
    cases value with
    | none => exact Verdict.decides_rejected _
    | some value =>
      have hdecides := h.decides (some value) ctx
      cases value with
      | null => exact Verdict.decides_rejected _
      | _ => exact hdecides

end ValueOnly

namespace Tests

variable {form : TypeForm Validator} {required : Bool} {v : Validator}

/-- A validator whose parts depend on the value alone accepts what fits its form part by part. -/
theorem decides_allows (h : Tests form required v) (parts : ∀ part ∈ form.parts, part.ValueOnly)
    {value : PropValue} (hvalue : value ≠ .null) (ctx : CheckContext) :
    (v.checkValue (some value) ctx).Decides
      (form.allows (fun part value => part.acceptsValue (value.getD .null)) value) := by
  rw [h.checkValue_some hvalue]
  apply TypeForm.check_decides
  intro part hpart value ctx
  exact (parts part hpart).decides value ctx

theorem valueOnly (h : Tests form required v) (parts : ∀ part ∈ form.parts, part.ValueOnly) :
    v.ValueOnly := by
  refine ValueOnly.of_decides (fun value => if value.isNull then !required else
    form.allows (fun part value => part.acceptsValue (value.getD .null)) value) fun value ctx => ?_
  cases value with
  | none => exact h.decides_missing rfl ctx
  | some value =>
    by_cases hvalue : value = .null
    · subst hvalue
      exact h.decides_missing rfl ctx
    · have hdecides := h.decides_allows parts hvalue ctx
      cases value with
      | null => exact absurd rfl hvalue
      | _ => exact hdecides

end Tests

end Validator

end FixtureBench
