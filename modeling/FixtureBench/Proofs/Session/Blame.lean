import FixtureBench.Proofs.Session.Infer

/-!
# Which place a failing check blames

A check goes through places: the value itself, and the fields, items and entries below it, each
under its full name. `Session.preorder` lists them, every place before those below it.
`Session.outcome` says what happens at one place, whatever is found below it. The check of a
validator has the outcome of the first place that fails, and passes if none does; what a validator
of a library rejects, it rejects under the name of the place.
-/

namespace FixtureBench

namespace Verdict

def isRejected : Verdict → Bool
  | .error (.rejected _) => true
  | _ => false

def ensure (holds : Bool) (error : PropError) : Verdict :=
  if holds then .passed else .rejected error

/-- The first verdict that does not pass, if there is one. -/
def firstFailure (verdicts : List Verdict) : Verdict :=
  (verdicts.find? fun verdict => !verdict.isPassed).getD .passed

/-- The first verdict that is no rejection: one of several alternatives has passed, or has broken
off before any other passed. -/
def firstDecision (verdicts : List Verdict) : Option Verdict :=
  verdicts.find? fun verdict => !verdict.isRejected

theorem firstFailure_cons (verdict : Verdict) (rest : List Verdict) :
    firstFailure (verdict :: rest) = verdict >>= fun _ => firstFailure rest := by
  cases verdict <;> rfl

theorem firstFailure_map {γ : Type} (items : List γ) (check : γ → Verdict) :
    firstFailure (items.map check) = items.forM check := by
  induction items with
  | nil => rfl
  | cons a rest ih =>
    rw [List.map_cons, firstFailure_cons, ih]
    rfl

theorem bind_passed (verdict : Verdict) : (verdict >>= fun _ => Verdict.passed) = verdict := by
  cases verdict <;> rfl

end Verdict

namespace PropValue

end PropValue

/-- A place of a check: the validator that is asked there, and the value that it finds, if any. -/
structure Place where
  validator : Validator
  value : Option PropValue
  ctx : CheckContext

namespace Place

def check (place : Place) : Verdict := place.validator.checkValue place.value place.ctx

def present? (place : Place) : Option PropValue := place.value.filter fun value => !value.isNull

/-- The props that a custom check sees: the value under its full name, or nothing. -/
def props (place : Place) : Props :=
  match place.value with
  | none => .empty
  | some value => Keyed.empty.insert place.ctx.prop value

theorem firstFailure_check {γ : Type} (items : List γ) (place : γ → Place) :
    Verdict.firstFailure ((items.map place).map check) = items.forM fun a => (place a).check := by
  rw [List.map_map, Verdict.firstFailure_map]
  rfl

end Place

namespace TypeForm

/-- The places directly below a value that is checked against a form. There are none below the
value of a choice. -/
def below (form : TypeForm Validator) (value : PropValue) (ctx : CheckContext) : List Place :=
  match form with
  | shape fields =>
    match value with
    | .obj members =>
      fields.entries.map fun (key, field) => ⟨field, members.get? key, ctx.member key⟩
    | _ => []
  | arrayOf item =>
    match value with
    | .arr items => items.zipIdx.map fun (value, i) => ⟨item, some value, ctx.item i⟩
    | _ => []
  | objectOf entry =>
    match value with
    | .obj members =>
      members.entries.map fun (key, value) => ⟨entry, some value, ctx.member key⟩
    | _ => []
  | _ => []

/-- The outcome for a value that is present and not null, whatever is found below it. A choice asks
its alternatives in order. -/
def outcome (form : TypeForm Validator) (value : PropValue) (ctx : CheckContext) : Verdict :=
  match form with
  | scalar s => .ensure (s.accepts value) (ctx.invalidType value s.name)
  | shape _ | objectOf _ => .ensure value.asObject?.isSome (ctx.invalidType value "object")
  | arrayOf _ => .ensure value.asArray?.isSome (ctx.invalidType value "array")
  | instanceOf expected =>
    .ensure (value == .inst expected)
      (.notInstance ctx.prop ctx.component value.typeName expected.name)
  | oneOf literals =>
    .ensure (literals.any (·.looseEq value))
      (.notOneOf ctx.prop ctx.component value.display (displayLiterals literals))
  | oneOfType alternatives =>
    (Verdict.firstDecision (alternatives.map fun v => v.checkValue (some value) ctx)).getD
      (.rejected (.noMatchingType ctx.prop ctx.component))

theorem checkAny_eq (value : PropValue) (ctx : CheckContext) (alternatives : List Validator) :
    checkAny value ctx alternatives = (oneOfType alternatives).outcome value ctx := by
  induction alternatives with
  | nil => rfl
  | cons v rest ih =>
    rw [checkAny, ih]
    simp only [outcome, Verdict.firstDecision, List.map_cons, List.find?_cons]
    cases v.checkValue (some value) ctx with
    | ok u => rfl
    | error e => cases e <;> rfl

/-- The check of a form looks at the value first and then at the places below it, in order. -/
theorem check_eq (form : TypeForm Validator) (value : PropValue) (ctx : CheckContext) :
    form.check value ctx =
      form.outcome value ctx >>= fun _ =>
        Verdict.firstFailure ((form.below value ctx).map Place.check) := by
  cases form with
  | shape fields =>
    cases value with
    | obj members =>
      change _ = Verdict.firstFailure ((fields.entries.map _).map Place.check)
      rw [Place.firstFailure_check]
      rfl
    | _ => rfl
  | arrayOf item =>
    cases value with
    | arr items =>
      change _ = Verdict.firstFailure ((items.zipIdx.map _).map Place.check)
      rw [Place.firstFailure_check]
      rfl
    | _ => rfl
  | objectOf entry =>
    cases value with
    | obj members =>
      change _ = Verdict.firstFailure ((members.entries.map _).map Place.check)
      rw [Place.firstFailure_check]
      rfl
    | _ => rfl
  | scalar s => exact (Verdict.bind_passed _).symm
  | instanceOf expected =>
    refine Eq.trans ?_ (Verdict.bind_passed _).symm
    cases value with
    | leaf handle =>
      cases handle with
      | func callback => rfl
      | inst actual =>
        change _ = Verdict.ensure (Handle.inst actual == .inst expected) _
        by_cases h : actual = expected <;> simp [check, Verdict.ensure, h]
    | _ => rfl
  | oneOf literals => exact (Verdict.bind_passed _).symm
  | oneOfType alternatives =>
    exact (checkAny_eq value ctx alternatives).trans (Verdict.bind_passed _).symm

end TypeForm

namespace Place

def below (place : Place) (form? : Option (TypeForm Validator)) : List Place :=
  match form?, place.present? with
  | some form, some value => form.below value place.ctx
  | _, _ => []

/-- What happens at a place, whatever is found below it, by the form that its validator was made
from. A custom check sees the value as the only prop there is. Any other validator passes or
requires a missing value, and looks at a value by the form; one that was made directly runs its
check. -/
def outcome (place : Place) (form? : Option (TypeForm Validator)) : Verdict :=
  match place.validator with
  | .custom _ check => check place.props place.ctx.prop place.ctx.component
  | v =>
    match place.present?, form? with
    | none, _ => .ensure (!v.isRequired) place.ctx.required
    | some value, some form => form.outcome value place.ctx
    | some value, none => v.checkValue (some value) place.ctx

variable {place place' : Place} {form : TypeForm Validator}

theorem missing_or_present (place : Place) :
    place.present? = none ∧ place.value.getD .null = .null ∨
      ∃ value ≠ .null, place.present? = some value ∧ place.value = some value := by
  rcases PropValue.missing_or_present place.value with h | ⟨value, hvalue, h⟩
  · refine .inl ⟨?_, h⟩
    rw [present?]
    cases hvalue : place.value with
    | none => rfl
    | some value =>
      rw [hvalue] at h
      obtain rfl : value = .null := h
      rfl
  · refine .inr ⟨value, hvalue, ?_, h⟩
    rw [present?, h]
    cases value with
    | null => exact absurd rfl hvalue
    | _ => rfl

end Place

namespace Session

/-- The form that a validator was made from. -/
def form? (s : Session) (v : Validator) : Option (TypeForm Validator) :=
  (s.products.find? fun p => p.handles.any (·.id == v.id)).bind (·.form?)

def below (s : Session) (place : Place) : List Place := place.below (s.form? place.validator)

def outcome (s : Session) (place : Place) : Verdict := place.outcome (s.form? place.validator)

variable {s : Session} {place place' : Place} {p : Product} {v : Validator}
  {form : TypeForm Validator}

/-- A check given by the user that breaks off unless it is asked for a short text. -/
def initialsCheck : CustomCheck := fun props name _ =>
  match props.get? name with
  | some (.str text) => if text.length ≤ 3 then .passed else .rejected (.custom "too long")
  | _ => .panicked

def team : StateM Session Validator := do
  let lib ← newLibrary
  let initials ← newCustom initialsCheck
  let member ← build lib (.shape ⟨[("name", lib.string.toRequired), ("initials", initials)]⟩)
  build lib (.arrayOf member)

theorem Reachable.build (hs : s.Reachable) {lib : Library} (held : lib ∈ s.libraries)
    (form : TypeForm Validator) (composite : form.kind.isScalar = false)
    (wellFormed : form.WellFormed) (parts : ∀ v ∈ form.parts, v ∈ s.handles) :
    ((build lib form).run s).2.Reachable ∧
      ((build lib form).run s).1 ∈ ((build lib form).run s).2.handles :=
  ⟨.tail hs (.build held composite wellFormed parts),
    mem_handles.2 ⟨_, List.mem_cons_self, List.mem_cons_self⟩⟩

end Session

end FixtureBench
