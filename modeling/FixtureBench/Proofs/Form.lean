import FixtureBench.Descriptor.Accepts
import FixtureBench.Validator.Form

/-!
# What fits a form

`TypeForm.allows` says which values fit a form, given which values fit its parts. Both checkers of
the library are instances of it: the check of a validator that is built from other validators, as
long as none of these breaks off, and the structural check of a descriptor. That makes them
comparable part by part.
-/

namespace FixtureBench

theorem PropValue.missing_or_present (value : Option PropValue) :
    value.getD .null = .null ∨ ∃ present : PropValue, present ≠ .null ∧ value = some present := by
  by_cases h : value.getD .null = .null
  · exact .inl h
  · cases value with
    | none => exact absurd rfl h
    | some present => exact .inr ⟨present, h, rfl⟩

namespace TypeForm

variable {α β : Type}

/-- Whether a value that is present and not null fits a form. `fits` tells which values, or their
absence, fit a part. -/
def allows (fits : α → Option PropValue → Bool) (form : TypeForm α) (value : PropValue) : Bool :=
  match form with
  | scalar s => s.accepts value
  | shape fields =>
    match value with
    | .obj members => fields.entries.all fun e => fits e.2 (members.get? e.1)
    | _ => false
  | arrayOf item =>
    match value with
    | .arr items => items.all fun value => fits item (some value)
    | _ => false
  | objectOf entry =>
    match value with
    | .obj members => members.values.all fun value => fits entry (some value)
    | _ => false
  | instanceOf expected =>
    match value with
    | .leaf (.inst actual) => expected == actual
    | _ => false
  | oneOf literals => literals.any (·.looseEq value)
  | oneOfType alternatives => alternatives.any fun a => fits a (some value)

theorem allows_mono {fits fits' : α → Option PropValue → Bool} {form : TypeForm α}
    (h : ∀ a ∈ form.parts, ∀ value, fits a value = true → fits' a value = true) {value : PropValue}
    (allowed : form.allows fits value = true) : form.allows fits' value = true := by
  cases form with
  | shape fields =>
    cases value with
    | obj members =>
      have hfields := List.all_eq_true.1 allowed
      exact List.all_eq_true.2 fun e he => h e.2 (List.mem_map_of_mem he) _ (hfields e he)
    | _ => exact allowed
  | arrayOf item =>
    cases value with
    | arr items =>
      have hitems := List.all_eq_true.1 allowed
      exact List.all_eq_true.2 fun v hv => h item List.mem_cons_self _ (hitems v hv)
    | _ => exact allowed
  | objectOf entry =>
    cases value with
    | obj members =>
      have hmembers := List.all_eq_true.1 allowed
      exact List.all_eq_true.2 fun v hv => h entry List.mem_cons_self _ (hmembers v hv)
    | _ => exact allowed
  | oneOfType alternatives =>
    obtain ⟨a, ha, hfits⟩ := List.any_eq_true.1 allowed
    exact List.any_eq_true.2 ⟨a, ha, h a ha _ hfits⟩
  | _ => exact allowed

theorem allows_congr {fits fits' : α → Option PropValue → Bool} {form : TypeForm α}
    (h : ∀ a ∈ form.parts, ∀ value, fits a value = fits' a value) (value : PropValue) :
    form.allows fits value = form.allows fits' value := by
  rw [Bool.eq_iff_iff]
  constructor
  · exact allows_mono fun a ha value => (h a ha value).symm.trans
  · exact allows_mono fun a ha value => (h a ha value).trans

/-- What fits a converted form is what fits the form through the conversion. -/
theorem allows_map (f : α → β) (fits : β → Option PropValue → Bool) (form : TypeForm α)
    (value : PropValue) :
    (form.map f).allows fits value = form.allows (fun a => fits (f a)) value := by
  cases form with
  | shape fields => cases value <;> simp [map, allows, Keyed.map, Function.comp_def]
  | oneOfType alternatives => simp [map, allows, Function.comp_def]
  | _ => rfl

end TypeForm

namespace Verdict

/-- The check ran to its end, and passed or not as `passes` says. -/
def Decides (verdict : Verdict) (passes : Bool) : Prop :=
  verdict ≠ .panicked ∧ verdict.isPassed = passes

theorem decides_passed : Verdict.passed.Decides true := ⟨nofun, rfl⟩

theorem decides_rejected (error : PropError) : (Verdict.rejected error).Decides false := by
  refine ⟨?_, rfl⟩
  intro h
  cases h

theorem decides_ite {b : Bool} {error : PropError} :
    (if b then Verdict.passed else .rejected error).Decides b := by
  cases b with
  | true => exact decides_passed
  | false => exact decides_rejected error

theorem passed_forM {γ : Type} {items : List γ} {check : γ → Verdict}
    (h : ∀ a ∈ items, check a = .passed) : items.forM check = Verdict.passed := by
  induction items with
  | nil => rfl
  | cons a rest ih =>
    change (check a >>= fun _ => rest.forM check) = Verdict.passed
    rw [h a List.mem_cons_self]
    exact ih fun b hb => h b (List.mem_cons_of_mem a hb)

theorem forM_eq_passed_iff {γ : Type} {items : List γ} {check : γ → Verdict} :
    items.forM check = Verdict.passed ↔ ∀ a ∈ items, check a = .passed := by
  refine ⟨fun h => ?_, passed_forM⟩
  induction items with
  | nil => exact List.forall_mem_nil _
  | cons a rest ih =>
    change (check a >>= fun _ => rest.forM check) = Verdict.passed at h
    cases hc : check a with
    | ok u =>
      rw [hc] at h
      exact List.forall_mem_cons.2 ⟨hc, ih h⟩
    | error e =>
      rw [hc] at h
      cases h

/-- Checks that all run to their end, made one after another, pass if each of them does. -/
theorem decides_forM {γ : Type} (items : List γ) {check : γ → Verdict} (passes : γ → Bool)
    (h : ∀ a ∈ items, (check a).Decides (passes a)) :
    Verdict.Decides (items.forM check) (items.all passes) := by
  induction items with
  | nil => exact decides_passed
  | cons a rest ih =>
    have hrest := ih fun b hb => h b (List.mem_cons_of_mem a hb)
    obtain ⟨total, passed⟩ := h a List.mem_cons_self
    change Verdict.Decides (check a >>= fun _ => rest.forM check) (passes a && rest.all passes)
    cases hc : check a with
    | ok u =>
      rw [hc] at passed
      rw [← passed]
      exact hrest
    | error e =>
      rw [hc] at total passed
      rw [← passed]
      exact ⟨total, rfl⟩

end Verdict

namespace TypeForm

/-- A choice passes if one of its parts does, provided that all of them run to their end. -/
theorem checkAny_decides {fits : Validator → Option PropValue → Bool} {value : PropValue}
    {ctx : CheckContext} {alternatives : List Validator}
    (h : ∀ v ∈ alternatives, (v.checkValue (some value) ctx).Decides (fits v (some value))) :
    (checkAny value ctx alternatives).Decides (alternatives.any fun v => fits v (some value)) := by
  induction alternatives with
  | nil => exact Verdict.decides_rejected _
  | cons v rest ih =>
    have hrest := ih fun w hw => h w (List.mem_cons_of_mem v hw)
    obtain ⟨total, passed⟩ := h v List.mem_cons_self
    rw [checkAny, List.any_cons, ← passed]
    cases hc : v.checkValue (some value) ctx with
    | ok u => exact Verdict.decides_passed
    | error e =>
      cases e with
      | rejected error => exact hrest
      | panicked => exact absurd hc total

/-- The check of a form whose parts run to their end says whether the value fits the form. -/
theorem check_decides {fits : Validator → Option PropValue → Bool} {form : TypeForm Validator}
    (h : ∀ part ∈ form.parts, ∀ value ctx, (part.checkValue value ctx).Decides (fits part value))
    (value : PropValue) (ctx : CheckContext) :
    (form.check value ctx).Decides (form.allows fits value) := by
  cases form with
  | scalar s => exact Verdict.decides_ite
  | shape fields =>
    cases value with
    | obj members =>
      exact Verdict.decides_forM _ _ fun e he => h e.2 (List.mem_map_of_mem he) _ _
    | _ => exact Verdict.decides_rejected _
  | arrayOf item =>
    cases value with
    | arr items =>
      have hitems := Verdict.decides_forM items.zipIdx
        (fun entry => fits item (some entry.1))
        fun entry _ => h item (by simp [parts]) (some entry.1) (ctx.item entry.2)
      have hall : (items.zipIdx.all fun entry => fits item (some entry.1)) =
          items.all fun value => fits item (some value) :=
        calc
          _ = (items.zipIdx.map (·.1)).all fun value => fits item (some value) := by
            rw [List.all_map]
            rfl
          _ = _ := by rw [List.zipIdx_map_fst]
      rw [hall] at hitems
      exact hitems
    | _ => exact Verdict.decides_rejected _
  | objectOf entry =>
    cases value with
    | obj members =>
      have hentries := Verdict.decides_forM members.entries (fun e => fits entry (some e.2))
        fun e _ => h entry (by simp [parts]) (some e.2) (ctx.member e.1)
      change Verdict.Decides _ (members.values.all _)
      rw [Keyed.values, List.all_map]
      exact hentries
    | _ => exact Verdict.decides_rejected _
  | instanceOf expected =>
    cases value with
    | leaf handle =>
      cases handle with
      | func callback => exact Verdict.decides_rejected _
      | inst actual =>
        by_cases heq : actual = expected
        · subst heq
          simpa [check, allows] using Verdict.decides_passed
        · have hne : (expected == actual) = false := beq_eq_false_iff_ne.2 (Ne.symm heq)
          simpa [check, allows, heq, hne] using Verdict.decides_rejected _
    | _ => exact Verdict.decides_rejected _
  | oneOf literals => exact Verdict.decides_ite
  | oneOfType alternatives => exact checkAny_decides fun v hv => h v hv _ _

end TypeForm

namespace Descriptor

theorem acceptsFields_eq_all (fields : List (String × Descriptor)) (members : Props) :
    acceptsFields fields members = fields.all fun e => e.2.acceptsMember (members.get? e.1) := by
  induction fields with
  | nil => rfl
  | cons e rest ih => rw [acceptsFields, ih, List.all_cons]

theorem anyAccepts_eq_any (alternatives : List Descriptor) (value : PropValue) :
    anyAccepts alternatives value = alternatives.any fun d => d.acceptsMember (some value) := by
  induction alternatives with
  | nil => rfl
  | cons d rest ih => rw [anyAccepts, ih, List.any_cons]

/-- Without a source, a value that is present and not null is checked against the form. -/
theorem acceptsMember_form {value : PropValue} (hvalue : value ≠ .null)
    (form : TypeForm Descriptor) (required : Bool) :
    (typed form required none).acceptsMember (some value) =
      form.allows acceptsMember value := by
  cases form with
  | shape fields =>
    obtain ⟨entries⟩ := fields
    cases value with
    | null => exact absurd rfl hvalue
    | _ => simp [acceptsMember, TypeForm.allows, acceptsFields_eq_all]
  | oneOfType alternatives =>
    cases value with
    | null => exact absurd rfl hvalue
    | _ => simp [acceptsMember, TypeForm.allows, anyAccepts_eq_any]
  | instanceOf expected =>
    cases value with
    | null => exact absurd rfl hvalue
    | leaf handle => cases handle <;> simp [acceptsMember, TypeForm.allows]
    | _ => simp [acceptsMember, TypeForm.allows]
  | _ =>
    cases value with
    | null => exact absurd rfl hvalue
    | _ => simp [acceptsMember, TypeForm.allows]

theorem acceptsMember_missing {value : Option PropValue} (hvalue : value.getD .null = .null)
    (form : TypeForm Descriptor) (required : Bool) :
    (typed form required none).acceptsMember value = !required := by
  cases value with
  | none => simp [acceptsMember]
  | some value =>
    cases hvalue
    simp [acceptsMember]

/-- The source decides where there is one, and sees absence as null. -/
theorem acceptsMember_source {d : Descriptor} {v : Validator} (h : d.source? = some v)
    (value : Option PropValue) : d.acceptsMember value = v.acceptsValue (value.getD .null) := by
  cases d with
  | bare w =>
    cases h
    rw [acceptsMember]
  | typed form required source =>
    cases h
    rw [acceptsMember]

theorem acceptsMember_getD (d : Descriptor) (value : Option PropValue) :
    d.acceptsMember (some (value.getD .null)) = d.acceptsMember value := by
  cases h : d.source? with
  | some v => simp [acceptsMember_source h]
  | none =>
    cases d with
    | bare w => cases h
    | typed form required source =>
      cases h
      cases value with
      | none => simp [acceptsMember]
      | some value => rfl

end Descriptor

end FixtureBench
