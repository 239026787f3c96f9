import FixtureBench.Proofs.Descriptor.Overrides
import FixtureBench.Proofs.Equality
import FixtureBench.Proofs.Session.Infer

/-!
# Minimal values are values of their types

`Descriptor.Safe` describes the types that have a minimal value of their own. Such a value fits the
form of the type, part by part, and uses only parts that are safe themselves; `TypeForm.Fits`
states this once for validators and for descriptors. No leaf is ever asked, so nothing is assumed
of the validators that were made directly.
-/

namespace FixtureBench

namespace TypeForm

variable {α β : Type}

/-- A value fits a form in the simplest way: in a choice, it is the first part that it fits. -/
inductive Fits (P : α → Option PropValue → Prop) : TypeForm α → PropValue → Prop where
  | scalar {s : Scalar} {value : PropValue} (h : s.accepts value = true) : Fits P (.scalar s) value
  | shape {fields : Keyed α} {members : Props}
      (h : ∀ e ∈ fields.entries, P e.2 (members.get? e.1)) : Fits P (.shape fields) (.obj members)
  | arrayOf {item : α} {items : List PropValue} (h : ∀ value ∈ items, P item (some value)) :
      Fits P (.arrayOf item) (.arr items)
  | objectOf {entry : α} {members : Props} (h : ∀ value ∈ members.values, P entry (some value)) :
      Fits P (.objectOf entry) (.obj members)
  | oneOf {literals : List PropValue} {value : PropValue}
      (h : literals.any (·.looseEq value) = true) : Fits P (.oneOf literals) value
  | oneOfType {first : α} {rest : List α} {value : PropValue} (h : P first (some value)) :
      Fits P (.oneOfType (first :: rest)) value

namespace Fits

theorem mono {P Q : α → Option PropValue → Prop} {form : TypeForm α} {value : PropValue}
    (h : Fits P form value) (weaker : ∀ a ∈ form.parts, ∀ value, P a value → Q a value) :
    Fits Q form value := by
  cases h with
  | scalar h => exact .scalar h
  | shape h => exact .shape fun e he => weaker e.2 (List.mem_map_of_mem he) _ (h e he)
  | arrayOf h => exact .arrayOf fun value hv => weaker _ List.mem_cons_self _ (h value hv)
  | objectOf h => exact .objectOf fun value hv => weaker _ List.mem_cons_self _ (h value hv)
  | oneOf h => exact .oneOf h
  | oneOfType h => exact .oneOfType (weaker _ List.mem_cons_self _ h)

theorem of_map {f : α → β} {P : β → Option PropValue → Prop} {form : TypeForm α}
    {value : PropValue} (h : Fits P (form.map f) value) :
    Fits (fun a => P (f a)) form value := by
  cases form with
  | scalar s =>
    cases h with
    | scalar h => exact .scalar h
  | shape fields =>
    cases h with
    | shape h => exact .shape fun e he => h (e.1, f e.2) (List.mem_map_of_mem he)
  | arrayOf item =>
    cases h with
    | arrayOf h => exact .arrayOf h
  | objectOf entry =>
    cases h with
    | objectOf h => exact .objectOf h
  | instanceOf expected => cases h
  | oneOf literals =>
    cases h with
    | oneOf h => exact .oneOf h
  | oneOfType alternatives =>
    cases alternatives with
    | nil => cases h
    | cons first rest =>
      cases h with
      | oneOfType h => exact .oneOfType h

theorem allows {fits : α → Option PropValue → Bool} {form : TypeForm α} {value : PropValue}
    (h : Fits (fun a value => fits a value = true) form value) : form.allows fits value = true := by
  cases h with
  | scalar h => exact h
  | shape h => exact List.all_eq_true.2 h
  | arrayOf h => exact List.all_eq_true.2 h
  | objectOf h => exact List.all_eq_true.2 h
  | oneOf h => exact h
  | oneOfType h => exact List.any_eq_true.2 ⟨_, List.mem_cons_self, h⟩

/-- A value that fits passes the check, and nothing that could break off is checked. -/
theorem check {form : TypeForm Validator} {value : PropValue}
    (h : Fits (fun v value => ∀ ctx, v.checkValue value ctx = .passed) form value)
    (ctx : CheckContext) : form.check value ctx = .passed := by
  cases h with
  | scalar h => exact if_pos h
  | shape h => exact Verdict.passed_forM fun e he => h e he _
  | arrayOf h => exact Verdict.passed_forM fun e he => h e.1 (List.fst_mem_of_mem_zipIdx he) _
  | objectOf h => exact Verdict.passed_forM fun e he => h e.2 (List.mem_map_of_mem he) _
  | oneOf h => exact if_pos h
  | oneOfType h =>
    change checkAny _ _ _ = _
    rw [checkAny, h]
    rfl

end Fits

end TypeForm

namespace Descriptor

/-- The types with a minimal value of their own. -/
inductive Safe : Descriptor → Prop where
  | optional {form : TypeForm Descriptor} {source : Option Validator} :
      Safe (.typed form false source)
  | scalar {s : Scalar} {source : Option Validator} : Safe (.typed (.scalar s) true source)
  | objectOf {entry : Descriptor} {source : Option Validator} :
      Safe (.typed (.objectOf entry) true source)
  | shape {fields : Keyed Descriptor} {source : Option Validator}
      (parts : ∀ field ∈ fields.values, Safe field) : Safe (.typed (.shape fields) true source)
  | arrayOf {item : Descriptor} {source : Option Validator} (part : Safe item) :
      Safe (.typed (.arrayOf item) true source)
  | oneOf {first : PropValue} {rest : List PropValue} {source : Option Validator}
      (present : first ≠ .null) : Safe (.typed (.oneOf (first :: rest)) true source)
  | oneOfType {first : Descriptor} {rest : List Descriptor} {source : Option Validator}
      (required : first.isRequired = true) (part : Safe first) :
      Safe (.typed (.oneOfType (first :: rest)) true source)

variable {d : Descriptor}

theorem minimal_optional (form : TypeForm Descriptor) (source : Option Validator) (path : Cursor) :
    (typed form false source).minimal .empty path = .null := by
  rw [minimal]
  rfl

theorem minimal_required (form : TypeForm Descriptor) (source : Option Validator) (path : Cursor) :
    (typed form true source).minimal .empty path = minimalOfForm .empty form path := by
  rw [minimal]
  rfl

theorem Safe.minimal_ne_null (h : d.Safe) (required : d.isRequired = true) (path : Cursor) :
    d.minimal .empty path ≠ .null := by
  induction h with
  | optional => cases required
  | @scalar s =>
    rw [minimal_required]
    intro hnull
    cases s <;> cases hnull
  | objectOf =>
    rw [minimal_required]
    intro hnull
    cases hnull
  | shape parts =>
    rw [minimal_required, minimalOfForm]
    intro hnull
    cases hnull
  | arrayOf part =>
    rw [minimal_required, minimalOfForm]
    intro hnull
    cases hnull
  | oneOf present =>
    rw [minimal_required]
    exact present
  | oneOfType hfirst part ih =>
    rw [minimal_required, minimalOfForm]
    exact ih hfirst

theorem get?_minimalFields {fields : List (String × Descriptor)}
    (distinct : (fields.map (·.1)).Nodup) (path : Cursor) {e : String × Descriptor}
    (he : e ∈ fields) :
    (Keyed.mk (minimalFields .empty fields path)).get? e.1 =
      some (e.2.minimal .empty (path ++ [.key e.1])) := by
  have hmap := minimalFields_eq_map .empty fields path
  have hkeys : (Keyed.mk (minimalFields .empty fields path)).Distinct := by
    unfold Keyed.Distinct Keyed.keys
    rw [hmap, List.map_map]
    exact distinct
  apply hkeys.get?_of_mem
  change _ ∈ minimalFields .empty fields path
  rw [hmap]
  exact List.mem_map_of_mem he

def IsMinimal (d : Descriptor) (value : Option PropValue) : Prop :=
  d.Safe ∧ ∃ path, value = some (d.minimal .empty path)

/-- The minimal value of a safe required type fits its form, with minimal values of the parts. -/
theorem Safe.fits_minimal {form : TypeForm Descriptor} {source : Option Validator}
    (h : (typed form true source).Safe) (wellFormed : form.WellFormed) (path : Cursor) :
    form.Fits IsMinimal ((typed form true source).minimal .empty path) := by
  rw [minimal_required]
  cases h with
  | @scalar s =>
    refine .scalar ?_
    cases s <;> rfl
  | objectOf => exact .objectOf fun _ h => nomatch h
  | @shape fields _ parts =>
    rw [minimalOfForm]
    refine .shape fun e he => ⟨parts e.2 (List.mem_map_of_mem he), path ++ [.key e.1], ?_⟩
    exact get?_minimalFields wellFormed.fields path he
  | arrayOf part =>
    rw [minimalOfForm]
    refine .arrayOf fun value hv => ?_
    rw [List.mem_singleton.1 hv]
    exact ⟨part, _, rfl⟩
  | @oneOf first rest =>
    refine .oneOf (List.any_eq_true.2 ⟨first, List.mem_cons_self, ?_⟩)
    exact Tree.looseEq_self (wellFormed.literals first List.mem_cons_self)
  | oneOfType required part =>
    rw [minimalOfForm]
    exact .oneOfType ⟨part, path, rfl⟩

theorem Sourced.check_minimal {leaf : Validator → Prop} (h : d.Sourced leaf) (safe : d.Safe)
    (path : Cursor) {v : Validator} (hv : d.source? = some v) (ctx : CheckContext) :
    v.checkValue (some (d.minimal .empty path)) ctx = .passed := by
  induction h generalizing path v ctx with
  | bare accepted => cases safe
  | @typed tested required w describe tests wellFormed described parts ih =>
    cases hv
    cases required with
    | false =>
      rw [minimal_optional]
      exact tests.checkValue_missing rfl ctx
    | true =>
      rw [tests.checkValue_some (safe.minimal_ne_null rfl path)]
      apply TypeForm.Fits.check
      have hfits := (safe.fits_minimal (wellFormed.map describe) path).of_map
      refine hfits.mono fun part hpart value hvalue => ?_
      obtain ⟨hsafe, path, rfl⟩ := hvalue
      exact ih part hpart hsafe path (described part hpart)

/-- The source of a safe type was made by a library. -/
theorem Sourced.tests_of_safe {leaf : Validator → Prop} (h : d.Sourced leaf) (safe : d.Safe)
    {v : Validator} (hv : d.source? = some v) : ∃ form required, v.Tests form required := by
  cases h with
  | bare accepted => cases safe
  | typed describe tests wellFormed described parts =>
    cases hv
    exact ⟨_, _, tests⟩

theorem Grounded.acceptsMember_minimal {leaf : Validator → Prop} (h : d.Grounded leaf)
    (safe : d.Safe) (path : Cursor) :
    d.acceptsMember (some (d.minimal .empty path)) = true := by
  induction h generalizing path with
  | @sourced d h =>
    cases hsource : d.source? with
    | none => cases h <;> cases hsource
    | some v =>
      rw [acceptsMember_source hsource]
      exact congrArg Verdict.isPassed (h.check_minimal safe path hsource .anonymous)
  | bare => cases safe
  | @typed form required wellFormed parts ih =>
    cases required with
    | false =>
      rw [minimal_optional]
      exact acceptsMember_missing rfl form false
    | true =>
      rw [acceptsMember_form (safe.minimal_ne_null rfl path)]
      apply TypeForm.Fits.allows
      refine (safe.fits_minimal wellFormed path).mono fun part hpart value hvalue => ?_
      obtain ⟨hsafe, path, rfl⟩ := hvalue
      exact ih part hpart hsafe path

/-- The minimal value of a safe type satisfies the type, and the validator that the type was
inferred from. It is not null if a value is required. -/
theorem accepts_minimal (path : Cursor) :
    (∀ d : Descriptor, d.Composed (Inferred fun _ => True) → d.Safe →
      d.accepts (d.minimal .empty path) = true ∧
        (d.isRequired = true → d.minimal .empty path ≠ .null)) ∧
    ∀ s : Session, s.Reachable → ∀ ref v, s.BuiltOn (fun _ => True) v →
      ((s.registry ref).infer v).Safe →
        v.acceptsValue (((s.registry ref).infer v).minimal .empty path) = true := by
  constructor
  · intro d composed safe
    exact ⟨(composed.grounded fun _ hd => hd.sourced).acceptsMember_minimal safe path,
      fun required => safe.minimal_ne_null required path⟩
  · intro s reachable ref v built safe
    have hinferred : ((s.registry ref).infer v).Sourced fun _ => True :=
      Inferred.sourced ⟨s, reachable, ref, v, built, rfl⟩
    have hsource : ((s.registry ref).infer v).source? = some v := Registry.source?_infer v
    exact congrArg Verdict.isPassed (hinferred.check_minimal safe path hsource .anonymous)

theorem accepts_minimal_wordList :
    ((ofForm (.shape ⟨[("words", wordList)]⟩)).toRequired.accepts
        ((ofForm (.shape ⟨[("words", wordList)]⟩)).toRequired.minimal .empty []) = true ∧
      ((ofForm (.shape ⟨[("words", wordList)]⟩)).toRequired.isRequired = true →
        (ofForm (.shape ⟨[("words", wordList)]⟩)).toRequired.minimal .empty [] ≠ .null)) ∧
      (Session.wordList.run .empty).1.acceptsValue (wordList.minimal .empty []) = true := by
  obtain ⟨reachable, built, form, source, hform⟩ := Session.wordList_spec
  have safe : wordList.Safe := by
    rw [wordList, hform]
    exact .optional
  have built' : (Session.wordList.run .empty).2.BuiltOn (fun _ => True)
      (Session.wordList.run .empty).1 := built.mono fun _ _ => trivial
  have wellFormed : (TypeForm.shape ⟨[("words", wordList)]⟩).WellFormed :=
    ⟨by simp [TypeForm.fieldNames, Keyed.keys], fun _ h => nomatch h⟩
  have parts (P : Descriptor → Prop) (h : P wordList) :
      ∀ d ∈ (TypeForm.shape ⟨[("words", wordList)]⟩).parts, P d := by
    simpa [TypeForm.parts, Keyed.values] using h
  have composed : (ofForm (.shape ⟨[("words", wordList)]⟩)).toRequired.Composed
      (Inferred fun _ => True) :=
    .toRequired (.ofForm wellFormed (parts _ (.given ⟨_, reachable, 0, _, built', rfl⟩)))
  exact ⟨(accepts_minimal []).1 _ composed (.shape (parts _ safe)),
    (accepts_minimal []).2 _ reachable 0 _ built' safe⟩

end Descriptor

end FixtureBench
