import FixtureBench.Descriptor.Minimal

/-!
# Overrides of minimal values

The minimal value at a path is the override of the path where there is one. Otherwise it depends on
the overrides below the path alone, so overrides of other places make no difference to it.
-/

namespace FixtureBench

theorem Overrides.get?_insert (o : Overrides) (place : Cursor) (value : PropValue)
    (path : Cursor) :
    (o.insert place value).get? path = if path = place then some value else o.get? path := by
  by_cases h : path = place
  · simp [get?, insert, h]
  · simp [get?, insert, List.lookup_cons, h, beq_eq_false_iff_ne.2 h]

namespace Descriptor

variable {o o' : Overrides} {path : Cursor} {d : Descriptor}

theorem minimal_of_override {value : PropValue} (h : o.get? path = some value) :
    d.minimal o path = value := by
  cases d with
  | typed form required source => rw [minimal, h]
  | bare v => rw [minimal, h, Option.getD_some]

theorem minimal_of_free (h : o.get? path = none) (form : TypeForm Descriptor) (required : Bool)
    (source : Option Validator) :
    (typed form required source).minimal o path =
      if required then minimalOfForm o form path else .null := by
  rw [minimal, h]

theorem minimalFields_eq_map (o : Overrides) (fields : List (String × Descriptor))
    (path : Cursor) :
    minimalFields o fields path =
      fields.map fun e => (e.1, e.2.minimal o (path ++ [.key e.1])) := by
  induction fields with
  | nil => rfl
  | cons e rest ih => rw [minimalFields, ih, List.map_cons]

/-- The minimal value of a form is made of minimal values of its parts, at the path or below. -/
theorem minimalOfForm_congr {form : TypeForm Descriptor}
    (parts : ∀ part ∈ form.parts, ∀ below,
      part.minimal o (path ++ below) = part.minimal o' (path ++ below)) :
    minimalOfForm o form path = minimalOfForm o' form path := by
  cases form with
  | shape fields =>
    rw [minimalOfForm, minimalOfForm, minimalFields_eq_map, minimalFields_eq_map]
    refine congrArg (fun entries => Tree.obj ⟨entries⟩) (List.map_congr_left fun e he => ?_)
    rw [parts e.2 (List.mem_map_of_mem he)]
  | arrayOf item => rw [minimalOfForm, minimalOfForm, parts item List.mem_cons_self]
  | oneOfType alternatives =>
    cases alternatives with
    | nil => rfl
    | cons first rest =>
      have hfirst := parts first List.mem_cons_self []
      rw [List.append_nil] at hfirst
      rw [minimalOfForm, minimalOfForm, hfirst]
  | _ => rfl

theorem minimal_congr (h : ∀ below, o.get? (path ++ below) = o'.get? (path ++ below)) :
    d.minimal o path = d.minimal o' path := by
  have hpath : o.get? path = o'.get? path := by simpa using h []
  induction d generalizing path with
  | bare v => rw [minimal, minimal, hpath]
  | typed form required source ih =>
    cases hget : o.get? path with
    | some value => rw [minimal_of_override hget, minimal_of_override (hpath ▸ hget)]
    | none =>
      rw [minimal_of_free hget, minimal_of_free (hpath ▸ hget), minimalOfForm_congr]
      intro part hpart below
      exact ih part hpart (by simpa using fun more => h (below ++ more)) (h below)

/-- An override makes no difference to the minimal values of places that it is not at or below. -/
theorem minimal_insert_apart {place : Cursor} (h : ¬ path <+: place) (value : PropValue) :
    d.minimal (o.insert place value) path = d.minimal o path := by
  apply minimal_congr
  intro below
  rw [Overrides.get?_insert, if_neg]
  rintro rfl
  exact h (List.prefix_append path below)

end Descriptor

end FixtureBench
