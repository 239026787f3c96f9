import FixtureBench.Proofs.Validator

/-!
# Descriptors whose sources check what they describe

A descriptor that was recovered from a validator has that validator as its source, and the
validator tests the form that the descriptor shows, part by part: `Descriptor.Sourced`. A
descriptor built directly has no source, but it may have such descriptors as parts:
`Descriptor.Grounded`. `Descriptor.Composed` lists the ways to make descriptors from given ones;
whatever is made from sourced descriptors is grounded.
-/

namespace FixtureBench

namespace Descriptor

/-- A description of a validator, down to leaves that are described by themselves. -/
inductive Sourced (leaf : Validator → Prop) : Descriptor → Prop where
  | bare {v : Validator} (accepted : leaf v) : Sourced leaf (.bare v)
  | typed {tested : TypeForm Validator} {required : Bool} {v : Validator}
      (describe : Validator → Descriptor) (tests : v.Tests tested required)
      (wellFormed : tested.WellFormed)
      (described : ∀ part ∈ tested.parts, (describe part).source? = some part)
      (parts : ∀ part ∈ tested.parts, Sourced leaf (describe part)) :
      Sourced leaf (.typed (tested.map describe) required (some v))

/-- A descriptor built directly, down to sourced descriptors and accepted leaves. -/
inductive Grounded (leaf : Validator → Prop) : Descriptor → Prop where
  | sourced {d : Descriptor} (h : Sourced leaf d) : Grounded leaf d
  | bare {v : Validator} : Grounded leaf (.bare v)
  | typed {form : TypeForm Descriptor} {required : Bool} (wellFormed : form.WellFormed)
      (parts : ∀ d ∈ form.parts, Grounded leaf d) : Grounded leaf (.typed form required none)

/-- The descriptors made from given ones: as they are, as parts of a form, or required. A validator
can always be described by itself. -/
inductive Composed (given : Descriptor → Prop) : Descriptor → Prop where
  | given {d : Descriptor} (h : given d) : Composed given d
  | ofForm {form : TypeForm Descriptor} (wellFormed : form.WellFormed)
      (parts : ∀ d ∈ form.parts, Composed given d) : Composed given (.ofForm form)
  | bare (v : Validator) : Composed given (.bare v)
  | toRequired {d : Descriptor} (h : Composed given d) : Composed given d.toRequired

/-- Descriptors without bare validators, down to the last part. -/
inductive Structural : Descriptor → Prop where
  | typed {form : TypeForm Descriptor} {required : Bool} {source : Option Validator}
      (parts : ∀ d ∈ form.parts, Structural d) : Structural (.typed form required source)

variable {leaf leaf' : Validator → Prop} {d : Descriptor}

theorem Sourced.mono (h : d.Sourced leaf)
    (weaker : ∀ v, leaf v → leaf' v) : d.Sourced leaf' := by
  induction h with
  | bare accepted => exact .bare (weaker _ accepted)
  | typed describe tests wellFormed described parts ih =>
    exact .typed describe tests wellFormed described ih

theorem Sourced.toRequired (h : Sourced leaf d) : Sourced leaf d.toRequired := by
  cases h with
  | bare accepted => exact .bare accepted
  | typed describe tests wellFormed described parts =>
    exact .typed describe tests.toRequired wellFormed described parts

theorem Grounded.toRequired (h : Grounded leaf d) : Grounded leaf d.toRequired := by
  cases h with
  | sourced h => exact .sourced h.toRequired
  | bare => exact .bare
  | typed wellFormed parts => exact .typed wellFormed parts

theorem Grounded.typed_parts {form : TypeForm Descriptor} {required : Bool}
    {source : Option Validator} (h : (Descriptor.typed form required source).Grounded leaf) :
    form.WellFormed ∧ ∀ d ∈ form.parts, d.Grounded leaf := by
  cases h with
  | typed wellFormed parts => exact ⟨wellFormed, parts⟩
  | sourced h =>
    cases h with
    | typed describe tests wellFormed described parts =>
      refine ⟨wellFormed.map describe, ?_⟩
      rw [TypeForm.parts_map]
      exact List.forall_mem_map.2 fun part hpart => .sourced (parts part hpart)

theorem Composed.grounded {given : Descriptor → Prop} (h : Composed given d)
    (sourced : ∀ d, given d → Sourced leaf d) : Grounded leaf d := by
  induction h with
  | given h => exact .sourced (sourced _ h)
  | ofForm wellFormed parts ih => exact .typed wellFormed ih
  | bare v => exact .bare
  | toRequired h ih => exact ih.toRequired

/-- Without bare validators nothing is left to the leaves, whatever they are. -/
theorem Structural.sourced (structural : d.Structural) (h : d.Sourced leaf) : d.Sourced leaf' := by
  induction h with
  | bare accepted => cases structural
  | typed describe tests wellFormed described parts ih =>
    cases structural with
    | typed structuralParts =>
      rw [TypeForm.parts_map, List.forall_mem_map] at structuralParts
      exact .typed describe tests wellFormed described
        fun part hpart => ih part hpart (structuralParts part hpart)

theorem Structural.grounded (structural : d.Structural) (h : d.Grounded leaf) :
    d.Grounded leaf' := by
  induction h with
  | sourced h => exact .sourced (structural.sourced h)
  | bare => cases structural
  | typed wellFormed parts ih =>
    cases structural with
    | typed structuralParts =>
      exact .typed wellFormed fun part hpart => ih part hpart (structuralParts part hpart)

/-- The source of a sourced descriptor is a validator like its leaves, if all that is built from
such validators is. -/
theorem Sourced.source (h : Sourced leaf d)
    (built : ∀ {form : TypeForm Validator} {required : Bool} {v : Validator},
      v.Tests form required → (∀ part ∈ form.parts, leaf part) → leaf v)
    {v : Validator} (hv : d.source? = some v) : leaf v := by
  induction h generalizing v with
  | bare accepted =>
    cases hv
    exact accepted
  | typed describe tests wellFormed described parts ih =>
    cases hv
    exact built tests fun part hpart => ih part hpart (described part hpart)

end Descriptor

end FixtureBench
