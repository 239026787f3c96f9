import FixtureBench.Proofs.Session.Infer

/-!
# Delegated and structural checks agree

A descriptor with a source leaves the decision to the source. `Descriptor.eraseAt` takes the
sources away from any choice of nodes, so that these are checked by their forms. As long as the
validators never break off and look at nothing but the value, this changes no decision.
-/

namespace FixtureBench

namespace Descriptor

mutual

/-- The descriptor without the sources of the chosen nodes. A node is named by the positions of
the parts that lead to it. -/
def eraseAt (chosen : List Nat → Bool) : Descriptor → Descriptor
  | typed form required source =>
    .typed (eraseForm chosen form) required (if chosen [] then none else source)
  | bare v => .bare v

def eraseForm (chosen : List Nat → Bool) : TypeForm Descriptor → TypeForm Descriptor
  | .shape ⟨fields⟩ => .shape ⟨eraseFields chosen 0 fields⟩
  | .arrayOf item => .arrayOf (item.eraseAt fun path => chosen (0 :: path))
  | .objectOf entry => .objectOf (entry.eraseAt fun path => chosen (0 :: path))
  | .oneOfType alternatives => .oneOfType (eraseList chosen 0 alternatives)
  | .scalar s => .scalar s
  | .instanceOf expected => .instanceOf expected
  | .oneOf literals => .oneOf literals

def eraseFields (chosen : List Nat → Bool) (position : Nat) :
    List (String × Descriptor) → List (String × Descriptor)
  | [] => []
  | (name, d) :: rest =>
    (name, d.eraseAt fun path => chosen (position :: path)) ::
      eraseFields chosen (position + 1) rest

def eraseList (chosen : List Nat → Bool) (position : Nat) : List Descriptor → List Descriptor
  | [] => []
  | d :: rest =>
    (d.eraseAt fun path => chosen (position :: path)) :: eraseList chosen (position + 1) rest

end

def eraseSources (d : Descriptor) : Descriptor := d.eraseAt fun _ => true

/-- Erasing sources below a descriptor changes none of its decisions. -/
def ErasureFree (d : Descriptor) : Prop :=
  ∀ chosen value, (d.eraseAt chosen).acceptsMember value = d.acceptsMember value

theorem acceptsFields_erased {fields : List (String × Descriptor)}
    (h : ∀ d ∈ fields.map (·.2), d.ErasureFree) (chosen : List Nat → Bool) (position : Nat)
    (members : Props) :
    acceptsFields (eraseFields chosen position fields) members = acceptsFields fields members := by
  induction fields generalizing position with
  | nil => rfl
  | cons e rest ih =>
    have hrest := ih (fun d hd => h d (List.mem_cons_of_mem _ hd)) (position + 1)
    rw [eraseFields, acceptsFields, acceptsFields, hrest, h e.2 List.mem_cons_self]

theorem anyAccepts_erased {alternatives : List Descriptor}
    (h : ∀ d ∈ alternatives, d.ErasureFree) (chosen : List Nat → Bool) (position : Nat)
    (value : PropValue) :
    anyAccepts (eraseList chosen position alternatives) value = anyAccepts alternatives value := by
  induction alternatives generalizing position with
  | nil => rfl
  | cons d rest ih =>
    have hrest := ih (fun d hd => h d (List.mem_cons_of_mem _ hd)) (position + 1)
    rw [eraseList, anyAccepts, anyAccepts, hrest, h d List.mem_cons_self]

/-- Without a source a node decides by its parts, so it decides as before if they do. -/
theorem acceptsMember_eraseForm {form : TypeForm Descriptor}
    (h : ∀ d ∈ form.parts, d.ErasureFree) (chosen : List Nat → Bool) (required : Bool)
    (value : Option PropValue) :
    (typed (eraseForm chosen form) required none).acceptsMember value =
      (typed form required none).acceptsMember value := by
  rcases PropValue.missing_or_present value with hvalue | ⟨value, hvalue, rfl⟩
  · rw [acceptsMember_missing hvalue, acceptsMember_missing hvalue]
  · rw [acceptsMember_form hvalue, acceptsMember_form hvalue]
    cases form with
    | shape fields =>
      have hfields := acceptsFields_erased h chosen 0
      cases value with
      | obj members =>
        simpa [eraseForm, TypeForm.allows, acceptsFields_eq_all] using hfields members
      | _ => rfl
    | arrayOf item =>
      have hitem := h item List.mem_cons_self
      cases value with
      | arr items => simp [eraseForm, TypeForm.allows, hitem _ _]
      | _ => rfl
    | objectOf entry =>
      have hentry := h entry List.mem_cons_self
      cases value with
      | obj members => simp [eraseForm, TypeForm.allows, hentry _ _]
      | _ => rfl
    | oneOfType alternatives =>
      have hany : anyAccepts (eraseList chosen 0 alternatives) value =
          anyAccepts alternatives value := anyAccepts_erased h chosen 0 value
      rw [anyAccepts_eq_any, anyAccepts_eq_any] at hany
      exact hany
    | _ => rfl

end Descriptor

/-- A validator decides as the form does that it is described by, if it was built from validators
that depend on the value alone. -/
theorem Validator.Tests.decides_described {tested : TypeForm Validator} {required : Bool}
    {v : Validator} (tests : v.Tests tested required) {describe : Validator → Descriptor}
    (described : ∀ part ∈ tested.parts, (describe part).source? = some part)
    (parts : ∀ part ∈ tested.parts, part.ValueOnly) (value : Option PropValue)
    (ctx : CheckContext) :
    (v.checkValue value ctx).Decides
      ((Descriptor.typed (tested.map describe) required none).acceptsMember value) := by
  rcases PropValue.missing_or_present value with hvalue | ⟨value, hvalue, rfl⟩
  · rw [Descriptor.acceptsMember_missing hvalue]
    exact tests.decides_missing hvalue ctx
  · have hallows : (tested.map describe).allows Descriptor.acceptsMember value =
        tested.allows (fun part value => part.acceptsValue (value.getD .null)) value := by
      rw [TypeForm.allows_map]
      exact TypeForm.allows_congr
        (fun part hpart value => Descriptor.acceptsMember_source (described part hpart) value) value
    rw [Descriptor.acceptsMember_form hvalue, hallows]
    exact tests.decides_allows parts hvalue ctx

namespace Descriptor

variable {d : Descriptor} {form : TypeForm Descriptor} {required : Bool} {source : Option Validator}

theorem Sourced.source_valueOnly (h : d.Sourced Validator.ValueOnly) {v : Validator}
    (hv : d.source? = some v) : v.ValueOnly :=
  h.source (fun tests parts => tests.valueOnly parts) hv

/-- With or without its source, a node decides the same. -/
theorem Sourced.acceptsMember_typed
    (h : (Descriptor.typed form required source).Sourced Validator.ValueOnly)
    (value : Option PropValue) :
    (Descriptor.typed form required source).acceptsMember value =
      (Descriptor.typed form required none).acceptsMember value := by
  cases h with
  | typed describe tests wellFormed described parts =>
    have hdecides := tests.decides_described described
      (fun part hpart => (parts part hpart).source_valueOnly (described part hpart))
      (some (value.getD .null)) .anonymous
    rw [← acceptsMember_getD (.typed _ _ none), ← hdecides.2, acceptsMember_source rfl]
    rfl

theorem Grounded.acceptsMember_typed
    (h : (Descriptor.typed form required source).Grounded Validator.ValueOnly)
    (value : Option PropValue) :
    (Descriptor.typed form required source).acceptsMember value =
      (Descriptor.typed form required none).acceptsMember value := by
  cases h with
  | sourced h => exact h.acceptsMember_typed value
  | typed wellFormed parts => rfl

theorem Grounded.erasureFree (h : d.Grounded Validator.ValueOnly) : d.ErasureFree := by
  induction d with
  | bare v => exact fun _ _ => rfl
  | typed form required source ih =>
    intro chosen value
    have hparts : ∀ part ∈ form.parts, part.ErasureFree :=
      fun part hpart => ih part hpart (h.typed_parts.2 part hpart)
    rw [eraseAt]
    by_cases hchosen : chosen []
    · -- The source decided before, and the form decides now.
      rw [if_pos hchosen, acceptsMember_eraseForm hparts, h.acceptsMember_typed]
    · rw [if_neg hchosen]
      cases source with
      | none => exact acceptsMember_eraseForm hparts chosen required value
      | some v => rw [acceptsMember_source rfl, acceptsMember_source rfl]

end Descriptor

theorem Session.BuiltOn.valueOnly {s : Session} (hs : s.Valid) {v : Validator}
    (h : s.BuiltOn Validator.ValueOnly v) : v.ValueOnly := by
  induction h with
  | direct made bare accepted handle =>
    rcases List.mem_pair.1 handle with rfl | rfl
    · exact accepted
    · exact accepted.toRequired
  | library made formed parts handle ih => exact (hs.tests made handle formed).1.valueOnly ih

namespace Descriptor

theorem Inferred.sourced_valueOnly {d : Descriptor} (h : d.Inferred Validator.ValueOnly) :
    d.Sourced Validator.ValueOnly := by
  obtain ⟨s, reachable, ref, v, built, rfl⟩ := h
  exact (reachable.valid.sourced_infer_builtOn built).mono
    fun _ hv => hv.valueOnly reachable.valid

/-- A validator accepts what its inferred descriptor accepts without any source, and the sources
of a descriptor can be erased anywhere without changing what it accepts. -/
theorem accepts_erased :
    (∀ s : Session, s.Reachable → ∀ ref v, s.BuiltOn Validator.ValueOnly v → ∀ value,
      v.acceptsValue value = ((s.registry ref).infer v).eraseSources.accepts value) ∧
    ∀ d : Descriptor, d.Composed (Inferred Validator.ValueOnly) → ∀ chosen value,
      (d.eraseAt chosen).accepts value = d.accepts value := by
  constructor
  · intro s reachable ref v built value
    have hsourced : ((s.registry ref).infer v).Sourced Validator.ValueOnly :=
      Inferred.sourced_valueOnly ⟨s, reachable, ref, v, built, rfl⟩
    have hsource : ((s.registry ref).infer v).source? = some v := Registry.source?_infer v
    calc
      v.acceptsValue value = ((s.registry ref).infer v).accepts value :=
        (acceptsMember_source hsource (some value)).symm
      _ = ((s.registry ref).infer v).eraseSources.accepts value :=
        (Grounded.erasureFree (.sourced hsourced) _ _).symm
  · intro d composed chosen value
    exact (composed.grounded fun _ => Inferred.sourced_valueOnly).erasureFree chosen (some value)

theorem accepts_erased_wordList :
    (Session.wordList.run .empty).1.acceptsValue (.arr [.str "a"]) =
        wordList.eraseSources.accepts (.arr [.str "a"]) ∧
      (wordList.toRequired.eraseAt fun path => path.isEmpty).accepts (.arr [.null]) =
        wordList.toRequired.accepts (.arr [.null]) := by
  obtain ⟨reachable, built, -⟩ := Session.wordList_spec
  exact ⟨accepts_erased.1 _ reachable 0 _ built _,
    accepts_erased.2 _ (.toRequired (.given inferred_wordList)) _ _⟩

end Descriptor

end FixtureBench
