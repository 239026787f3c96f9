import FixtureBench.Scalar

/-!
# Forms of types

A `TypeForm α` says how a type is put together from parts of type `α`: it is a scalar, a shape
with fields, an array or object of one part, the instances of a class, a list of literals, or a
choice between parts. The same forms describe how validators were built and how types are
described. `Kind` forgets the parts, and also names the types of which nothing is known.
-/

namespace FixtureBench

inductive TypeForm (α : Type) where
  | scalar (s : Scalar)
  | shape (fields : Keyed α)
  | arrayOf (item : α)
  | objectOf (entry : α)
  | instanceOf (expected : ClassRef)
  | oneOf (literals : List PropValue)
  | oneOfType (alternatives : List α)

inductive Kind where
  | scalar (s : Scalar)
  | shape
  | arrayOf
  | objectOf
  | instanceOf
  | oneOf
  | oneOfType
  /-- Only a validator is known. -/
  | bare
deriving DecidableEq

namespace Kind

def name : Kind → String
  | scalar s => s.name
  | shape => "shape"
  | arrayOf => "arrayOf"
  | objectOf => "objectOf"
  | instanceOf => "instanceOf"
  | oneOf => "oneOf"
  | oneOfType => "oneOfType"
  | bare => "opaque"

/-- Kinds without arguments. -/
def isScalar : Kind → Bool
  | scalar _ => true
  | _ => false

end Kind

namespace TypeForm

variable {α β : Type}

def kind : TypeForm α → Kind
  | scalar s => .scalar s
  | shape _ => .shape
  | arrayOf _ => .arrayOf
  | objectOf _ => .objectOf
  | instanceOf _ => .instanceOf
  | oneOf _ => .oneOf
  | oneOfType _ => .oneOfType

/-- The same form with every part converted. Classes and literals are no parts. -/
def map (f : α → β) : TypeForm α → TypeForm β
  | scalar s => .scalar s
  | shape fields => .shape (fields.map f)
  | arrayOf item => .arrayOf (f item)
  | objectOf entry => .objectOf (f entry)
  | instanceOf expected => .instanceOf expected
  | oneOf literals => .oneOf literals
  | oneOfType alternatives => .oneOfType (alternatives.map f)

def parts : TypeForm α → List α
  | shape fields => fields.values
  | arrayOf item => [item]
  | objectOf entry => [entry]
  | oneOfType alternatives => alternatives
  | _ => []

def fieldNames : TypeForm α → List String
  | shape fields => fields.keys
  | _ => []

def literals : TypeForm α → List PropValue
  | oneOf literals => literals
  | _ => []

/-- No field is named twice, and the literals are well-formed documents. -/
structure WellFormed (form : TypeForm α) : Prop where
  fields : form.fieldNames.Nodup
  literals : ∀ literal ∈ form.literals, literal.WellFormed

@[simp] theorem kind_map (f : α → β) (form : TypeForm α) : (form.map f).kind = form.kind := by
  cases form <;> rfl

@[simp] theorem parts_map (f : α → β) (form : TypeForm α) :
    (form.map f).parts = form.parts.map f := by
  cases form <;> simp [map, parts]

theorem map_map {γ : Type} (g : β → γ) (f : α → β) (form : TypeForm α) :
    (form.map f).map g = form.map (g ∘ f) := by
  cases form <;> simp [map, Keyed.map_map]

theorem map_congr {f g : α → β} {form : TypeForm α} (h : ∀ a ∈ form.parts, f a = g a) :
    form.map f = form.map g := by
  cases form with
  | shape fields => exact congrArg shape (Keyed.map_congr h)
  | arrayOf item => exact congrArg arrayOf (h item (by simp [parts]))
  | objectOf entry => exact congrArg objectOf (h entry (by simp [parts]))
  | oneOfType alternatives => exact congrArg oneOfType (List.map_congr_left h)
  | _ => rfl

@[simp] theorem fieldNames_map (f : α → β) (form : TypeForm α) :
    (form.map f).fieldNames = form.fieldNames := by
  cases form <;> simp [map, fieldNames]

@[simp] theorem literals_map (f : α → β) (form : TypeForm α) :
    (form.map f).literals = form.literals := by
  cases form <;> rfl

theorem WellFormed.map {form : TypeForm α} (h : form.WellFormed) (f : α → β) :
    (form.map f).WellFormed :=
  ⟨by simpa using h.fields, by simpa using h.literals⟩

end TypeForm

end FixtureBench
