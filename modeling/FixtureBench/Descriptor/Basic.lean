import FixtureBench.TypeForm
import FixtureBench.Validator.Basic

/-!
# Descriptors of types

A descriptor tells what a type is made of and whether a value is required. One that was recovered
from a validator remembers that validator as its source; a validator of which nothing is known is
described by itself. Equality looks at neither sources nor the order of shape fields.
-/

namespace FixtureBench

inductive Descriptor where
  | typed (form : TypeForm Descriptor) (required : Bool) (source : Option Validator)
  | bare (v : Validator)

namespace Descriptor

instance : Inhabited Descriptor := ⟨.typed (.scalar .any) false none⟩

/-- Induction over the parts of forms. -/
@[elab_as_elim, induction_eliminator]
theorem induction {motive : Descriptor → Prop}
    (typed : ∀ form required source, (∀ d ∈ form.parts, motive d) →
      motive (.typed form required source))
    (bare : ∀ v, motive (.bare v)) (d : Descriptor) : motive d :=
  Descriptor.rec (motive_1 := motive) (motive_2 := fun form => ∀ d ∈ form.parts, motive d)
    (motive_3 := fun fields => ∀ d ∈ fields.values, motive d)
    (motive_4 := fun alternatives => ∀ d ∈ alternatives, motive d)
    (motive_5 := fun entries => ∀ d ∈ entries.map (·.2), motive d)
    (motive_6 := fun entry => motive entry.2)
    (fun form required source ih => typed form required source ih) bare
    (by simp [TypeForm.parts]) (by simp [TypeForm.parts]) (by simp [TypeForm.parts])
    (by simp [TypeForm.parts]) (by simp [TypeForm.parts]) (by simp [TypeForm.parts])
    (by simp [TypeForm.parts]) (by simp [Keyed.values]) (by simp) (by simp_all) (by simp)
    (by simp_all) (by simp) d

/-- The optional type of a form, built directly. -/
def ofForm (form : TypeForm Descriptor) : Descriptor := .typed form false none

def kind : Descriptor → Kind
  | typed form _ _ => form.kind
  | bare _ => .bare

/-- Whether a value is required; a bare validator never counts as such. -/
def isRequired : Descriptor → Bool
  | typed _ required _ => required
  | bare _ => false

/-- The same type with a value required; its source becomes the required counterpart. -/
def toRequired : Descriptor → Descriptor
  | typed form _ source => .typed form true (source.map Validator.toRequired)
  | bare v => .bare v

def source? : Descriptor → Option Validator
  | typed _ _ source => source
  | bare v => some v

mutual

/-- Equality up to sources and the order of shape fields. -/
def beq : Descriptor → Descriptor → Bool
  | typed (.scalar s) r _, typed (.scalar t) q _ => s == t && r == q
  | typed (.shape ⟨fields⟩) r _, typed (.shape others) q _ =>
    r == q && fields.length == others.size && beqFields fields others
  | typed (.arrayOf a) r _, typed (.arrayOf b) q _ => r == q && beq a b
  | typed (.objectOf a) r _, typed (.objectOf b) q _ => r == q && beq a b
  | typed (.instanceOf a) r _, typed (.instanceOf b) q _ => r == q && a == b
  | typed (.oneOf a) r _, typed (.oneOf b) q _ => r == q && a == b
  | typed (.oneOfType a) r _, typed (.oneOfType b) q _ => r == q && beqList a b
  | bare v, bare w => v == w
  | _, _ => false

def beqFields : List (String × Descriptor) → Keyed Descriptor → Bool
  | [], _ => true
  | (name, a) :: rest, others =>
    (match others.get? name with
      | some b => beq a b
      | none => false) && beqFields rest others

def beqList : List Descriptor → List Descriptor → Bool
  | [], [] => true
  | a :: rest, b :: others => beq a b && beqList rest others
  | _, _ => false

end

instance : BEq Descriptor := ⟨beq⟩

end Descriptor

end FixtureBench
