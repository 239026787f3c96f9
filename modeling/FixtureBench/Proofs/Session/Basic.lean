import FixtureBench.Descriptor.Infer
import FixtureBench.Library
import Mathlib.Logic.Relation

/-!
# Sessions

A session is what a program has made with the workshop so far: its registries, its libraries and
its validators, each with the form it was built from. `Session.Step` lists what a program may do
next. Registries are written by libraries only, and whatever is handed to a library was made
before. Everything proved of reachable sessions holds after any number of such steps in any order.
-/

namespace FixtureBench

/-- A validator as it was made: by a library after a form, or directly from a check. -/
structure Product where
  validator : Validator
  form? : Option (TypeForm Validator)

def Product.handles (p : Product) : List Validator := [p.validator, p.validator.toRequired]

structure Session where
  workshop : Workshop
  /-- Every state of every library. A library keeps working when a copy of it is patched. -/
  libraries : List Library
  products : List Product

namespace Session

def empty : Session := ⟨.empty, [], []⟩

def registry (s : Session) (ref : RegistryRef) : Registry := s.workshop.registry ref

/-- All validators that a program can use. -/
def handles (s : Session) : List Validator := s.products.flatMap Product.handles

def scalarProducts (lib : Library) : List Product :=
  Scalar.all.map fun scalar => ⟨lib.scalar scalar, some (.scalar scalar)⟩

def newRegistry : StateM Session RegistryRef := fun s =>
  let (ref, workshop) := Workshop.newRegistry.run s.workshop
  (ref, { s with workshop })

def newLibrary : StateM Session Library := fun s =>
  let (lib, workshop) := Library.new.run s.workshop
  (lib, ⟨workshop, lib :: s.libraries, scalarProducts lib ++ s.products⟩)

def patch (lib : Library) (ref : RegistryRef) : StateM Session Library := fun s =>
  let (lib, workshop) := (lib.patch ref).run s.workshop
  (lib, { s with workshop, libraries := lib :: s.libraries })

def newCustom (check : CustomCheck) : StateM Session Validator := fun s =>
  let (v, workshop) := (Validator.newCustom check).run s.workshop
  (v, { s with workshop, products := ⟨v, none⟩ :: s.products })

def newPair (check : TypeCheck) : StateM Session Validator := fun s =>
  let (v, workshop) := (Validator.newPair check).run s.workshop
  (v, { s with workshop, products := ⟨v, none⟩ :: s.products })

def build (lib : Library) (form : TypeForm Validator) : StateM Session Validator := fun s =>
  let (v, workshop) := (lib.build form).run s.workshop
  (v, { s with workshop, products := ⟨v, some form⟩ :: s.products })

/-- Open a registry with a library that records in it, and make a validator from a check. -/
def openWith (check : TypeCheck) : StateM Session (Library × Validator) := do
  let ref ← newRegistry
  let lib ← patch (← newLibrary) ref
  return (lib, ← newPair check)

/-- One thing a program does. -/
inductive Step : Session → Session → Prop where
  | newRegistry (s : Session) : Step s (newRegistry.run s).2
  | newLibrary (s : Session) : Step s (newLibrary.run s).2
  | patch {s : Session} {lib : Library} {ref : RegistryRef} (held : lib ∈ s.libraries)
      (known : ref < s.workshop.registries.length) : Step s ((patch lib ref).run s).2
  | newCustom (s : Session) (check : CustomCheck) : Step s ((newCustom check).run s).2
  | newPair (s : Session) (check : TypeCheck) : Step s ((newPair check).run s).2
  | build {s : Session} {lib : Library} {form : TypeForm Validator} (held : lib ∈ s.libraries)
      (composite : form.kind.isScalar = false) (wellFormed : form.WellFormed)
      (parts : ∀ v ∈ form.parts, v ∈ s.handles) : Step s ((build lib form).run s).2

/-- The second session comes from the first by any number of steps. -/
def Later : Session → Session → Prop := Relation.ReflTransGen Step

/-- The sessions of all programs. -/
def Reachable (s : Session) : Prop := Later empty s

/-- Validators with nothing but accepted leaves: validators made directly from an accepted check,
what libraries built from such validators, and the required counterparts of both. -/
inductive BuiltOn (s : Session) (leaf : Validator → Prop) : Validator → Prop where
  | direct {p : Product} {v : Validator} (made : p ∈ s.products) (bare : p.form? = none)
      (accepted : leaf p.validator) (handle : v ∈ p.handles) : BuiltOn s leaf v
  | library {p : Product} {form : TypeForm Validator} {v : Validator} (made : p ∈ s.products)
      (formed : p.form? = some form) (parts : ∀ part ∈ form.parts, BuiltOn s leaf part)
      (handle : v ∈ p.handles) : BuiltOn s leaf v

theorem mem_handles {s : Session} {v : Validator} :
    v ∈ s.handles ↔ ∃ p ∈ s.products, v ∈ p.handles := List.mem_flatMap

theorem BuiltOn.mem_handles {s : Session} {leaf : Validator → Prop} {v : Validator}
    (h : s.BuiltOn leaf v) : v ∈ s.handles := by
  cases h with
  | direct made bare accepted handle => exact Session.mem_handles.2 ⟨_, made, handle⟩
  | library made formed parts handle => exact Session.mem_handles.2 ⟨_, made, handle⟩

theorem Reachable.later {s s' : Session} (hs : s.Reachable) (h : s.Later s') : s'.Reachable :=
  Relation.ReflTransGen.trans hs h

end Session

end FixtureBench
