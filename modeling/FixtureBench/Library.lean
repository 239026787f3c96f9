import FixtureBench.Registry

/-!
# Libraries of validators

A `Workshop` hands out validator identities and holds the registries that libraries record in. A
`Library` has one validator for each scalar and builds validators of the other forms. A patched
library records in its registry how it builds them; patching records its scalars at once.
-/

namespace FixtureBench

abbrev RegistryRef := Nat

structure Workshop where
  /-- The identity that is handed out next. -/
  nextId : ValidatorId
  registries : List Registry

abbrev Build := StateM Workshop

namespace Workshop

def empty : Workshop := ⟨0, []⟩

def registry (w : Workshop) (ref : RegistryRef) : Registry := w.registries.getD ref .empty

def register (ref : RegistryRef) (form : TypeForm Validator) (v : Validator) : Build Unit :=
  modify fun w => { w with registries := w.registries.modify ref (·.register form v) }

def newRegistry : Build RegistryRef :=
  modifyGet fun w => (w.registries.length, { w with registries := w.registries ++ [.empty] })

def freshId : Build ValidatorId :=
  modifyGet fun w => (w.nextId, { w with nextId := w.nextId + 1 })

end Workshop

namespace Validator

/-- A validator with its required counterpart; the counterpart takes the first identity. -/
def newPair (check : TypeCheck) : Build Validator := do
  let requiredId ← Workshop.freshId
  let id ← Workshop.freshId
  return .optional id requiredId check

def newCustom (check : CustomCheck) : Build Validator := do
  return .custom (← Workshop.freshId) check

end Validator

structure Library where
  array : Validator
  bool : Validator
  func : Validator
  number : Validator
  object : Validator
  string : Validator
  any : Validator
  element : Validator
  node : Validator
  /-- The registry in which the library records what it builds. -/
  registry : Option RegistryRef

namespace Library

def scalar (lib : Library) : Scalar → Validator
  | .array => lib.array
  | .bool => lib.bool
  | .func => lib.func
  | .number => lib.number
  | .object => lib.object
  | .string => lib.string
  | .any => lib.any
  | .element => lib.element
  | .node => lib.node

def newScalar (s : Scalar) : Build Validator := Validator.newPair (TypeForm.scalar s).check

/-- A library that records nothing. -/
def new : Build Library := do
  let array ← newScalar .array
  let bool ← newScalar .bool
  let func ← newScalar .func
  let number ← newScalar .number
  let object ← newScalar .object
  let string ← newScalar .string
  let any ← newScalar .any
  let element ← newScalar .element
  let node ← newScalar .node
  return ⟨array, bool, func, number, object, string, any, element, node, none⟩

def isPatched (lib : Library) : Bool := lib.registry.isSome

/-- Record the scalars in a registry and let the library record there from now on. The registry
that the library records in already is left as it is. -/
def patch (lib : Library) (ref : RegistryRef) : Build Library := do
  if lib.registry = some ref then return lib
  Scalar.all.forM fun s => Workshop.register ref (.scalar s) (lib.scalar s)
  return { lib with registry := some ref }

def newPatched (ref : RegistryRef) : Build Library := do (← new).patch ref

/-- Build a validator of a form and record it. -/
def build (lib : Library) (form : TypeForm Validator) : Build Validator := do
  let v ← Validator.newPair form.check
  lib.registry.forM fun ref => Workshop.register ref form v
  return v

/-- An object whose listed fields satisfy their validators; other fields are allowed. -/
def shape (lib : Library) (fields : List (String × Validator)) : Build Validator :=
  lib.build (.shape (.ofPairs fields))

def arrayOf (lib : Library) (item : Validator) : Build Validator := lib.build (.arrayOf item)

def objectOf (lib : Library) (entry : Validator) : Build Validator := lib.build (.objectOf entry)

def instanceOf (lib : Library) (expected : ClassRef) : Build Validator :=
  lib.build (.instanceOf expected)

def oneOf (lib : Library) (literals : List PropValue) : Build Validator :=
  lib.build (.oneOf literals)

def oneOfType (lib : Library) (alternatives : List Validator) : Build Validator :=
  lib.build (.oneOfType alternatives)

end Library

end FixtureBench
