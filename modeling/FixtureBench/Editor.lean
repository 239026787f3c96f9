import FixtureBench.Descriptor.Basic

/-!
# Field editors

How a prop of a type is edited: scalars in a control of their own, literals by choice, arrays and
shapes part by part, and everything else shown as read-only document text. A type that is not
required can also be set to null.
-/

namespace FixtureBench

inductive Editor where
  | text
  | checkbox
  | number
  | select (options : List PropValue)
  | list (item : Editor)
  | fields (editors : Keyed Editor)
  | json
  | nullable (inner : Editor)

namespace Editor

instance : Inhabited Editor := ⟨json⟩

mutual

def ofDescriptor : Descriptor → Editor
  | .typed form required _ => if required then ofForm form else nullable (ofForm form)
  | .bare _ => nullable json

def ofForm : TypeForm Descriptor → Editor
  | .scalar s =>
    match s with
    | .string | .node | .element => text
    | .bool => checkbox
    | .number => number
    | _ => json
  | .oneOf literals => select literals
  | .arrayOf item => list (ofDescriptor item)
  | .shape ⟨entries⟩ => fields ⟨ofFields entries⟩
  | _ => json

def ofFields : List (String × Descriptor) → List (String × Editor)
  | [] => []
  | (name, d) :: rest => (name, ofDescriptor d) :: ofFields rest

end

/-- The editor without the control that sets null. -/
def base : Editor → Editor
  | nullable inner => inner
  | editor => editor

def isNullable : Editor → Bool
  | nullable _ => true
  | _ => false

mutual

/-- Equality up to the order of fields. -/
def beq : Editor → Editor → Bool
  | text, text => true
  | checkbox, checkbox => true
  | number, number => true
  | select a, select b => a == b
  | list a, list b => beq a b
  | fields ⟨entries⟩, fields others => entries.length == others.size && beqFields entries others
  | json, json => true
  | nullable a, nullable b => beq a b
  | _, _ => false

def beqFields : List (String × Editor) → Keyed Editor → Bool
  | [], _ => true
  | (name, a) :: rest, others =>
    (match others.get? name with
      | some b => beq a b
      | none => false) && beqFields rest others

end

instance : BEq Editor := ⟨beq⟩

end Editor

end FixtureBench
