import FixtureBench.Proofs.Session.Infer

/-!
# Recipes

A recipe is a plan for a validator: validators that exist already, put together by the constructors
of a library, each node optional or required. The same recipe can be followed with a library, which
makes validators, and with descriptors alone. If the library records in a registry, inference
recovers from the validator what the descriptors say, with the validator of every node as its
source, and no later step of any program changes that.
-/

namespace FixtureBench

namespace TypeForm

variable {α β : Type}

/-- The form that is built from fields as they are listed. -/
def listed : TypeForm α → TypeForm α
  | shape fields => .shape (.ofPairs fields.entries)
  | form => form

theorem map_listed (f : α → β) (form : TypeForm α) : form.listed.map f = (form.map f).listed := by
  cases form with
  | shape fields => exact congrArg shape (Keyed.map_ofPairs f fields.entries)
  | _ => rfl

theorem parts_listed {form : TypeForm α} {part : α} (h : part ∈ form.listed.parts) :
    part ∈ form.parts := by
  cases form with
  | shape fields => exact Keyed.mem_pairs_of_mem_values_ofPairs h
  | _ => exact h

theorem literals_listed (form : TypeForm α) : form.listed.literals = form.literals := by
  cases form <;> rfl

theorem wellFormed_listed {form : TypeForm α}
    (literals : ∀ literal ∈ form.literals, literal.WellFormed) : form.listed.WellFormed := by
  refine ⟨?_, by rwa [literals_listed]⟩
  cases form with
  | shape fields => exact Keyed.distinct_ofPairs fields.entries
  | _ => exact List.nodup_nil

end TypeForm

inductive Recipe where
  /-- A validator that was made directly. -/
  | leaf (v : Validator)
  /-- The fields of a shape are listed as they are given, and a name may be given more than once. -/
  | node (form : TypeForm Recipe) (required : Bool)

/-- A recipe that was followed: the validator, and its form with the validator of every node. -/
structure Built where
  recipe : Recipe
  handle : Validator
  description : Descriptor

namespace Recipe

@[elab_as_elim, induction_eliminator]
theorem induction {motive : Recipe → Prop} (leaf : ∀ v, motive (.leaf v))
    (node : ∀ form required, (∀ recipe ∈ form.parts, motive recipe) →
      motive (.node form required)) (recipe : Recipe) : motive recipe :=
  Recipe.rec (motive_1 := motive) (motive_2 := fun form => ∀ recipe ∈ form.parts, motive recipe)
    (motive_3 := fun fields => ∀ recipe ∈ fields.values, motive recipe)
    (motive_4 := fun alternatives => ∀ recipe ∈ alternatives, motive recipe)
    (motive_5 := fun entries => ∀ recipe ∈ entries.map (·.2), motive recipe)
    (motive_6 := fun entry => motive entry.2)
    leaf (fun form required ih => node form required ih)
    (by simp [TypeForm.parts]) (by simp [TypeForm.parts]) (by simp [TypeForm.parts])
    (by simp [TypeForm.parts]) (by simp [TypeForm.parts]) (by simp [TypeForm.parts])
    (by simp [TypeForm.parts]) (by simp [Keyed.values]) (by simp) (by simp_all) (by simp)
    (by simp_all) (by simp) recipe

mutual

def descriptor : Recipe → Descriptor
  | leaf v => .bare v
  | node form required =>
    let d := Descriptor.ofForm (descriptorForm form).listed
    if required then d.toRequired else d

def descriptorForm : TypeForm Recipe → TypeForm Descriptor
  | .shape ⟨fields⟩ => .shape ⟨descriptorFields fields⟩
  | .arrayOf item => .arrayOf item.descriptor
  | .objectOf entry => .objectOf entry.descriptor
  | .oneOfType alternatives => .oneOfType (descriptorList alternatives)
  | .scalar s => .scalar s
  | .instanceOf expected => .instanceOf expected
  | .oneOf literals => .oneOf literals

def descriptorFields : List (String × Recipe) → List (String × Descriptor)
  | [] => []
  | (name, recipe) :: rest => (name, recipe.descriptor) :: descriptorFields rest

def descriptorList : List Recipe → List Descriptor
  | [] => []
  | recipe :: rest => recipe.descriptor :: descriptorList rest

end

/-- The validator of a form; those of scalars are there already. -/
def make (lib : Library) : TypeForm Validator → StateM Session Validator
  | .scalar s => return lib.scalar s
  | form => Session.build lib form

mutual

def build (lib : Library) : Recipe → StateM Session Built
  | leaf v => return ⟨.leaf v, v, .bare v⟩
  | node form required => do
    let parts := (← buildForm lib form).listed
    let made ← make lib (parts.map Built.handle)
    let v := if required then made.toRequired else made
    return ⟨.node form required, v, .typed (parts.map Built.description) required (some v)⟩

def buildForm (lib : Library) : TypeForm Recipe → StateM Session (TypeForm Built)
  | .shape ⟨fields⟩ => return .shape ⟨← buildFields lib fields⟩
  | .arrayOf item => return .arrayOf (← item.build lib)
  | .objectOf entry => return .objectOf (← entry.build lib)
  | .oneOfType alternatives => return .oneOfType (← buildList lib alternatives)
  | .scalar s => return .scalar s
  | .instanceOf expected => return .instanceOf expected
  | .oneOf literals => return .oneOf literals

def buildFields (lib : Library) :
    List (String × Recipe) → StateM Session (List (String × Built))
  | [] => return []
  | (name, recipe) :: rest => do
    let part ← recipe.build lib
    return (name, part) :: (← buildFields lib rest)

def buildList (lib : Library) : List Recipe → StateM Session (List Built)
  | [] => return []
  | recipe :: rest => do
    let part ← recipe.build lib
    return part :: (← buildList lib rest)

end

/-- What a program can follow: the leaves were made before, and the literals are documents. -/
inductive Ready (s : Session) : Recipe → Prop where
  | leaf {p : Product} {v : Validator} (made : p ∈ s.products) (bare : p.form? = none)
      (handle : v ∈ p.handles) : Ready s (.leaf v)
  | node {form : TypeForm Recipe} {required : Bool}
      (literals : ∀ literal ∈ form.literals, literal.WellFormed)
      (parts : ∀ recipe ∈ form.parts, Ready s recipe) : Ready s (.node form required)

theorem descriptorForm_eq_map (form : TypeForm Recipe) :
    descriptorForm form = form.map descriptor := by
  cases form with
  | shape fields =>
    obtain ⟨fields⟩ := fields
    have hfields (fields : List (String × Recipe)) :
        descriptorFields fields = fields.map fun (name, recipe) => (name, recipe.descriptor) := by
      induction fields with
      | nil => rfl
      | cons e rest ih => rw [descriptorFields, ih, List.map_cons]
    rw [descriptorForm, hfields]
    rfl
  | oneOfType alternatives =>
    have hlist (alternatives : List Recipe) :
        descriptorList alternatives = alternatives.map descriptor := by
      induction alternatives with
      | nil => rfl
      | cons recipe rest ih => rw [descriptorList, ih, List.map_cons]
    rw [descriptorForm, hlist]
    rfl
  | _ => rfl

theorem descriptor_node (form : TypeForm Recipe) (required : Bool) :
    (node form required).descriptor = .typed (form.map descriptor).listed required none := by
  rw [descriptor, descriptorForm_eq_map]
  cases required <;> rfl

theorem Ready.of_extends {s s' : Session} {recipe : Recipe} (h : recipe.Ready s)
    (hextends : s.Extends s') : recipe.Ready s' := by
  induction h with
  | leaf made bare handle => exact .leaf (hextends.products _ made) bare handle
  | node literals parts ih => exact .node literals ih

end Recipe

end FixtureBench
