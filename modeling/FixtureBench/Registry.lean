import FixtureBench.Validator.Form

/-!
# Registries

A registry remembers how validators were built. Registering a validator that is not recorded
writes its entry and the entry of its required counterpart, over the one that the counterpart may
have already. Registering a recorded validator changes nothing.
-/

namespace FixtureBench

structure RegistryEntry where
  form : TypeForm Validator
  required : Bool

structure Registry where
  entries : List (ValidatorId × RegistryEntry)

namespace Registry

def empty : Registry := ⟨[]⟩

instance : Inhabited Registry := ⟨empty⟩

def size (r : Registry) : Nat := r.entries.length

def isEmpty (r : Registry) : Bool := r.entries.isEmpty

def find? (r : Registry) (id : ValidatorId) : Option RegistryEntry := r.entries.lookup id

def lookup? (r : Registry) (v : Validator) : Option RegistryEntry := r.find? v.id

/-- Record an entry in place of any earlier one. -/
def put (r : Registry) (id : ValidatorId) (entry : RegistryEntry) : Registry :=
  ⟨(id, entry) :: r.entries.filter (·.1 ≠ id)⟩

/-- Record how a validator and its required counterpart were built, unless the validator is
recorded already. Only the validator is looked up: an entry of the counterpart is overwritten. -/
def register (r : Registry) (form : TypeForm Validator) (v : Validator) : Registry :=
  if (r.lookup? v).isSome then r
  else
    let r := match v.counterpart? with
      | some counterpart => r.put counterpart.id ⟨form, true⟩
      | none => r
    r.put v.id ⟨form, v.isRequired⟩

theorem find?_put (r : Registry) (id : ValidatorId) (entry : RegistryEntry) (id' : ValidatorId) :
    (r.put id entry).find? id' = if id' = id then some entry else r.find? id' := by
  have lookup_filter : (es : List (ValidatorId × RegistryEntry)) → id' ≠ id →
      (es.filter (·.1 ≠ id)).lookup id' = es.lookup id' := by
    intro es h
    induction es with
    | nil => rfl
    | cons e rest ih =>
      obtain ⟨k, entry⟩ := e
      by_cases hk : k = id
      · simp [List.lookup_cons, hk] at ih ⊢
        simpa [List.lookup_cons, beq_eq_false_iff_ne.2 h] using ih
      · simp only [ne_eq, decide_not, hk, decide_false, Bool.not_false, List.filter_cons_of_pos,
          List.lookup_cons] at ih ⊢
        rw [ih]
  by_cases h : id' = id
  · simp [put, find?, h]
  · have : (id' == id) = false := beq_eq_false_iff_ne.2 h
    simp only [put, find?, List.lookup_cons, this, h, if_false]
    exact lookup_filter r.entries h

theorem register_of_recorded {r : Registry} {v : Validator} (h : (r.lookup? v).isSome)
    (form : TypeForm Validator) : r.register form v = r := by
  simp [register, h]

/-- The first registration of a validator writes its entry and that of its counterpart, whether
the counterpart had one or not. -/
theorem find?_register (r : Registry) (form : TypeForm Validator) (v : Validator)
    (id : ValidatorId) :
    (r.register form v).find? id =
      if (r.lookup? v).isSome then r.find? id
      else if id = v.id then some ⟨form, v.isRequired⟩
      else if v.counterpart?.map Validator.id = some id then some ⟨form, true⟩
      else r.find? id := by
  rw [register]
  split
  · rfl
  · cases hcounterpart : v.counterpart? with
    | none => simp [find?_put]
    | some counterpart => simp [find?_put, eq_comm]

theorem find?_register_optional {r : Registry} {id : ValidatorId} (h : r.find? id = none)
    (form : TypeForm Validator) (requiredId : ValidatorId) (check : TypeCheck)
    (id' : ValidatorId) :
    (r.register form (.optional id requiredId check)).find? id' =
      if id' = id then some ⟨form, false⟩
      else if id' = requiredId then some ⟨form, true⟩
      else r.find? id' := by
  have hlookup : r.lookup? (.optional id requiredId check) = none := h
  rw [find?_register, hlookup]
  simp [Validator.counterpart?, Validator.id, Validator.isRequired, eq_comm]

end Registry

end FixtureBench
