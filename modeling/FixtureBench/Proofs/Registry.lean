import FixtureBench.Registry
import Mathlib.Data.List.Nodup

/-!
# Registering in any order

Validators can be registered in any order and any number of times, either one of a pair first. No
identity is recorded twice or ever forgotten, and an entry stays as it was first recorded with one
exception: the first registration of an optional validator writes over the entry that its required
counterpart was given before. `Registry.lookup?_registerAll` says so for every sequence of
registrations, and `Registry.first_entry_not_kept` shows that the exception is there.
-/

namespace FixtureBench

/-- One registration: a validator, and the form it is said to be built from. -/
structure Registration where
  form : TypeForm Validator
  validator : Validator

namespace Registry

def ids (r : Registry) : List ValidatorId := r.entries.map (·.1)

theorem length_ids (r : Registry) : r.ids.length = r.size := by
  simp [ids, size]

theorem mem_ids {r : Registry} {id : ValidatorId} : id ∈ r.ids ↔ (r.find? id).isSome := by
  have hmissing : r.find? id = none ↔ id ∉ r.ids := by
    rw [find?, List.lookup_eq_none_iff]
    simp only [ids, List.mem_map, bne_iff_ne, ne_eq, not_exists, not_and]
    exact forall₂_congr fun e _ => not_congr eq_comm
  rw [← Option.ne_none_iff_isSome, ne_eq, hmissing, not_not]

theorem nodup_ids_put {r : Registry} (h : r.ids.Nodup) (id : ValidatorId) (entry : RegistryEntry) :
    (r.put id entry).ids.Nodup := by
  have hrest : ((r.entries.filter (·.1 ≠ id)).map (·.1)).Nodup :=
    List.Nodup.sublist (List.filter_sublist.map _) h
  refine List.nodup_cons.2 ⟨?_, hrest⟩
  simp

theorem nodup_ids_register {r : Registry} (h : r.ids.Nodup) (form : TypeForm Validator)
    (v : Validator) : (r.register form v).ids.Nodup := by
  rw [register]
  split
  · exact h
  · cases v.counterpart? with
    | none => exact nodup_ids_put h _ _
    | some counterpart => exact nodup_ids_put (nodup_ids_put h _ _) _ _

def registerAll (r : Registry) (calls : List Registration) : Registry :=
  calls.foldl (fun r call => r.register call.form call.validator) r

/-- The registration is the first one of an optional validator whose counterpart has the
identity. -/
def Completes (r : Registry) (call : Registration) (id : ValidatorId) : Prop :=
  r.lookup? call.validator = none ∧ call.validator.counterpart?.map Validator.id = some id

/-- What one registration does to an entry. -/
theorem lookup?_register {r : Registry} {w : Validator} {entry : RegistryEntry}
    (h : r.lookup? w = some entry) (call : Registration) :
    (r.register call.form call.validator).lookup? w = some entry ∨
      r.Completes call w.id ∧
        (r.register call.form call.validator).lookup? w = some ⟨call.form, true⟩ := by
  rw [lookup?, find?_register]
  cases hcall : r.lookup? call.validator with
  | some known => exact .inl h
  | none =>
    have hne : w.id ≠ call.validator.id := by
      intro hid
      rw [lookup?, ← hid] at hcall
      exact absurd (h.symm.trans hcall) (Option.some_ne_none entry)
    by_cases hpair : call.validator.counterpart?.map Validator.id = some w.id
    · exact .inr ⟨⟨hcall, hpair⟩, by simp [hne, hpair]⟩
    · rw [lookup?] at h
      exact .inl (by simpa [hne, hpair] using h)

/-- Registrations forget no identity. The entry that is found in the end is the one that was there
at first, or the one that the first registration of an optional validator gave its counterpart. -/
theorem lookup?_registerAll {r : Registry} {w : Validator} {entry : RegistryEntry}
    (h : r.lookup? w = some entry) (calls : List Registration) :
    ∃ found, (r.registerAll calls).lookup? w = some found ∧
      (found = entry ∨ ∃ before call after, calls = before ++ call :: after ∧
        (r.registerAll before).Completes call w.id ∧ found = ⟨call.form, true⟩) := by
  induction calls generalizing r entry with
  | nil => exact ⟨entry, h, .inl rfl⟩
  | cons first rest ih =>
    -- A completing registration of the rest is one of the whole, with `first` before it.
    have shift {found : RegistryEntry} :
        (∃ before call after, rest = before ++ call :: after ∧
          ((r.register first.form first.validator).registerAll before).Completes call w.id ∧
          found = ⟨call.form, true⟩) →
        ∃ before call after, first :: rest = before ++ call :: after ∧
          (r.registerAll before).Completes call w.id ∧ found = ⟨call.form, true⟩ := by
      rintro ⟨before, call, after, rfl, completes, hfound⟩
      exact ⟨first :: before, call, after, rfl, completes, hfound⟩
    rcases lookup?_register h first with hkept | ⟨completes, hwritten⟩
    · obtain ⟨found, hfound, hlast⟩ := ih hkept
      exact ⟨found, hfound, hlast.imp_right shift⟩
    · obtain ⟨found, hfound, rfl | hlast⟩ := ih hwritten
      · exact ⟨_, hfound, .inr ⟨[], first, rest, rfl, completes, rfl⟩⟩
      · exact ⟨found, hfound, .inr (shift hlast)⟩

def requiredFirst : List Registration := [⟨.scalar .array, .required 0 fun _ _ => .passed⟩]

/-- A validator without a counterpart, and twice the optional validator that was left out. -/
def optionalLater : List Registration :=
  [⟨.scalar .any, .custom 2 fun _ _ _ => .passed⟩, ⟨.scalar .any, .optional 1 0 fun _ _ => .passed⟩,
    ⟨.scalar .string, .optional 1 0 fun _ _ => .passed⟩]

theorem lookup?_registerAll_optionalLater :
    (empty.registerAll requiredFirst).lookup? (.required 0 fun _ _ => .passed) =
        some ⟨.scalar .array, true⟩ ∧
      ∃ found, ((empty.registerAll requiredFirst).registerAll optionalLater).lookup?
          (.required 0 fun _ _ => .passed) = some found ∧
        (found = ⟨.scalar .array, true⟩ ∨
          ∃ before call after, optionalLater = before ++ call :: after ∧
            ((empty.registerAll requiredFirst).registerAll before).Completes call 0 ∧
            found = ⟨call.form, true⟩) :=
  ⟨rfl, lookup?_registerAll rfl optionalLater⟩

/-- The first entry of a required validator is not kept when its optional one is registered. -/
theorem first_entry_not_kept :
    ¬ ∀ (calls more : List Registration) (w : Validator) (entry : RegistryEntry),
      (empty.registerAll calls).lookup? w = some entry →
        (empty.registerAll (calls ++ more)).lookup? w = some entry := by
  intro kept
  have harray := kept requiredFirst optionalLater (.required 0 fun _ _ => .passed) _ rfl
  have hany : some (⟨.scalar .any, true⟩ : RegistryEntry) = some ⟨.scalar .array, true⟩ := harray
  cases hany

end Registry

end FixtureBench
