import FixtureBench.Descriptor.Infer
import FixtureBench.Proofs.Registry

/-!
# Inference comes to an end

`Registry.Infers` is inference with no bound on its depth: it relates a validator to a descriptor
if following the registry from the validator ends and gives that descriptor. Whenever it ends,
`Registry.infer` computes its result, in any registry: a descent that ends meets no identity twice,
so it is no deeper than the registry is large. In a registry whose entries have parts of smaller
identity only, it ends for every validator.
-/

namespace FixtureBench

namespace Registry

/-- Following the registry from a validator ends with a descriptor. -/
inductive Infers (r : Registry) : Validator → Descriptor → Prop where
  | unknown {v : Validator} (missing : r.lookup? v = none) : Infers r v (.bare v)
  | known {v : Validator} {entry : RegistryEntry} (found : r.lookup? v = some entry)
      (describe : Validator → Descriptor)
      (parts : ∀ part ∈ entry.form.parts, Infers r part (describe part)) :
      Infers r v (.typed (entry.form.map describe) entry.required (some v))

/-- The parts of an entry have smaller identities than its validator. -/
def Falling (r : Registry) : Prop :=
  ∀ id entry, r.find? id = some entry → ∀ part ∈ entry.form.parts, part.id < id

/-- Following the registry from an identity ends within a number of levels. -/
def Ends (r : Registry) : Nat → ValidatorId → Prop
  | 0, _ => False
  | levels + 1, id =>
    ∀ entry, r.find? id = some entry → ∀ part ∈ entry.form.parts, r.Ends levels part.id

variable {r : Registry} {v : Validator} {d : Descriptor} {id : ValidatorId}

theorem Ends.succ {levels : Nat} (h : r.Ends levels id) : r.Ends (levels + 1) id := by
  induction levels generalizing id with
  | zero => exact h.elim
  | succ levels ih => exact fun entry found part hpart => ih (h entry found part hpart)

theorem Ends.mono {levels levels' : Nat} (hle : levels ≤ levels') (h : r.Ends levels id) :
    r.Ends levels' id := by
  induction hle with
  | refl => exact h
  | step _ ih => exact ih.succ

/-- A descent that needs all its levels passes as many recorded identities, all different. -/
theorem Ends.exists_path {levels : Nat} (h : r.Ends (levels + 1) id) (deep : ¬ r.Ends levels id) :
    ∃ path : List ValidatorId, path.length = levels ∧ path.Nodup ∧
      ∀ k ∈ path, k ∈ r.ids ∧ r.Ends (levels + 1) k := by
  induction levels generalizing id with
  | zero => exact ⟨[], rfl, List.nodup_nil, by simp⟩
  | succ levels ih =>
    have hpart : ∃ entry, r.find? id = some entry ∧
        ∃ part ∈ entry.form.parts, ¬ r.Ends levels part.id := by
      simpa [Ends] using deep
    obtain ⟨entry, found, part, hmem, hdeep⟩ := hpart
    obtain ⟨path, hlength, hnodup, hpath⟩ := ih (h entry found part hmem) hdeep
    -- The rest of the path ends a level earlier than the identity does, so it avoids it.
    have hnew : id ∉ path := fun hold => deep (hpath id hold).2
    refine ⟨id :: path, by simp [hlength], List.nodup_cons.2 ⟨hnew, hnodup⟩, ?_⟩
    simp only [List.forall_mem_cons]
    exact ⟨⟨mem_ids.2 (by simp [found]), h⟩, fun k hk => ⟨(hpath k hk).1, (hpath k hk).2.succ⟩⟩

/-- A descent that ends is at most one level deeper than there are entries. -/
theorem Ends.within_size {levels : Nat} (h : r.Ends levels id) : r.Ends (r.size + 1) id := by
  induction levels with
  | zero => exact h.elim
  | succ levels ih =>
    by_cases earlier : r.Ends levels id
    · exact ih earlier
    · obtain ⟨path, hlength, hnodup, hpath⟩ := h.exists_path earlier
      have hle := hnodup.length_le_of_subset fun k hk => (hpath k hk).1
      rw [hlength, length_ids] at hle
      exact h.mono (Nat.succ_le_succ hle)

theorem Infers.ends (h : r.Infers v d) : r.Ends (r.size + 1) v.id := by
  induction h with
  | @unknown v missing =>
    intro entry found
    simp [lookup?, found] at missing
  | @known v entry found describe parts ih =>
    have hends : r.Ends (r.size + 2) v.id := by
      intro entry' found' part hpart
      obtain rfl : entry = entry' := Option.some.inj (found.symm.trans found')
      exact ih part hpart
    exact hends.within_size

/-- As many levels as the descent takes are fuel enough. -/
theorem Infers.inferWithin_eq (h : r.Infers v d) {fuel : Nat} (ends : r.Ends fuel v.id) :
    r.inferWithin fuel v = d := by
  induction h generalizing fuel with
  | unknown missing =>
    cases fuel with
    | zero => exact ends.elim
    | succ fuel => simp only [inferWithin, missing]
  | known found describe parts ih =>
    cases fuel with
    | zero => exact ends.elim
    | succ fuel =>
      simp only [inferWithin, found]
      rw [TypeForm.map_congr fun part hpart => ih part hpart (ends _ found part hpart)]

/-- In any registry, inference computes the descriptor that the descent ends with. -/
theorem Infers.infer_eq (h : r.Infers v d) : r.infer v = d :=
  h.inferWithin_eq (h.ends.mono (Nat.succ_le_succ (Nat.le_add_right _ _)))

theorem infer_unknown (h : r.lookup? v = none) : r.infer v = .bare v :=
  (Infers.unknown h).infer_eq

theorem source?_infer (v : Validator) : (r.infer v).source? = some v := by
  rw [infer, inferWithin]
  split <;> rfl

/-- Inference ends for every validator, with the descriptor that is computed. -/
theorem Falling.infers_infer (hr : r.Falling) (v : Validator) : r.Infers v (r.infer v) := by
  induction hid : v.id using Nat.strongRecOn generalizing v with
  | ind id ih =>
    subst hid
    cases he : r.lookup? v with
    | none =>
      rw [infer_unknown he]
      exact .unknown he
    | some entry =>
      have h := Infers.known he r.infer fun part hpart =>
        ih part.id (hr v.id entry he part hpart) part rfl
      rw [h.infer_eq]
      exact h

theorem Falling.infer_known (hr : r.Falling) {entry : RegistryEntry}
    (he : r.lookup? v = some entry) :
    r.infer v = .typed (entry.form.map r.infer) entry.required (some v) :=
  (Infers.known he r.infer fun part _ => hr.infers_infer part).infer_eq

theorem Falling.infers_iff (hr : r.Falling) : r.Infers v d ↔ r.infer v = d := by
  constructor
  · exact Infers.infer_eq
  · rintro rfl
    exact hr.infers_infer v

end Registry

end FixtureBench
