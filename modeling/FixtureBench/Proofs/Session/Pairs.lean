import FixtureBench.Proofs.Session.Infer
import Mathlib.Data.List.Nodup

/-!
# Registries of a session hold pairs

In a reachable session a registry holds, of every product of a library, either both handles with
one form or none of them, and it holds nothing else. So the number of its entries is twice the
number of these products. The validators in a form are older than the validator of the form, which
makes inference come to an end for every validator. `Session.Reachable.registry_paired` collects
this for every interleaving of steps.
-/

namespace FixtureBench

namespace Session

/-- The products of libraries that a registry knows. -/
def recordedPairs (s : Session) (ref : RegistryRef) : List Product :=
  s.products.filter fun p => p.form?.isSome && ((s.registry ref).lookup? p.validator).isSome

/-- No identity is listed twice, neither in a registry nor among the products. -/
structure Counted (s : Session) : Prop where
  ids : ∀ ref, (s.registry ref).ids.Nodup
  products : (s.products.map (·.validator.id)).Nodup

variable {s : Session}

theorem counted_empty : empty.Counted := by
  constructor <;> simp [empty, registry, Workshop.empty, Workshop.registry, Registry.empty,
    Registry.ids]

theorem Counted.keep (hs : s.Counted) (lib : Library) : (s.keep lib).Counted :=
  ⟨hs.ids, hs.products⟩

theorem Counted.add (hs : s.Counted) (valid : s.Valid) {nextId : ValidatorId} {new : List Product}
    (fresh : ∀ p ∈ new, s.workshop.nextId ≤ p.validator.id)
    (distinct : (new.map (·.validator.id)).Nodup) : (s.add nextId new).Counted where
  ids := hs.ids
  products := by
    change ((new ++ s.products).map (·.validator.id)).Nodup
    rw [List.map_append, List.nodup_append']
    refine ⟨distinct, hs.products, fun id hnew hold => ?_⟩
    obtain ⟨p, hp, rfl⟩ := List.mem_map.1 hnew
    obtain ⟨q, hq, hid⟩ := List.mem_map.1 hold
    have hlt := valid.id_lt q.validator (mem_handles.2 ⟨q, hq, List.mem_cons_self⟩)
    exact absurd hid (Nat.ne_of_lt (Nat.lt_of_lt_of_le hlt (fresh p hp)))

theorem Counted.record (hs : s.Counted) (ref : RegistryRef) (form : TypeForm Validator)
    (v : Validator) : (s.record ref form v).Counted where
  ids ref' := by
    change ((s.workshop.record ref form v).registry ref').ids.Nodup
    rw [Workshop.registry_record]
    split
    · exact Registry.nodup_ids_register (hs.ids ref') form v
    · exact hs.ids ref'
  products := hs.products

theorem Counted.recordScalars (hs : s.Counted) (ref : RegistryRef) (lib : Library)
    (scalars : List Scalar) : (s.recordScalars ref lib scalars).Counted := by
  induction scalars generalizing s with
  | nil => exact hs
  | cons scalar rest ih => exact ih (hs.record ref (.scalar scalar) (lib.scalar scalar))

/-- The identities of the scalars of a new library are odd steps above the next identity. -/
theorem nodup_scalarProducts (w : Workshop) :
    ((scalarProducts (Library.new.run w).1).map (·.validator.id)).Nodup := by
  change [w.nextId + 1, w.nextId + 3, w.nextId + 5, w.nextId + 7, w.nextId + 9, w.nextId + 11,
    w.nextId + 13, w.nextId + 15, w.nextId + 17].Nodup
  simp

theorem Step.counted {s' : Session} (h : Step s s') (valid : s.Valid) (hs : s.Counted) :
    s'.Counted := by
  have addOne {p : Product} (nextId : ValidatorId) (fresh : s.workshop.nextId ≤ p.validator.id) :
      (s.add nextId [p]).Counted :=
    hs.add valid (List.forall_mem_singleton.2 fresh) (List.nodup_singleton _)
  cases h with
  | newRegistry => exact ⟨fun ref => registry_newRegistry s ref ▸ hs.ids ref, hs.products⟩
  | newLibrary =>
    rw [run_newLibrary]
    refine (hs.add valid (fun p hp => ?_) (nodup_scalarProducts _)).keep _
    obtain ⟨scalar, rfl⟩ := mem_scalarProducts.1 hp
    exact (bounds_scalar_new List.mem_cons_self).1
  | patch held known =>
    rw [run_patch]
    split
    · exact hs.keep _
    · exact (hs.recordScalars _ _ _).keep _
  | newCustom check => exact addOne (p := ⟨.custom s.workshop.nextId check, none⟩) _ (Nat.le_refl _)
  | newPair check =>
    exact addOne (p := ⟨.optional (s.workshop.nextId + 1) s.workshop.nextId check, none⟩) _
      (Nat.le_succ _)
  | @build lib form held composite wellFormed parts =>
    rw [run_build]
    have made := addOne (p := ⟨.optional (s.workshop.nextId + 1) s.workshop.nextId form.check,
      some form⟩) (s.workshop.nextId + 2) (Nat.le_succ _)
    cases lib.registry with
    | none => exact made
    | some ref => exact made.record ref form _

theorem Reachable.counted (hs : s.Reachable) : s.Counted := by
  induction hs with
  | refl => exact counted_empty
  | tail earlier step ih => exact step.counted (Reachable.valid earlier) ih

theorem mem_recordedPairs {ref : RegistryRef} {p : Product} :
    p ∈ s.recordedPairs ref ↔ p ∈ s.products ∧ p.form?.isSome ∧
      ((s.registry ref).lookup? p.validator).isSome := by
  simp [recordedPairs]

/-- A recorded pair is an optional validator and its counterpart, with identities in a row. -/
theorem Valid.eq_optional_of_recorded (hs : s.Valid) {ref : RegistryRef} {p : Product}
    (hp : p ∈ s.recordedPairs ref) :
    ∃ id form, p = ⟨.optional (id + 1) id form.check, some form⟩ := by
  obtain ⟨hp, hform, -⟩ := mem_recordedPairs.1 hp
  obtain ⟨form, hform⟩ := Option.isSome_iff_exists.1 hform
  obtain ⟨id, hproduct⟩ := hs.eq_optional hp hform
  exact ⟨id, form, hproduct⟩

theorem Valid.mem_ids (hs : s.Valid) {ref : RegistryRef} {id : ValidatorId} :
    id ∈ (s.registry ref).ids ↔
      id ∈ (s.recordedPairs ref).flatMap (·.handles.map Validator.id) := by
  rw [Registry.mem_ids, Option.isSome_iff_exists, List.mem_flatMap]
  constructor
  · rintro ⟨entry, he⟩
    obtain ⟨v, hv, rfl⟩ := hs.known ref id entry he
    obtain ⟨p, hp, hhandle, hform, -⟩ := hs.lookup hv he
    refine ⟨p, mem_recordedPairs.2 ⟨hp, Option.isSome_of_eq_some hform, ?_⟩,
      List.mem_map_of_mem hhandle⟩
    rcases hs.recorded ref p hp with ⟨form, -, hlookup⟩ | hlookup
    · exact Option.isSome_of_eq_some (hlookup p.validator List.mem_cons_self)
    · exact absurd (he.symm.trans (hlookup v hhandle)) (Option.some_ne_none entry)
  · rintro ⟨p, hp, hid⟩
    obtain ⟨v, hv, rfl⟩ := List.mem_map.1 hid
    obtain ⟨hproduct, -, hknown⟩ := mem_recordedPairs.1 hp
    rcases hs.recorded ref p hproduct with ⟨form, -, hlookup⟩ | hlookup
    · exact ⟨_, hlookup v hv⟩
    · rw [hlookup p.validator List.mem_cons_self] at hknown
      cases hknown

theorem Valid.nodup_handles (hs : s.Valid) (counted : s.Counted) (ref : RegistryRef) :
    ((s.recordedPairs ref).flatMap (·.handles.map Validator.id)).Nodup := by
  rw [List.nodup_flatMap]
  constructor
  · intro p hp
    obtain ⟨id, form, rfl⟩ := hs.eq_optional_of_recorded hp
    rw [handles_pair]
    simp [Validator.id]
  · have hproducts : s.products.Pairwise fun p q => p.validator.id ≠ q.validator.id :=
      List.pairwise_map.1 counted.products
    refine List.Pairwise.imp_of_mem ?_ (List.Pairwise.sublist List.filter_sublist hproducts)
    intro p q hp hq hne id hidp hidq
    obtain ⟨v, hv, rfl⟩ := List.mem_map.1 hidp
    obtain ⟨w, hw, hid⟩ := List.mem_map.1 hidq
    -- Products that share an identity are one product.
    obtain ⟨rfl, -⟩ :=
      hs.apart p (List.mem_of_mem_filter hp) q (List.mem_of_mem_filter hq) v hv w hw hid.symm
    exact hne rfl

theorem Valid.size_registry (hs : s.Valid) (counted : s.Counted) (ref : RegistryRef) :
    (s.registry ref).size = 2 * (s.recordedPairs ref).length := by
  have hperm : (s.registry ref).ids.Perm
      ((s.recordedPairs ref).flatMap (·.handles.map Validator.id)) :=
    (List.perm_ext_iff_of_nodup (counted.ids ref) (hs.nodup_handles counted ref)).2
      fun _ => hs.mem_ids
  rw [← Registry.length_ids, hperm.length_eq, List.length_flatMap]
  simp [Product.handles, Nat.mul_comm]

/-- What a registry of a session holds. -/
structure Paired (s : Session) (ref : RegistryRef) : Prop where
  /-- The optional validator of a product of a library and its required counterpart are both known,
  by the form of the product, or both unknown. -/
  pairs : ∀ p ∈ s.products, ∀ form, p.form? = some form →
    ∃ counterpart, p.validator.counterpart? = some counterpart ∧
      ((s.registry ref).lookup? p.validator = some ⟨form, false⟩ ∧
          (s.registry ref).lookup? counterpart = some ⟨form, true⟩ ∨
        (s.registry ref).lookup? p.validator = none ∧
          (s.registry ref).lookup? counterpart = none)
  distinct : ((s.recordedPairs ref).map (·.validator.id)).Nodup
  size : (s.registry ref).size = 2 * (s.recordedPairs ref).length
  /-- The validators in a form are older than the validator of the form. -/
  falling : ∀ id entry, (s.registry ref).find? id = some entry →
    ∀ part ∈ entry.form.parts, part.id < id
  /-- Inference comes to an end for every validator, with the descriptor that is computed. -/
  infers : ∀ v d, (s.registry ref).Infers v d ↔ (s.registry ref).infer v = d

/-- In every session, whatever its steps and their order, every registry holds pairs. -/
theorem Reachable.registry_paired (hs : s.Reachable) (ref : RegistryRef) : s.Paired ref where
  pairs p hp form hform := by
    obtain ⟨id, rfl⟩ := hs.valid.eq_optional hp hform
    exact ⟨.required id form.check, rfl, hs.valid.recorded_pair hp ref⟩
  distinct := List.Nodup.sublist (List.filter_sublist.map _) hs.counted.products
  size := hs.valid.size_registry hs.counted ref
  falling := hs.valid.falling ref
  infers _ _ := (hs.valid.falling ref).infers_iff

theorem registry_paired_wordList :
    (wordList.run empty).2.Reachable ∧ (wordList.run empty).2.Paired 0 :=
  ⟨wordList_spec.1, Reachable.registry_paired wordList_spec.1 0⟩

end Session

end FixtureBench
