import FixtureBench.Proofs.Session.Basic
import Mathlib.Data.List.Basic

/-!
# What every session keeps

In a reachable session an identity belongs to one validator, and a validator was made from
validators with smaller identities. A registry has recorded a product of a library with both of
its handles and with the form it was made from, or not at all, and it never changes an entry.
`Session.Valid` is the invariant and `Session.Extends` says what a step leaves as it was; both are
proved for every step in `Session.Step.valid_extends`.
-/

namespace FixtureBench

namespace Workshop

def record (w : Workshop) (ref : RegistryRef) (form : TypeForm Validator) (v : Validator) :
    Workshop :=
  { w with registries := w.registries.modify ref (·.register form v) }

theorem registry_record (w : Workshop) (ref : RegistryRef) (form : TypeForm Validator)
    (v : Validator) (ref' : RegistryRef) :
    (w.record ref form v).registry ref' =
      if ref' = ref ∧ ref < w.registries.length then (w.registry ref').register form v
      else w.registry ref' := by
  simp only [registry, record, List.getD_eq_getElem?_getD, List.getElem?_modify]
  by_cases href : ref' = ref
  · subst href
    by_cases hlt : ref' < w.registries.length
    · simp [hlt]
    · simp [hlt]
  · simp [href, Ne.symm href]

@[simp] theorem length_registries_record (w : Workshop) (ref : RegistryRef)
    (form : TypeForm Validator) (v : Validator) :
    (w.record ref form v).registries.length = w.registries.length := by
  simp [record]

end Workshop

namespace Session

/-- The session with new products; `nextId` is the identity that is handed out next. -/
def add (s : Session) (nextId : ValidatorId) (new : List Product) : Session :=
  { s with workshop := { s.workshop with nextId }, products := new ++ s.products }

def record (s : Session) (ref : RegistryRef) (form : TypeForm Validator) (v : Validator) :
    Session :=
  { s with workshop := s.workshop.record ref form v }

def keep (s : Session) (lib : Library) : Session := { s with libraries := lib :: s.libraries }

structure Valid (s : Session) : Prop where
  id_lt : ∀ v ∈ s.handles, v.id < s.workshop.nextId
  /-- An identity belongs to one handle of one product. -/
  apart : ∀ p ∈ s.products, ∀ q ∈ s.products, ∀ v ∈ p.handles, ∀ w ∈ q.handles,
    v.id = w.id → p = q ∧ v = w
  /-- A library makes optional validators, each from validators that were made before. -/
  built : ∀ p ∈ s.products, ∀ form, p.form? = some form → form.WellFormed ∧
    ∃ id, p.validator = .optional (id + 1) id form.check ∧
      ∀ part ∈ form.parts, part ∈ s.handles ∧ part.id < id
  scalars : ∀ lib ∈ s.libraries, ∀ scalar,
    ⟨lib.scalar scalar, some (.scalar scalar)⟩ ∈ s.products
  patched : ∀ lib ∈ s.libraries, ∀ ref, lib.registry = some ref →
    ref < s.workshop.registries.length ∧
      ∀ scalar, ((s.registry ref).lookup? (lib.scalar scalar)).isSome
  /-- A registry knows both handles of a product, by the form of the product, or none of them. -/
  recorded : ∀ ref, ∀ p ∈ s.products,
    (∃ form, p.form? = some form ∧
      ∀ v ∈ p.handles, (s.registry ref).lookup? v = some ⟨form, v.isRequired⟩) ∨
    ∀ v ∈ p.handles, (s.registry ref).lookup? v = none
  known : ∀ ref id entry, (s.registry ref).find? id = some entry → ∃ v ∈ s.handles, v.id = id

/-- Nothing that was there before has changed. -/
structure Extends (s s' : Session) : Prop where
  products : ∀ p ∈ s.products, p ∈ s'.products
  libraries : ∀ lib ∈ s.libraries, lib ∈ s'.libraries
  entries : ∀ ref id entry, (s.registry ref).find? id = some entry →
    (s'.registry ref).find? id = some entry

theorem Extends.refl (s : Session) : s.Extends s :=
  ⟨fun _ h => h, fun _ h => h, fun _ _ _ h => h⟩

theorem Extends.trans {s t u : Session} (h : s.Extends t) (h' : t.Extends u) : s.Extends u where
  products p hp := h'.products p (h.products p hp)
  libraries lib hlib := h'.libraries lib (h.libraries lib hlib)
  entries ref id entry he := h'.entries ref id entry (h.entries ref id entry he)

theorem Extends.handles {s s' : Session} (h : s.Extends s') {v : Validator} (hv : v ∈ s.handles) :
    v ∈ s'.handles := by
  obtain ⟨p, hp, hv⟩ := mem_handles.1 hv
  exact mem_handles.2 ⟨p, h.products p hp, hv⟩

theorem valid_empty : empty.Valid := by
  constructor <;> simp [empty, handles, registry, Workshop.empty, Workshop.registry,
    Registry.empty, Registry.find?]

/-- Products with identities that were not handed out before keep a session valid. -/
theorem Valid.add {s : Session} (hs : s.Valid) {nextId : ValidatorId} {new : List Product}
    (grows : s.workshop.nextId ≤ nextId)
    (fresh : ∀ p ∈ new, ∀ v ∈ p.handles, s.workshop.nextId ≤ v.id ∧ v.id < nextId)
    (apart : ∀ p ∈ new, ∀ q ∈ new, ∀ v ∈ p.handles, ∀ w ∈ q.handles,
      v.id = w.id → p = q ∧ v = w)
    (built : ∀ p ∈ new, ∀ form, p.form? = some form → form.WellFormed ∧
      ∃ id, p.validator = .optional (id + 1) id form.check ∧
        ∀ part ∈ form.parts, part ∈ s.handles ∧ part.id < id) :
    (s.add nextId new).Valid := by
  have old : ∀ p ∈ s.products, ∀ v ∈ p.handles, v.id < s.workshop.nextId :=
    fun p hp v hv => hs.id_lt v (mem_handles.2 ⟨p, hp, hv⟩)
  have mem_products {p : Product} : p ∈ (s.add nextId new).products ↔ p ∈ new ∨ p ∈ s.products :=
    List.mem_append
  have handles_add {v : Validator} (hv : v ∈ s.handles) : v ∈ (s.add nextId new).handles := by
    obtain ⟨p, hp, hv⟩ := mem_handles.1 hv
    exact mem_handles.2 ⟨p, mem_products.2 (.inr hp), hv⟩
  constructor
  case id_lt =>
    intro v hv
    obtain ⟨p, hp, hv⟩ := mem_handles.1 hv
    rcases mem_products.1 hp with hp | hp
    · exact (fresh p hp v hv).2
    · exact Nat.lt_of_lt_of_le (old p hp v hv) grows
  case apart =>
    intro p hp q hq v hv w hw hid
    rcases mem_products.1 hp with hp | hp <;> rcases mem_products.1 hq with hq | hq
    · exact apart p hp q hq v hv w hw hid
    · have hnew := (fresh p hp v hv).1
      have hold := old q hq w hw
      exact absurd hid (Nat.ne_of_gt (Nat.lt_of_lt_of_le hold hnew))
    · have hnew := (fresh q hq w hw).1
      have hold := old p hp v hv
      exact absurd hid (Nat.ne_of_lt (Nat.lt_of_lt_of_le hold hnew))
    · exact hs.apart p hp q hq v hv w hw hid
  case built =>
    intro p hp form hform
    have parts {id : ValidatorId} (h : ∀ part ∈ form.parts, part ∈ s.handles ∧ part.id < id) :
        ∀ part ∈ form.parts, part ∈ (s.add nextId new).handles ∧ part.id < id :=
      fun part hpart => ⟨handles_add (h part hpart).1, (h part hpart).2⟩
    rcases mem_products.1 hp with hp | hp
    · obtain ⟨hwf, id, hv, hparts⟩ := built p hp form hform
      exact ⟨hwf, id, hv, parts hparts⟩
    · obtain ⟨hwf, id, hv, hparts⟩ := hs.built p hp form hform
      exact ⟨hwf, id, hv, parts hparts⟩
  case scalars => exact fun lib hlib scalar => mem_products.2 (.inr (hs.scalars lib hlib scalar))
  case patched => exact hs.patched
  case recorded =>
    intro ref p hp
    rcases mem_products.1 hp with hp | hp
    · -- A new identity is not known yet, since known identities have been handed out before.
      refine .inr fun v hv => ?_
      cases hlookup : ((s.add nextId new).registry ref).lookup? v with
      | none => rfl
      | some entry =>
        obtain ⟨w, hw, hid⟩ := hs.known ref v.id entry hlookup
        have hnew := (fresh p hp v hv).1
        have hold := hs.id_lt w hw
        exact absurd hid (Nat.ne_of_lt (Nat.lt_of_lt_of_le hold hnew))
    · exact hs.recorded ref p hp
  case known =>
    intro ref id entry he
    obtain ⟨v, hv, hid⟩ := hs.known ref id entry he
    exact ⟨v, handles_add hv, hid⟩

theorem extends_add (s : Session) (nextId : ValidatorId) (new : List Product) :
    s.Extends (s.add nextId new) :=
  ⟨fun _ hp => List.mem_append_right _ hp, fun _ h => h, fun _ _ _ h => h⟩

theorem Valid.eq_optional {s : Session} (hs : s.Valid) {p : Product} (hp : p ∈ s.products)
    {form : TypeForm Validator} (hform : p.form? = some form) :
    ∃ id, p = ⟨.optional (id + 1) id form.check, some form⟩ := by
  obtain ⟨-, id, hv, -⟩ := hs.built p hp form hform
  obtain ⟨v, form?⟩ := p
  exact ⟨id, by simp_all⟩

/-- The two identities of a product of a library are both recorded or both unknown. -/
theorem Valid.recorded_pair {s : Session} (hs : s.Valid) {id : ValidatorId}
    {form : TypeForm Validator} (hp : ⟨.optional (id + 1) id form.check, some form⟩ ∈ s.products)
    (ref : RegistryRef) :
    ((s.registry ref).find? (id + 1) = some ⟨form, false⟩ ∧
        (s.registry ref).find? id = some ⟨form, true⟩) ∨
      ((s.registry ref).find? (id + 1) = none ∧ (s.registry ref).find? id = none) := by
  have hoptional : Validator.optional (id + 1) id form.check ∈
      Product.handles ⟨.optional (id + 1) id form.check, some form⟩ := List.mem_cons_self
  have hrequired : Validator.required id form.check ∈
      Product.handles ⟨.optional (id + 1) id form.check, some form⟩ :=
    List.mem_cons_of_mem _ List.mem_cons_self
  rcases hs.recorded ref _ hp with ⟨form', hform, hlookup⟩ | hlookup
  · cases hform
    exact .inl ⟨hlookup _ hoptional, hlookup _ hrequired⟩
  · exact .inr ⟨hlookup _ hoptional, hlookup _ hrequired⟩

/-- Recording a product gives its two identities their entries and touches no other entry. If the
product was recorded before, these are the entries that it had. -/
theorem Valid.find?_record {s : Session} (hs : s.Valid) {id : ValidatorId}
    {form : TypeForm Validator} (hp : ⟨.optional (id + 1) id form.check, some form⟩ ∈ s.products)
    (ref ref' : RegistryRef) (id' : ValidatorId) :
    ((s.record ref form (.optional (id + 1) id form.check)).registry ref').find? id' =
      if ref' = ref ∧ ref < s.workshop.registries.length then
        if id' = id + 1 then some ⟨form, false⟩
        else if id' = id then some ⟨form, true⟩
        else (s.registry ref').find? id'
      else (s.registry ref').find? id' := by
  change ((s.workshop.record _ _ _).registry ref').find? id' = _
  rw [Workshop.registry_record]
  by_cases hit : ref' = ref ∧ ref < s.workshop.registries.length
  · rw [if_pos hit, if_pos hit]
    obtain ⟨rfl, -⟩ := hit
    rcases hs.recorded_pair hp ref' with ⟨hoptional, hrequired⟩ | ⟨hoptional, -⟩
    · have hsome : ((s.workshop.registry ref').lookup?
          (.optional (id + 1) id form.check)).isSome := Option.isSome_iff_exists.2 ⟨_, hoptional⟩
      have hold : (s.workshop.registry ref').register form (.optional (id + 1) id form.check) =
          s.workshop.registry ref' := Registry.register_of_recorded hsome form
      rw [hold]
      by_cases h : id' = id + 1
      · rw [if_pos h, h]
        exact hoptional
      · by_cases h' : id' = id
        · rw [if_neg h, if_pos h', h']
          exact hrequired
        · rw [if_neg h, if_neg h']
          rfl
    · exact Registry.find?_register_optional hoptional form id form.check id'
  · rw [if_neg hit, if_neg hit]
    rfl

theorem Valid.extends_record {s : Session} (hs : s.Valid) {id : ValidatorId}
    {form : TypeForm Validator} (hp : ⟨.optional (id + 1) id form.check, some form⟩ ∈ s.products)
    (ref : RegistryRef) :
    s.Extends (s.record ref form (.optional (id + 1) id form.check)) := by
  refine ⟨fun _ h => h, fun _ h => h, ?_⟩
  intro ref' id' entry he
  rw [hs.find?_record hp]
  by_cases hit : ref' = ref ∧ ref < s.workshop.registries.length
  · rw [if_pos hit]
    rcases hs.recorded_pair hp ref' with ⟨hoptional, hrequired⟩ | ⟨hoptional, hrequired⟩
    · by_cases h : id' = id + 1
      · rw [if_pos h, ← hoptional, ← h, he]
      · by_cases h' : id' = id
        · rw [if_neg h, if_pos h', ← hrequired, ← h', he]
        · rw [if_neg h, if_neg h', he]
    · by_cases h : id' = id + 1
      · rw [h, hoptional] at he
        cases he
      · by_cases h' : id' = id
        · rw [h', hrequired] at he
          cases he
        · rw [if_neg h, if_neg h', he]
  · rw [if_neg hit, he]

theorem Valid.record {s : Session} (hs : s.Valid) {id : ValidatorId}
    {form : TypeForm Validator} (hp : ⟨.optional (id + 1) id form.check, some form⟩ ∈ s.products)
    (ref : RegistryRef) : (s.record ref form (.optional (id + 1) id form.check)).Valid := by
  have grows := (hs.extends_record hp ref).entries
  constructor
  case id_lt => exact hs.id_lt
  case apart => exact hs.apart
  case built => exact hs.built
  case scalars => exact hs.scalars
  case patched =>
    intro lib hlib ref' href
    obtain ⟨hlt, hscalars⟩ := hs.patched lib hlib ref' href
    refine ⟨by simpa [Session.record] using hlt, fun scalar => ?_⟩
    obtain ⟨entry, he⟩ := Option.isSome_iff_exists.1 (hscalars scalar)
    exact Option.isSome_of_eq_some (grows ref' _ entry he)
  case recorded =>
    intro ref' q hq
    by_cases hqp : q = ⟨.optional (id + 1) id form.check, some form⟩
    · subst hqp
      by_cases hit : ref' = ref ∧ ref < s.workshop.registries.length
      · refine .inl ⟨form, rfl, fun v hv => ?_⟩
        rw [Registry.lookup?, hs.find?_record hp, if_pos hit]
        rcases List.mem_pair.1 hv with rfl | rfl
        · exact if_pos rfl
        · exact (if_neg (Nat.ne_of_lt (Nat.lt_succ_self id))).trans (if_pos rfl)
      · simpa [Registry.lookup?, hs.find?_record hp, hit] using hs.recorded ref' _ hq
    · -- The identities of another product are neither of the two that are recorded.
      have hother : ∀ v ∈ q.handles, ((s.record ref form
          (.optional (id + 1) id form.check)).registry ref').lookup? v =
            (s.registry ref').lookup? v := by
        intro v hv
        have hne (w : Validator) (hw : w ∈ Product.handles
            ⟨.optional (id + 1) id form.check, some form⟩) : v.id ≠ w.id :=
          fun hid => hqp (hs.apart q hq _ hp v hv w hw hid).1
        have h : v.id ≠ id + 1 := hne _ List.mem_cons_self
        have h' : v.id ≠ id := hne (.required id form.check)
          (List.mem_cons_of_mem _ List.mem_cons_self)
        rw [Registry.lookup?, Registry.lookup?, hs.find?_record hp, if_neg h, if_neg h', ite_self]
      rcases hs.recorded ref' q hq with ⟨form', hform, hlookup⟩ | hlookup
      · exact .inl ⟨form', hform, fun v hv => (hother v hv).trans (hlookup v hv)⟩
      · exact .inr fun v hv => (hother v hv).trans (hlookup v hv)
  case known =>
    intro ref' id' entry he
    rw [hs.find?_record hp] at he
    have hhandles {v : Validator} (hv : v ∈ Product.handles
        ⟨.optional (id + 1) id form.check, some form⟩) : v ∈ s.handles :=
      mem_handles.2 ⟨_, hp, hv⟩
    by_cases h : id' = id + 1
    · exact ⟨_, hhandles List.mem_cons_self, h.symm⟩
    · by_cases h' : id' = id
      · exact ⟨.required id form.check, hhandles (List.mem_cons_of_mem _ List.mem_cons_self),
          h'.symm⟩
      · rw [if_neg h, if_neg h', ite_self] at he
        exact hs.known ref' id' entry he

end Session

end FixtureBench
