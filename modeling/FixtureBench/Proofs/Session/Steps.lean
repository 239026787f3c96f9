import FixtureBench.Proofs.Session.Valid

/-!
# Steps keep what sessions keep

Each step is a combination of three effects: products are added, a product is recorded in a
registry, a library is kept. Hence every step leads from a valid session to a valid one and changes
nothing that was there before, and so does every sequence of steps.
-/

namespace FixtureBench

theorem Scalar.mem_all (scalar : Scalar) : scalar ∈ all := by
  cases scalar <;> decide

namespace Session

theorem wellFormed_scalar (scalar : Scalar) :
    (TypeForm.scalar scalar : TypeForm Validator).WellFormed :=
  ⟨List.nodup_nil, fun _ h => nomatch h⟩

theorem mem_scalarProducts {lib : Library} {p : Product} :
    p ∈ scalarProducts lib ↔ ∃ scalar, p = ⟨lib.scalar scalar, some (.scalar scalar)⟩ := by
  constructor
  · intro hp
    obtain ⟨scalar, -, rfl⟩ := List.mem_map.1 hp
    exact ⟨scalar, rfl⟩
  · rintro ⟨scalar, rfl⟩
    exact List.mem_map_of_mem scalar.mem_all

/-- A library takes two identities for each of its scalars, in the order of the scalars. -/
theorem scalar_new (w : Workshop) (scalar : Scalar) :
    (Library.new.run w).1.scalar scalar =
      .optional (w.nextId + 2 * Scalar.all.idxOf scalar + 1)
        (w.nextId + 2 * Scalar.all.idxOf scalar) (TypeForm.scalar scalar).check := by
  cases scalar <;> rfl

theorem run_newLibrary (s : Session) :
    (newLibrary.run s).2 =
      (s.add (s.workshop.nextId + 18) (scalarProducts (Library.new.run s.workshop).1)).keep
        (Library.new.run s.workshop).1 := rfl

theorem run_build (lib : Library) (form : TypeForm Validator) (s : Session) :
    (build lib form).run s =
      let v := .optional (s.workshop.nextId + 1) s.workshop.nextId form.check
      let made := s.add (s.workshop.nextId + 2) [⟨v, some form⟩]
      (v, match lib.registry with
        | none => made
        | some ref => made.record ref form v) := by
  obtain ⟨array, bool, func, number, object, string, any, element, node, registry⟩ := lib
  cases registry <;> rfl

def recordScalars (s : Session) (ref : RegistryRef) (lib : Library) (scalars : List Scalar) :
    Session :=
  scalars.foldl (fun s scalar => s.record ref (.scalar scalar) (lib.scalar scalar)) s

theorem run_patch (lib : Library) (ref : RegistryRef) (s : Session) :
    ((patch lib ref).run s).2 =
      if lib.registry = some ref then s.keep lib
      else (s.recordScalars ref lib Scalar.all).keep { lib with registry := some ref } := by
  change { s with
    workshop := ((lib.patch ref).run s.workshop).2
    libraries := ((lib.patch ref).run s.workshop).1 :: s.libraries } = _
  by_cases h : lib.registry = some ref
  · rw [if_pos h, Library.patch, if_pos h]
    rfl
  · rw [if_neg h, Library.patch, if_neg h]
    rfl

theorem handles_pair (id requiredId : ValidatorId) (check : TypeCheck)
    (form? : Option (TypeForm Validator)) :
    Product.handles ⟨.optional id requiredId check, form?⟩ =
      [.optional id requiredId check, .required requiredId check] := rfl

theorem handles_custom (id : ValidatorId) (check : CustomCheck)
    (form? : Option (TypeForm Validator)) :
    Product.handles ⟨.custom id check, form?⟩ = [.custom id check, .custom id check] := rfl

theorem apart_pair {id : ValidatorId} {check : TypeCheck} {form? : Option (TypeForm Validator)}
    {v w : Validator} (hv : v ∈ Product.handles ⟨.optional (id + 1) id check, form?⟩)
    (hw : w ∈ Product.handles ⟨.optional (id + 1) id check, form?⟩) (hid : v.id = w.id) :
    v = w := by
  rw [handles_pair, List.mem_pair] at hv hw
  rcases hv with rfl | rfl <;> rcases hw with rfl | rfl
  · rfl
  · exact absurd hid (Nat.ne_of_gt (Nat.lt_succ_self id))
  · exact absurd hid (Nat.ne_of_lt (Nat.lt_succ_self id))
  · rfl

/-- The place of a scalar of a new library can be told from the identities of its handles. -/
theorem place_scalar_new {w : Workshop} {scalar : Scalar} {v : Validator}
    (hv : v ∈ Product.handles ⟨(Library.new.run w).1.scalar scalar, some (.scalar scalar)⟩) :
    (v.id - w.nextId) / 2 = Scalar.all.idxOf scalar := by
  have places (n i : Nat) : (n + 2 * i + 1 - n) / 2 = i ∧ (n + 2 * i - n) / 2 = i := by omega
  rw [scalar_new, handles_pair, List.mem_pair] at hv
  rcases hv with rfl | rfl
  · exact (places _ _).1
  · exact (places _ _).2

theorem bounds_scalar_new {w : Workshop} {scalar : Scalar} {v : Validator}
    (hv : v ∈ Product.handles ⟨(Library.new.run w).1.scalar scalar, some (.scalar scalar)⟩) :
    w.nextId ≤ v.id ∧ v.id < w.nextId + 18 := by
  have hplace : Scalar.all.idxOf scalar < 9 := List.idxOf_lt_length_of_mem scalar.mem_all
  have bounds (n i : Nat) (hi : i < 9) :
      (n ≤ n + 2 * i + 1 ∧ n + 2 * i + 1 < n + 18) ∧ n ≤ n + 2 * i ∧ n + 2 * i < n + 18 := by omega
  rw [scalar_new, handles_pair, List.mem_pair] at hv
  rcases hv with rfl | rfl
  · exact (bounds _ _ hplace).1
  · exact (bounds _ _ hplace).2

theorem extends_keep (s : Session) (lib : Library) : s.Extends (s.keep lib) :=
  ⟨fun _ h => h, fun _ h => List.mem_cons_of_mem _ h, fun _ _ _ h => h⟩

theorem Valid.keep {s : Session} (hs : s.Valid) {lib : Library}
    (scalars : ∀ scalar, ⟨lib.scalar scalar, some (.scalar scalar)⟩ ∈ s.products)
    (patched : ∀ ref, lib.registry = some ref → ref < s.workshop.registries.length ∧
      ∀ scalar, ((s.registry ref).lookup? (lib.scalar scalar)).isSome) : (s.keep lib).Valid where
  id_lt := hs.id_lt
  apart := hs.apart
  built := hs.built
  scalars lib' hlib := by
    rcases List.mem_cons.1 hlib with rfl | hlib
    · exact scalars
    · exact hs.scalars lib' hlib
  patched lib' hlib := by
    rcases List.mem_cons.1 hlib with rfl | hlib
    · exact patched
    · exact hs.patched lib' hlib
  recorded := hs.recorded
  known := hs.known

theorem registry_newRegistry (s : Session) (ref : RegistryRef) :
    (newRegistry.run s).2.registry ref = s.registry ref := by
  change (s.workshop.registries ++ [Registry.empty]).getD ref .empty =
    s.workshop.registries.getD ref .empty
  rw [List.getD_eq_getElem?_getD, List.getD_eq_getElem?_getD]
  rcases Nat.lt_trichotomy ref s.workshop.registries.length with hlt | rfl | hlt
  · rw [List.getElem?_append_left hlt]
  · rw [List.getElem?_append_right (Nat.le_refl _), Nat.sub_self,
      List.getElem?_eq_none (Nat.le_refl _)]
    rfl
  · have hlength : (s.workshop.registries ++ [Registry.empty]).length ≤ ref := by
      rw [List.length_append]
      exact hlt
    rw [List.getElem?_eq_none hlength, List.getElem?_eq_none (Nat.le_of_lt hlt)]

theorem valid_newRegistry {s : Session} (hs : s.Valid) :
    (newRegistry.run s).2.Valid ∧ s.Extends (newRegistry.run s).2 := by
  have hlength : s.workshop.registries.length ≤
      (newRegistry.run s).2.workshop.registries.length := by
    change _ ≤ (s.workshop.registries ++ [Registry.empty]).length
    simp
  refine ⟨⟨hs.id_lt, hs.apart, hs.built, hs.scalars, ?_, ?_, ?_⟩,
    fun _ h => h, fun _ h => h, fun ref id entry he => by rwa [registry_newRegistry]⟩
  · intro lib hlib ref href
    rw [registry_newRegistry]
    obtain ⟨hlt, hscalars⟩ := hs.patched lib hlib ref href
    exact ⟨Nat.lt_of_lt_of_le hlt hlength, hscalars⟩
  · intro ref p hp
    rw [registry_newRegistry]
    exact hs.recorded ref p hp
  · intro ref id entry he
    rw [registry_newRegistry] at he
    exact hs.known ref id entry he

theorem valid_newLibrary {s : Session} (hs : s.Valid) :
    (newLibrary.run s).2.Valid ∧ s.Extends (newLibrary.run s).2 := by
  rw [run_newLibrary]
  have hadd : (s.add (s.workshop.nextId + 18)
      (scalarProducts (Library.new.run s.workshop).1)).Valid := by
    refine hs.add (Nat.le_add_right _ _) ?_ ?_ ?_
    · intro p hp v hv
      obtain ⟨scalar, rfl⟩ := mem_scalarProducts.1 hp
      exact bounds_scalar_new hv
    · intro p hp q hq v hv w hw hid
      obtain ⟨scalar, rfl⟩ := mem_scalarProducts.1 hp
      obtain ⟨scalar', rfl⟩ := mem_scalarProducts.1 hq
      -- The identities tell the places of the scalars, and the places tell the scalars.
      have hplace : Scalar.all.idxOf scalar = Scalar.all.idxOf scalar' := by
        rw [← place_scalar_new hv, ← place_scalar_new hw, hid]
      obtain rfl := (List.idxOf_inj scalar.mem_all).1 hplace
      rw [scalar_new] at hv hw
      exact ⟨rfl, apart_pair hv hw hid⟩
    · intro p hp form hform
      obtain ⟨scalar, rfl⟩ := mem_scalarProducts.1 hp
      cases hform
      exact ⟨wellFormed_scalar scalar, _, scalar_new _ scalar, fun _ h => nomatch h⟩
  have hmade (scalar : Scalar) : ⟨(Library.new.run s.workshop).1.scalar scalar,
      some (.scalar scalar)⟩ ∈ (s.add (s.workshop.nextId + 18)
        (scalarProducts (Library.new.run s.workshop).1)).products :=
    List.mem_append_left _ (mem_scalarProducts.2 ⟨scalar, rfl⟩)
  exact ⟨hadd.keep hmade (fun _ h => nomatch h), (extends_add s _ _).trans (extends_keep _ _)⟩

theorem Valid.addOne {s : Session} (hs : s.Valid) {v : Validator} {nextId : ValidatorId}
    {form? : Option (TypeForm Validator)}
    (grows : s.workshop.nextId ≤ nextId)
    (fresh : ∀ w ∈ Product.handles ⟨v, form?⟩, s.workshop.nextId ≤ w.id ∧ w.id < nextId)
    (apart : ∀ w ∈ Product.handles ⟨v, form?⟩, ∀ w' ∈ Product.handles ⟨v, form?⟩,
      w.id = w'.id → w = w')
    (built : ∀ form, form? = some form → form.WellFormed ∧
      ∃ id, v = .optional (id + 1) id form.check ∧
        ∀ part ∈ form.parts, part ∈ s.handles ∧ part.id < id) :
    (s.add nextId [⟨v, form?⟩]).Valid := by
  refine hs.add grows ?_ ?_ ?_
  · intro p hp
    obtain rfl := List.mem_singleton.1 hp
    exact fresh
  · intro p hp q hq w hw w' hw' hid
    obtain rfl := List.mem_singleton.1 hp
    obtain rfl := List.mem_singleton.1 hq
    exact ⟨rfl, apart w hw w' hw' hid⟩
  · intro p hp
    obtain rfl := List.mem_singleton.1 hp
    exact built

theorem Valid.addPair {s : Session} (hs : s.Valid) (check : TypeCheck)
    (form? : Option (TypeForm Validator))
    (built : ∀ form, form? = some form → form.WellFormed ∧ check = form.check ∧
      ∀ part ∈ form.parts, part ∈ s.handles) :
    (s.add (s.workshop.nextId + 2)
      [⟨.optional (s.workshop.nextId + 1) s.workshop.nextId check, form?⟩]).Valid := by
  refine hs.addOne (Nat.le_add_right _ _) ?_ (fun w hw w' hw' => apart_pair hw hw') ?_
  · intro w hw
    rw [handles_pair, List.mem_pair] at hw
    rcases hw with rfl | rfl
    · exact ⟨Nat.le_succ _, Nat.lt_succ_self _⟩
    · exact ⟨Nat.le_refl _, Nat.lt_add_of_pos_right (by decide)⟩
  · intro form hform
    obtain ⟨hwf, rfl, hparts⟩ := built form hform
    exact ⟨hwf, _, rfl, fun part hpart => ⟨hparts part hpart, hs.id_lt part (hparts part hpart)⟩⟩

theorem valid_newCustom {s : Session} (hs : s.Valid) (check : CustomCheck) :
    ((newCustom check).run s).2.Valid ∧ s.Extends ((newCustom check).run s).2 := by
  refine ⟨?_, extends_add s (s.workshop.nextId + 1) [⟨.custom s.workshop.nextId check, none⟩]⟩
  refine hs.addOne (v := .custom s.workshop.nextId check) (Nat.le_succ _) ?_ ?_
    (fun _ h => nomatch h)
  · intro w hw
    rw [handles_custom, List.mem_pair, or_self] at hw
    subst hw
    exact ⟨Nat.le_refl _, Nat.lt_succ_self _⟩
  · intro w hw w' hw' _
    rw [handles_custom, List.mem_pair, or_self] at hw hw'
    rw [hw, hw']

theorem valid_newPair {s : Session} (hs : s.Valid) (check : TypeCheck) :
    ((newPair check).run s).2.Valid ∧ s.Extends ((newPair check).run s).2 :=
  ⟨hs.addPair check none (fun _ h => nomatch h), extends_add s (s.workshop.nextId + 2)
    [⟨.optional (s.workshop.nextId + 1) s.workshop.nextId check, none⟩]⟩

theorem Valid.addBuilt {s : Session} (hs : s.Valid) {form : TypeForm Validator}
    (wellFormed : form.WellFormed) (parts : ∀ v ∈ form.parts, v ∈ s.handles) :
    (s.add (s.workshop.nextId + 2) [⟨.optional (s.workshop.nextId + 1) s.workshop.nextId
      form.check, some form⟩]).Valid := by
  refine hs.addPair form.check (some form) fun form' h => ?_
  cases h
  exact ⟨wellFormed, rfl, parts⟩

theorem valid_build {s : Session} (hs : s.Valid) (lib : Library) {form : TypeForm Validator}
    (wellFormed : form.WellFormed) (parts : ∀ v ∈ form.parts, v ∈ s.handles) :
    ((build lib form).run s).2.Valid ∧ s.Extends ((build lib form).run s).2 := by
  have hmade := hs.addBuilt wellFormed parts
  rw [run_build]
  cases lib.registry with
  | none => exact ⟨hmade, extends_add s _ _⟩
  | some ref =>
    exact ⟨hmade.record List.mem_cons_self ref,
      (extends_add s _ _).trans (hmade.extends_record List.mem_cons_self ref)⟩

/-- A patched library makes a product of the form that its registry knows. -/
theorem Valid.product_build {s : Session} (hs : s.Valid) {lib : Library} (held : lib ∈ s.libraries)
    {ref : RegistryRef} (patched : lib.registry = some ref) {form : TypeForm Validator}
    (wellFormed : form.WellFormed) (parts : ∀ v ∈ form.parts, v ∈ s.handles) :
    ⟨((build lib form).run s).1, some form⟩ ∈ ((build lib form).run s).2.products ∧
      ((((build lib form).run s).2.registry ref).lookup? ((build lib form).run s).1).isSome := by
  have hentry := (hs.addBuilt wellFormed parts).find?_record List.mem_cons_self ref ref
    (s.workshop.nextId + 1)
  rw [if_pos ⟨rfl, (hs.patched lib held ref patched).1⟩, if_pos rfl] at hentry
  rw [run_build, patched]
  exact ⟨List.mem_cons_self, Option.isSome_of_eq_some hentry⟩

theorem valid_recordScalars {s : Session} (hs : s.Valid) (ref : RegistryRef) {lib : Library}
    (held : lib ∈ s.libraries) (scalars : List Scalar) :
    (s.recordScalars ref lib scalars).Valid ∧ s.Extends (s.recordScalars ref lib scalars) ∧
      (s.recordScalars ref lib scalars).workshop.registries.length =
        s.workshop.registries.length ∧
      (ref < s.workshop.registries.length → ∀ scalar ∈ scalars,
        (((s.recordScalars ref lib scalars).registry ref).lookup? (lib.scalar scalar)).isSome) := by
  induction scalars generalizing s with
  | nil => exact ⟨hs, .refl s, rfl, fun _ _ h => nomatch h⟩
  | cons scalar rest ih =>
    obtain ⟨id, hproduct⟩ := hs.eq_optional (hs.scalars lib held scalar) rfl
    have hv : lib.scalar scalar = .optional (id + 1) id (TypeForm.scalar scalar).check :=
      congrArg Product.validator hproduct
    have hp := hs.scalars lib held scalar
    have hstep : s.recordScalars ref lib (scalar :: rest) =
        (s.record ref (.scalar scalar) (lib.scalar scalar)).recordScalars ref lib rest := rfl
    rw [hv] at hp hstep
    obtain ⟨hvalid, hextends, hlength, hrest⟩ := ih (hs.record hp ref) held
    rw [hstep]
    refine ⟨hvalid, (hs.extends_record hp ref).trans hextends, ?_, ?_⟩
    · rw [hlength]
      exact Workshop.length_registries_record _ _ _ _
    · intro hlt scalar' hmem
      rcases List.mem_cons.1 hmem with rfl | hmem
      · have hentry := hs.find?_record hp ref ref (id + 1)
        rw [if_pos ⟨rfl, hlt⟩, if_pos rfl] at hentry
        rw [hv]
        exact Option.isSome_of_eq_some (hextends.entries _ _ _ hentry)
      · refine hrest ?_ scalar' hmem
        rw [← Workshop.length_registries_record] at hlt
        exact hlt

theorem valid_patch {s : Session} (hs : s.Valid) {lib : Library} (held : lib ∈ s.libraries)
    {ref : RegistryRef} (known : ref < s.workshop.registries.length) :
    ((patch lib ref).run s).2.Valid ∧ s.Extends ((patch lib ref).run s).2 := by
  rw [run_patch]
  by_cases h : lib.registry = some ref
  · rw [if_pos h]
    exact ⟨hs.keep (hs.scalars lib held) (hs.patched lib held), extends_keep s lib⟩
  · rw [if_neg h]
    obtain ⟨hvalid, hextends, hlength, hknown⟩ := valid_recordScalars hs ref held Scalar.all
    have hscalar (scalar : Scalar) :
        { lib with registry := some ref : Library }.scalar scalar = lib.scalar scalar := by
      cases scalar <;> rfl
    refine ⟨hvalid.keep ?_ ?_, hextends.trans (extends_keep _ _)⟩
    · intro scalar
      rw [hscalar]
      exact hextends.products _ (hs.scalars lib held scalar)
    · rintro ref' ⟨⟩
      refine ⟨hlength ▸ known, fun scalar => ?_⟩
      rw [hscalar]
      exact hknown known scalar scalar.mem_all

/-- What one step preserves. -/
theorem Step.valid_extends {s s' : Session} (h : Step s s') (hs : s.Valid) :
    s'.Valid ∧ s.Extends s' := by
  cases h with
  | newRegistry => exact valid_newRegistry hs
  | newLibrary => exact valid_newLibrary hs
  | patch held known => exact valid_patch hs held known
  | newCustom check => exact valid_newCustom hs check
  | newPair check => exact valid_newPair hs check
  | build held composite wellFormed parts => exact valid_build hs _ wellFormed parts

theorem Later.valid_extends {s s' : Session} (h : s.Later s') (hs : s.Valid) :
    s'.Valid ∧ s.Extends s' := by
  induction h with
  | refl => exact ⟨hs, .refl s⟩
  | tail _ step ih =>
    obtain ⟨hvalid, hextends⟩ := step.valid_extends ih.1
    exact ⟨hvalid, ih.2.trans hextends⟩

theorem Reachable.valid {s : Session} (hs : s.Reachable) : s.Valid :=
  (Later.valid_extends hs valid_empty).1

theorem registry_patch (lib : Library) (ref : RegistryRef) (s : Session) :
    ((patch lib ref).run s).1.registry = some ref := by
  change ((lib.patch ref).run s.workshop).1.registry = some ref
  by_cases h : lib.registry = some ref
  · rw [Library.patch, if_pos h]
    exact h
  · rw [Library.patch, if_neg h]
    rfl

theorem run_openWith (check : TypeCheck) (s : Session) :
    (openWith check).run s =
      let opened := newLibrary.run (newRegistry.run s).2
      let patched := (patch opened.1 s.workshop.registries.length).run opened.2
      let made := (newPair check).run patched.2
      ((patched.1, made.1), made.2) := by
  simp only [openWith, StateT.run_bind]
  rfl

/-- The library is patched, and the validator was made directly. -/
theorem openWith_spec (check : TypeCheck) (s : Session) :
    s.Later ((openWith check).run s).2 ∧
      ((openWith check).run s).1.1 ∈ ((openWith check).run s).2.libraries ∧
      ((openWith check).run s).1.1.registry = some s.workshop.registries.length ∧
      ⟨((openWith check).run s).1.2, none⟩ ∈ ((openWith check).run s).2.products ∧
      ∃ id requiredId, ((openWith check).run s).1.2 = .optional id requiredId check := by
  have known : s.workshop.registries.length <
      (newLibrary.run (newRegistry.run s).2).2.workshop.registries.length := by
    rw [run_newLibrary]
    change s.workshop.registries.length < (s.workshop.registries ++ [Registry.empty]).length
    simp
  have held : (newLibrary.run (newRegistry.run s).2).1 ∈
      (newLibrary.run (newRegistry.run s).2).2.libraries := List.mem_cons_self
  have later : s.Later (newLibrary.run (newRegistry.run s).2).2 :=
    .tail (.single (.newRegistry s)) (.newLibrary _)
  rw [run_openWith]
  generalize newLibrary.run (newRegistry.run s).2 = opened at known held later ⊢
  exact ⟨.tail (.tail later (.patch held known)) (.newPair _ check), List.mem_cons_self,
    registry_patch _ _ _, List.mem_cons_self, _, _, rfl⟩

theorem BuiltOn.of_extends {s s' : Session} {leaf : Validator → Prop} {v : Validator}
    (h : s.BuiltOn leaf v) (hextends : s.Extends s') : s'.BuiltOn leaf v := by
  induction h with
  | direct made bare accepted handle =>
    exact .direct (hextends.products _ made) bare accepted handle
  | library made formed parts handle ih =>
    exact .library (hextends.products _ made) formed ih handle

theorem BuiltOn.mono {s : Session} {leaf leaf' : Validator → Prop} {v : Validator}
    (h : s.BuiltOn leaf v) (weaker : ∀ v, leaf v → leaf' v) : s.BuiltOn leaf' v := by
  induction h with
  | direct made bare accepted handle => exact .direct made bare (weaker _ accepted) handle
  | library made formed parts handle ih => exact .library made formed ih handle

theorem Valid.builtOn_build {s : Session} (hs : s.Valid) (lib : Library)
    {form : TypeForm Validator} (wellFormed : form.WellFormed) {leaf : Validator → Prop}
    (parts : ∀ part ∈ form.parts, s.BuiltOn leaf part) :
    ((build lib form).run s).2.BuiltOn leaf ((build lib form).run s).1 := by
  have handles (part : Validator) (hpart : part ∈ form.parts) : part ∈ s.handles :=
    (parts part hpart).mem_handles
  exact .library List.mem_cons_self rfl
    (fun part hpart => (parts part hpart).of_extends (valid_build hs lib wellFormed handles).2)
    List.mem_cons_self

end Session

end FixtureBench
