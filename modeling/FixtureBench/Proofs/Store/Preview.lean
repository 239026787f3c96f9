import FixtureBench.Library
import FixtureBench.Proofs.Descriptor.Overrides
import FixtureBench.Proofs.Fixtures
import FixtureBench.Proofs.Store.Log

/-!
# Edits and the preview

An instance is previewed with its stored props and minimal values for the declared props that it
lacks. An edit stores a value in the instance alone. `State.preview_after_edit` says that the
preview then shows the value at its place and everything apart from it as before, and that a whole
prop that was missing is shown as if its minimal value had been overridden.
`State.edit_of_preview` says which places of the preview can be edited: whole props, and places
in stored props. A place inside a minimal value has no container in the instance until the prop
itself has been stored.
-/

namespace FixtureBench

namespace Tree

variable {ε : Type}

theorem get?_obj_congr {members members' : Keyed (Tree ε)}
    (h : ∀ key, members.get? key = members'.get? key) {place : Cursor} (hplace : place ≠ []) :
    (obj members).get? place = (obj members').get? place := by
  cases place with
  | nil => exact absurd rfl hplace
  | cons step rest => simp only [get?, child?, h]

end Tree

namespace Fixtures

/-- An edit of stored props is an edit of the filled-in props: what was missing stays filled in. -/
theorem setOr_fillMissing (overrides : Overrides) (index : UInt64)
    (types : List (String × Descriptor)) {missing : CursorError} {stored edited : Props}
    {step : Step} {rest : Cursor} {value : PropValue}
    (h : (Tree.obj stored).setOr missing (step :: rest) value = .ok (.obj edited)) :
    ∃ shown, (Tree.obj (fillMissing overrides index stored types)).setOr missing (step :: rest)
        value = .ok (.obj shown) ∧
      ∀ key, (fillMissing overrides index edited types).get? key = shown.get? key := by
  obtain ⟨child', hedited, hchild⟩ := Tree.setOr_obj.1 h
  obtain rfl := Tree.obj.inj hedited
  refine ⟨_, Tree.setOr_obj.2 ⟨child', rfl, ?_⟩, ?_⟩
  · rcases hchild with ⟨hrest, hvalue⟩ | ⟨child, hstored, hset⟩
    · exact .inl ⟨hrest, hvalue⟩
    · exact .inr ⟨child, by simp [get?_fillMissing, hstored], hset⟩
  · intro key
    by_cases hkey : key = step.asKey <;> simp [get?_fillMissing, hkey]

/-- A missing prop that is stored is shown as if its minimal value had been overridden. -/
theorem get?_fillMissing_insert (overrides : Overrides) (index : UInt64)
    {types : List (String × Descriptor)} {stored : Props} {name : String} {d : Descriptor}
    (declared : types.lookup name = some d) (missing : stored.get? name = none)
    (value : PropValue) (key : String) :
    (fillMissing overrides index (stored.insert name value) types).get? key =
      (fillMissing (overrides.insert [.index index, .key name] value) index stored types).get?
        key := by
  rw [get?_fillMissing, get?_fillMissing, Keyed.get?_insert]
  by_cases hkey : key = name
  · subst hkey
    have hminimal : d.minimal (overrides.insert [.index index, .key key] value)
        [.index index, .key key] = value :=
      Descriptor.minimal_of_override (by simp [Overrides.get?_insert])
    simp [declared, missing, hminimal]
  · have apart : ¬ [Step.index index, Step.key key] <+: [.index index, .key name] := by
      simpa [List.cons_prefix_cons] using hkey
    simp only [hkey, if_false, Descriptor.minimal_insert_apart apart]

end Fixtures

namespace State

/-- The props an instance of the selection is previewed with, when no calls are logged. -/
def preview? (s : State) (index : Nat) (overrides : Overrides) : Option Props :=
  s.selected.bind (·.instanceProps index overrides [])

/-- Component and fixtures are there, and an instance is stored as an object. -/
structure Stores (s : State) (types : Keyed Descriptor) (fixtures : Fixtures) (i : UInt64)
    (stored : Props) : Prop where
  component : s.types? = some types
  document : s.fixtures? = some fixtures
  props : fixtures.instances[i.toNat]? = some (.obj stored)

section Edit

variable {registry : Registry} {s next : State} {types : Keyed Descriptor} {fixtures : Fixtures}
  {i : UInt64} {stored : Props} {overrides : Overrides} {value : PropValue}

theorem preview?_eq (component : s.types? = some types) (document : s.fixtures? = some fixtures)
    (index : Nat) (overrides : Overrides) :
    s.preview? index overrides = fixtures.instanceProps index types overrides := by
  obtain ⟨now, hselected, htypes⟩ := Option.bind_eq_some_iff.1 component
  have hfixtures : now.fixtures = some fixtures := by simpa [fixtures?, hselected] using document
  cases h : fixtures.instanceProps index types overrides <;>
    simp [preview?, hselected, Selection.instanceProps, htypes, hfixtures, h,
      Selection.logCallbacks]

theorem Stores.preview? (h : s.Stores types fixtures i stored) (overrides : Overrides) :
    s.preview? i.toNat overrides =
      some (Fixtures.fillMissing overrides i stored types.entries) := by
  rw [preview?_eq h.component h.document]
  simp [Fixtures.instanceProps, h.props, Tree.asObject?]

def withInstances (s : State) (fixtures : Fixtures) (instances : List PropValue) : State :=
  { s with selected := s.selected.map fun now =>
    { now with fixtures := some { fixtures with instances } } }

/-- An edit within an instance is answered as the write into the instance. -/
theorem Stores.run_updateFixture (h : s.Stores types fixtures i stored) (step : Step)
    (rest : Cursor) (value : PropValue) :
    (Action.updateFixture (.index i :: step :: rest) value).run registry s =
      match (Tree.obj stored).setOr
        (.notFound (Pointer.format (.index i :: (step :: rest).dropLast))) (step :: rest) value with
      | .error error => (.error (.cursor error), s)
      | .ok edited =>
        (.ok (), s.withInstances fixtures (fixtures.instances.set i.toNat edited)) := by
  obtain ⟨now, hselected, hfixtures⟩ := Option.bind_eq_some_iff.1 h.document
  obtain ⟨components, _⟩ := s
  cases hselected
  rw [Action.run_updateFixture_cons hfixtures, Fixtures.update, Tree.set,
    Tree.setOr_item rfl h.props, List.dropLast_cons_cons]
  generalize CursorError.notFound _ = missing
  cases (Tree.obj stored).setOr missing (step :: rest) value <;> rfl

theorem Stores.edited (h : s.Stores types fixtures i stored) {step : Step} {rest : Cursor}
    (answered : (Action.updateFixture (.index i :: step :: rest) value).run registry s =
      (.ok (), next)) :
    ∃ missing edited, (Tree.obj stored).setOr missing (step :: rest) value = .ok (.obj edited) ∧
      next = s.withInstances fixtures (fixtures.instances.set i.toNat (.obj edited)) := by
  rw [h.run_updateFixture] at answered
  generalize hmissing : CursorError.notFound _ = missing at answered
  cases hset : (Tree.obj stored).setOr missing (step :: rest) value with
  | error error =>
    rw [hset] at answered
    cases answered
  | ok t =>
    obtain ⟨child', rfl, -⟩ := Tree.setOr_obj.1 hset
    rw [hset] at answered
    exact ⟨missing, _, hset, (congrArg Prod.snd answered).symm⟩

theorem Stores.withInstances (h : s.Stores types fixtures i stored) (edited : Props) :
    (s.withInstances fixtures (fixtures.instances.set i.toNat (.obj edited))).Stores types
      { fixtures with instances := fixtures.instances.set i.toNat (.obj edited) } i edited := by
  obtain ⟨now, hselected, htypes⟩ := Option.bind_eq_some_iff.1 h.component
  have hlt : i.toNat < fixtures.instances.length := (List.getElem?_eq_some_iff.1 h.props).1
  exact ⟨by simp [State.withInstances, types?, hselected, htypes],
    by simp [State.withInstances, fixtures?, hselected], by simp [hlt]⟩

/-- What an edit shows. The value is shown at its place, what is apart from it and what belongs to
other instances is shown as before, and a prop that was missing is shown as if it had been
overridden. -/
theorem preview_after_edit (h : s.Stores types fixtures i stored) {place : Cursor}
    (hplace : place ≠ [])
    (answered : (Action.updateFixture (.index i :: place) value).run registry s = (.ok (), next))
    (overrides : Overrides) :
    ∃ before after, s.preview? i.toNat overrides = some before ∧
      next.preview? i.toNat overrides = some after ∧
      (Tree.obj after).get? place = some value ∧
      (∀ other : Cursor, ¬ other.keys <+: place.keys → ¬ place.keys <+: other.keys →
        (Tree.obj after).get? other = (Tree.obj before).get? other) ∧
      (∀ j, j ≠ i.toNat → next.preview? j overrides = s.preview? j overrides) ∧
      ∀ name, place = [.key name] → name ∈ types.keys → name ∉ stored.keys →
        ∃ overridden, s.preview? i.toNat (overrides.insert [.index i, .key name] value) =
            some overridden ∧
          ∀ key, after.get? key = overridden.get? key := by
  obtain ⟨step, rest, rfl⟩ := List.exists_cons_of_ne_nil hplace
  obtain ⟨missing, edited, hset, rfl⟩ := h.edited answered
  have hnext := h.withInstances edited
  obtain ⟨shown, hshown, hsame⟩ := Fixtures.setOr_fillMissing overrides i types.entries hset
  refine ⟨_, _, h.preview? overrides, hnext.preview? overrides, ?_, ?_, ?_, ?_⟩
  · rw [Tree.get?_obj_congr hsame hplace]
    exact Tree.get?_setOr hshown
  · intro other above below
    have hother : other ≠ [] := by
      rintro rfl
      exact above List.nil_prefix
    rw [Tree.get?_obj_congr hsame hother]
    exact Tree.get?_setOr_apart hshown above below
  · intro j hj
    rw [preview?_eq hnext.component hnext.document, preview?_eq h.component h.document]
    simp [Fixtures.instanceProps, List.getElem?_set_ne (Ne.symm hj)]
  · rintro name hname declared hmissing
    obtain ⟨rfl, rfl⟩ := List.cons.inj hname
    obtain rfl : stored.insert name value = edited := Tree.obj.inj (Except.ok.inj hset)
    obtain ⟨d, hd⟩ := Keyed.exists_get?_iff.2 declared
    exact ⟨_, h.preview? _, Fixtures.get?_fillMissing_insert overrides i hd
      (Keyed.get?_eq_none_iff.2 hmissing) value⟩

/-- Which places of the preview can be edited: whole props, and what lies in stored props. Inside a
minimal value there is no container to store into, so the edit fails and changes nothing. -/
theorem edit_of_preview (h : s.Stores types fixtures i stored) {shown : Props}
    (preview : s.preview? i.toNat overrides = some shown) {step : Step} {rest : Cursor}
    {old : PropValue} (resolves : (Tree.obj shown).get? (step :: rest) = some old)
    (value : PropValue) :
    (rest = [] ∨ step.asKey ∈ stored.keys →
      ∃ next, (Action.updateFixture (.index i :: step :: rest) value).run registry s =
        (.ok (), next)) ∧
    (rest ≠ [] → step.asKey ∉ stored.keys →
      (Action.updateFixture (.index i :: step :: rest) value).run registry s =
        (.error (.cursor (.notFound (Pointer.format (.index i :: (step :: rest).dropLast)))),
          s)) := by
  rw [h.run_updateFixture]
  generalize hmissing : CursorError.notFound _ = missing
  constructor
  · intro hstored
    have hset : ∃ t', (Tree.obj stored).setOr missing (step :: rest) value = .ok t' := by
      rcases hstored with rfl | hkey
      · exact ⟨_, rfl⟩
      · obtain ⟨child, hchild⟩ := Keyed.exists_get?_iff.2 hkey
        rw [h.preview? overrides] at preview
        obtain rfl := Option.some.inj preview
        have hold : child.get? rest = some old := by
          simpa [Tree.get?, Tree.child?, Fixtures.get?_fillMissing, hchild] using resolves
        obtain ⟨child', hchild'⟩ := Tree.exists_setOr hold
        exact ⟨_, Tree.setOr_obj.2 ⟨child', rfl, .inr ⟨child, hchild, hchild'⟩⟩⟩
    obtain ⟨t', hset⟩ := hset
    rw [hset]
    exact ⟨_, rfl⟩
  · intro hrest hkey
    obtain ⟨next, below, rfl⟩ := List.exists_cons_of_ne_nil hrest
    simp only [Tree.setOr, Tree.child?, Keyed.get?_eq_none_iff.2 hkey]

end Edit

end State

namespace Greeting

def string : Validator := .optional 1 0 (TypeForm.scalar .string).check

def user : TypeForm Validator := .shape ⟨[("name", string.toRequired)]⟩

def registry : Registry :=
  (Registry.empty.register (.scalar .string) string).register user (.optional 3 2 user.check)

/-- The component demands a user. -/
def component : Component := ⟨"Greeting", ⟨[("user", .required 2 user.check)]⟩⟩

def named (name : String) : Props := ⟨[("user", .obj ⟨[("name", .str name)]⟩)]⟩

/-- An instance that stores nothing, and one that stores a user. -/
def fixtures : Fixtures := ⟨[.obj {}, .obj (named "Ada")], {}⟩

def state : State :=
  (History.of [⟨registry, .selectComponent "greeting"⟩,
    ⟨registry, .componentLoaded "greeting" component⟩,
    ⟨registry, .fixturesLoaded "greeting" fixtures⟩]).state

theorem stores : state.Stores (component.inferTypes registry) fixtures 0 {} ∧
    state.Stores (component.inferTypes registry) fixtures 1 (named "Ada") :=
  ⟨⟨rfl, rfl, rfl⟩, ⟨rfl, rfl, rfl⟩⟩

end Greeting

namespace State

open Greeting

/-- A user is stored where only a minimal one was shown. -/
theorem preview_after_edit_user :
    ∃ next after overridden,
      (Action.updateFixture [.index 0, .key "user"] .null).run registry state = (.ok (), next) ∧
      next.preview? 0 .empty = some after ∧ (Tree.obj after).get? [.key "user"] = some .null ∧
      next.preview? 1 .empty = some (named "Ada") ∧
      state.preview? 0 (Overrides.empty.insert [.index 0, .key "user"] .null) = some overridden ∧
      ∀ key, after.get? key = overridden.get? key := by
  have answered : (Action.updateFixture [.index 0, .key "user"] .null).run registry state =
      (.ok (), ((Action.updateFixture [.index 0, .key "user"] .null).run registry state).2) := rfl
  obtain ⟨before, after, -, hafter, hvalue, -, hothers, hmissing⟩ :=
    preview_after_edit stores.1 (List.cons_ne_nil _ _) answered .empty
  obtain ⟨overridden, hoverridden, hsame⟩ := hmissing "user" rfl (by decide) (by decide)
  exact ⟨_, after, overridden, answered, hafter, hvalue, hothers 1 (by decide), hoverridden, hsame⟩

/-- The name of a user that is shown but not stored cannot be edited. -/
theorem name_not_editable :
    state.Stores (component.inferTypes registry) fixtures 0 {} ∧
      state.preview? 0 .empty = some (named "") ∧
      (Tree.obj (named "")).get? [.key "user", .key "name"] = some (.str "") ∧
      ((Action.updateFixture [.index 0, .key "user", .key "name"] (.str "Bea")).run registry
        state).1 = .error (.cursor (.notFound "/0/user")) :=
  ⟨stores.1, rfl, rfl, rfl⟩

theorem edit_of_preview_user :
    (∃ next, (Action.updateFixture [.index 1, .key "user", .key "name"] (.str "Bea")).run registry
      state = (.ok (), next)) ∧
    (Action.updateFixture [.index 0, .key "user", .key "name"] (.str "Bea")).run registry state =
      (.error (.cursor (.notFound (Pointer.format [.index 0, .key "user"]))), state) := by
  have shown : state.preview? 0 .empty = some (named "") ∧
      state.preview? 1 .empty = some (named "Ada") := ⟨rfl, rfl⟩
  have name (text : String) :
      (Tree.obj (named text)).get? [.key "user", .key "name"] = some (.str text) := rfl
  exact ⟨(edit_of_preview stores.2 shown.2 (name "Ada") (.str "Bea")).1 (.inr (by decide)),
    (edit_of_preview stores.1 shown.1 (name "") (.str "Bea")).2 (by decide) (by decide)⟩

end State

end FixtureBench
