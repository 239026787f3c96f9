import FixtureBench.Proofs.Cursor.Access
import FixtureBench.Store.Dispatch

/-!
# What one action does

An action that fails leaves the state as it found it. What an action makes of the selection depends
on the selection alone.
-/

namespace FixtureBench

theorem Tree.arr_of_set {items : List PropValue} {cursor : Cursor} {value t' : PropValue}
    (hcursor : cursor ≠ []) (h : Tree.set (.arr items) cursor value = .ok t') :
    ∃ items', t' = .arr items' := by
  obtain ⟨step, rest, rfl⟩ := List.exists_cons_of_ne_nil hcursor
  obtain ⟨child, hchild, -⟩ := Tree.setOr_cons h
  rcases Tree.setChild_cases hchild with ⟨_, _, _, _, _, rfl⟩ | ⟨_, _, _, rfl⟩ | ⟨_, hobj, _⟩
  · exact ⟨_, rfl⟩
  · exact ⟨_, rfl⟩
  · cases hobj

namespace State

theorem selected_modifySelected {s : State} {now : Selection} (h : s.selected = some now)
    (key : String) (f : Selection → Selection) :
    (s.modifySelected key f).selected = some (if now.key = key then f now else now) := by
  rw [modifySelected, h, Option.map_some]

/-- Two changes of the selection one after the other. The first must keep the key. -/
theorem modifySelected_modifySelected {s : State} {key : String} {f g : Selection → Selection}
    (hkey : ∀ selected, (f selected).key = selected.key) :
    (s.modifySelected key f).modifySelected key g = s.modifySelected key (g ∘ f) := by
  obtain ⟨components, _ | selected⟩ := s
  · rfl
  · by_cases h : selected.key = key
    · simp [modifySelected, h, hkey]
    · simp [modifySelected, h]

end State

namespace Action

variable {registry : Registry} {s : State}

theorem run_componentLoaded (key : String) (component : Component) :
    (componentLoaded key component).run registry s =
      (.ok (), s.modifySelected key fun selected =>
        { selected with
          reference := some component, types := some (component.inferTypes registry) }) :=
  congrArg (Prod.mk _) (State.modifySelected_modifySelected fun _ => rfl)

theorem run_fixturesLoaded (key : String) (fixtures : Fixtures) :
    (fixturesLoaded key fixtures).run registry s =
      (.ok (), s.modifySelected key fun selected => { selected with fixtures := some fixtures }) :=
  rfl

theorem run_updateFixture_cons {selected : Selection} {fixtures : Fixtures}
    (hfixtures : selected.fixtures = some fixtures) (components : Option (List ComponentEntry))
    (step : Step) (rest : Cursor) (value : PropValue) :
    (updateFixture (step :: rest) value).run registry ⟨components, some selected⟩ =
      match fixtures.update (step :: rest) value with
      | .error error => (.error (.cursor error), ⟨components, some selected⟩)
      | .ok edited => (.ok (), ⟨components, some { selected with fixtures := some edited }⟩) := by
  obtain ⟨key, reference, types, _⟩ := selected
  cases hfixtures
  -- The checks that come before the write pass by computation.
  change (match fixtures.update (step :: rest) value with
    | .error error => throw (.cursor error)
    | .ok fixtures => modify fun s =>
        { s with selected := some ⟨key, reference, types, some fixtures⟩ } : InPlace Unit).run.run
      _ = _
  cases fixtures.update (step :: rest) value with
  | error error => rfl
  | ok fixtures => rfl

theorem run_updateFixture (s : State) (cursor : Cursor) (value : PropValue) :
    (∃ error, (updateFixture cursor value).run registry s = (.error error, s)) ∨
    ∃ selected fixtures instances, s.selected = some selected ∧ selected.fixtures = some fixtures ∧
      Tree.set (.arr fixtures.instances) cursor value = .ok (.arr instances) ∧
      (updateFixture cursor value).run registry s = (.ok (), { s with
        selected := some { selected with fixtures := some { fixtures with instances } } }) := by
  cases cursor with
  | nil => exact .inl ⟨.emptyCursor, rfl⟩
  | cons step rest =>
    obtain ⟨components, _ | ⟨key, reference, types, _ | fixtures⟩⟩ := s
    · exact .inl ⟨.noSelection, rfl⟩
    · exact .inl ⟨.fixturesNotLoaded key, rfl⟩
    · rw [run_updateFixture_cons rfl]
      cases hset : Tree.set (.arr fixtures.instances) (step :: rest) value with
      | error error => exact .inl ⟨.cursor error, by rw [Fixtures.update, hset]; rfl⟩
      | ok t' =>
        obtain ⟨instances, rfl⟩ := Tree.arr_of_set (List.cons_ne_nil step rest) hset
        refine .inr ⟨_, fixtures, instances, rfl, rfl, hset, ?_⟩
        rw [Fixtures.update, hset]
        rfl

/-- An edit succeeds if it has a place and the loaded fixtures can store a value there. -/
theorem answer_updateFixture {cursor : Cursor} {value : PropValue} :
    ((updateFixture cursor value).run registry s).1 = .ok () ↔
      cursor ≠ [] ∧ ∃ selected ∈ s.selected, ∃ fixtures ∈ selected.fixtures, ∃ t,
        Tree.set (.arr fixtures.instances) cursor value = .ok t := by
  constructor
  · intro hanswer
    rcases run_updateFixture s cursor value with
      ⟨error, hrun⟩ | ⟨selected, fixtures, instances, hselected, hfixtures, hset, -⟩
    · rw [hrun] at hanswer
      cases hanswer
    · refine ⟨?_, selected, hselected, fixtures, hfixtures, _, hset⟩
      rintro rfl
      cases hanswer
  · rintro ⟨hcursor, selected, hselected, fixtures, hfixtures, t, hset⟩
    obtain ⟨components, _⟩ := s
    cases hselected
    obtain ⟨step, rest, rfl⟩ := List.exists_cons_of_ne_nil hcursor
    obtain ⟨instances, rfl⟩ := Tree.arr_of_set hcursor hset
    rw [run_updateFixture_cons hfixtures, Fixtures.update, hset]
    rfl

theorem selected_run_congr {s s' : State} (h : s.selected = s'.selected) (a : Action) :
    (a.run registry s).2.selected = (a.run registry s').2.selected := by
  obtain ⟨components, selected⟩ := s
  obtain ⟨components', _⟩ := s'
  cases h
  cases a with
  | updateFixture cursor value =>
    cases cursor with
    | nil => rfl
    | cons step rest =>
      obtain _ | ⟨key, reference, types, _ | fixtures⟩ := selected
      · rfl
      · rfl
      · rw [run_updateFixture_cons rfl, run_updateFixture_cons rfl]
        cases fixtures.update (step :: rest) value <;> rfl
  | _ => rfl

/-- An action that fails leaves the whole state as it was. -/
theorem run_error {a : Action} {error : StoreError} {s next : State}
    (h : a.run registry s = (.error error, next)) : next = s := by
  cases a with
  | updateFixture cursor value =>
    rcases run_updateFixture s cursor value with ⟨error', hrun⟩ | ⟨_, _, _, -, -, -, hrun⟩
    · rw [hrun] at h
      exact (congrArg Prod.snd h).symm
    · rw [hrun] at h
      cases h
  | _ => cases h

end Action

end FixtureBench
