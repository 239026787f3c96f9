import FixtureBench.Proofs.Store.Run
import Mathlib.Data.List.DropRight

/-!
# The state follows from the log of actions

`History.of` dispatches a list of actions to a bench and logs each with its answer. The registry may
be a different one at each of them, as types are added to it in between. `History.determined_of`
reads every part of the state off the log: the list of components is the last that was loaded, the
key is the last that was chosen, and what belongs to the selection was loaded for that key since it
was chosen, with the edits since the fixtures were loaded carried out on them.
-/

namespace FixtureBench

section Lists

variable {α β : Type}

/-- The last value that an item of a list gives. -/
def last? (give : α → Option β) (l : List α) : Option β := (l.filterMap give).getLast?

/-- The items after the last one that gives a value; all of them if none does. -/
def since (give : α → Option β) (l : List α) : List α := l.rtakeWhile fun e => (give e).isNone

variable (give : α → Option β) {l : List α} {e : α}

theorem last?_concat : last? give (l ++ [e]) = (give e).or (last? give l) := by
  cases h : give e <;> simp [last?, List.filterMap_append, h]

theorem exists_of_last? {b : β} (h : last? give l = some b) : ∃ e ∈ l, give e = some b :=
  List.mem_filterMap.1 (List.mem_of_getLast? h)

theorem since_concat_some {b : β} (h : give e = some b) : since give (l ++ [e]) = [] :=
  List.rtakeWhile_concat_neg _ _ _ (by simp [h])

theorem since_concat_none (h : give e = none) : since give (l ++ [e]) = since give l ++ [e] :=
  List.rtakeWhile_concat_pos _ _ _ (by simp [h])

end Lists

namespace Action

def list? : Action → Option (List ComponentEntry)
  | componentListLoaded components => some components
  | _ => none

def choice? : Action → Option String
  | selectComponent key => some key
  | _ => none

def component? (key : String) : Action → Option Component
  | componentLoaded loadedKey component => if loadedKey = key then some component else none
  | _ => none

def fixtures? (key : String) : Action → Option Fixtures
  | fixturesLoaded loadedKey fixtures => if loadedKey = key then some fixtures else none
  | _ => none

def edit? : Action → Option (Cursor × PropValue)
  | updateFixture cursor value => some (cursor, value)
  | _ => none

def concerns (key : String) (a : Action) : Bool :=
  (a.component? key).isSome || (a.fixtures? key).isSome || a.edit?.isSome

end Action

/-- An action, with the registry as it is when the action is dispatched. -/
structure Dispatch where
  registry : Registry
  action : Action

namespace Dispatch

def run (d : Dispatch) (s : State) : Except StoreError Unit × State := d.action.run d.registry s

/-- The component that is loaded for a key, with its descriptors by the registry of that moment. -/
def loaded? (key : String) (d : Dispatch) : Option LoadedComponent :=
  (d.action.component? key).map fun component => ⟨component, component.inferTypes d.registry⟩

end Dispatch

/-- A dispatch and its answer. -/
structure Record extends Dispatch where
  answer : Except StoreError Unit

def Record.edit? (r : Record) : Option (Cursor × PropValue) :=
  match r.answer with
  | .ok () => r.action.edit?
  | .error _ => none

/-- What was dispatched so far, and the state it led to. -/
structure History where
  log : List Record
  state : State

namespace History

def extend (h : History) (d : Dispatch) : History :=
  ⟨h.log ++ [⟨d, (d.run h.state).1⟩], (d.run h.state).2⟩

def of (ds : List Dispatch) : History := ds.foldl extend ⟨[], .initial⟩

theorem of_concat (ds : List Dispatch) (d : Dispatch) : of (ds ++ [d]) = (of ds).extend d := by
  simp [of]

end History

def State.replay (s : State) (ds : List Dispatch) : State := ds.foldl (fun s d => (d.run s).2) s

theorem State.replay_concat (s : State) (ds : List Dispatch) (d : Dispatch) :
    s.replay (ds ++ [d]) = (d.run (s.replay ds)).2 := by
  simp [replay]

def State.choosing (key : String) : State := ⟨none, some (.ofKey key)⟩

/-- The dispatches after the last choice that are edits or load something for a key. -/
def relevant (key : String) (ds : List Dispatch) : List Dispatch :=
  (since (·.action.choice?) ds).filter (·.action.concerns key)

/-- Fixtures as they are after edits of their instances, one after the other. -/
def Fixtures.Edited (edits : List (Cursor × PropValue)) (loaded now : Fixtures) : Prop :=
  edits.foldlM (fun t (cursor, value) => Tree.set t cursor value) (.arr loaded.instances) =
      .ok (.arr now.instances) ∧
    now.extra = loaded.extra

theorem Fixtures.Edited.concat {edits : List (Cursor × PropValue)} {loaded now : Fixtures}
    (h : Edited edits loaded now) {cursor : Cursor} {value : PropValue} {instances : List PropValue}
    (hset : Tree.set (.arr now.instances) cursor value = .ok (.arr instances)) :
    Edited (edits ++ [(cursor, value)]) loaded { now with instances } := by
  obtain ⟨hedits, hextra⟩ := h
  refine ⟨?_, hextra⟩
  rw [List.foldlM_append, hedits]
  exact (bind_pure _).trans hset

/-- The edits that succeeded since fixtures were loaded for a key. -/
def edits (key : String) (log : List Record) : List (Cursor × PropValue) :=
  (since (·.action.fixtures? key) log).filterMap (·.edit?)

/-- How a selection follows from what was logged since it was chosen. -/
structure Selection.FollowsFrom (now : Selection) (log : List Record) : Prop where
  reference : now.reference = (last? (·.loaded? now.key) log).map (·.component)
  types : now.types = (last? (·.loaded? now.key) log).map (·.types)
  fixtures : Option.Rel (Fixtures.Edited (edits now.key log))
    (last? (·.action.fixtures? now.key) log) now.fixtures

/-- What a record makes of the fixtures of the selection that a key names. -/
inductive Record.MovesFixtures (r : Record) (key : String) :
    Option Fixtures → Option Fixtures → Prop
  | kept {now : Option Fixtures} (hload : r.action.fixtures? key = none) (hedit : r.edit? = none) :
      MovesFixtures r key now now
  | loaded {now : Option Fixtures} {fixtures : Fixtures}
      (hload : r.action.fixtures? key = some fixtures) : MovesFixtures r key now (some fixtures)
  | edited {fixtures : Fixtures} {cursor : Cursor} {value : PropValue} {instances : List PropValue}
      (hload : r.action.fixtures? key = none) (hedit : r.edit? = some (cursor, value))
      (hset : Tree.set (.arr fixtures.instances) cursor value = .ok (.arr instances)) :
      MovesFixtures r key (some fixtures) (some { fixtures with instances })

/-- What a record other than a choice makes of a selection. -/
structure Record.Moves (r : Record) (now next : Selection) : Prop where
  key : next.key = now.key
  reference : next.reference = ((r.loaded? now.key).map (·.component)).or now.reference
  types : next.types = ((r.loaded? now.key).map (·.types)).or now.types
  fixtures : r.MovesFixtures now.key now.fixtures next.fixtures

section Step

variable {d : Dispatch} {s : State} {now next : Selection} {log : List Record} {r : Record}

theorem Dispatch.moves (hselected : s.selected = some now) (hchoice : d.action.choice? = none) :
    ∃ next, (d.run s).2.selected = some next ∧ Record.Moves ⟨d, (d.run s).1⟩ now next := by
  obtain ⟨registry, action⟩ := d
  cases action with
  | componentListLoaded list => exact ⟨now, hselected, rfl, rfl, rfl, .kept rfl rfl⟩
  | selectComponent key => cases hchoice
  | componentLoaded key component =>
    rw [run, Action.run_componentLoaded, State.selected_modifySelected hselected]
    refine ⟨_, rfl, ?_⟩
    by_cases hkey : now.key = key
    · rw [if_pos hkey]
      refine ⟨rfl, ?_, ?_, .kept rfl rfl⟩ <;> simp [loaded?, Action.component?, hkey]
    · rw [if_neg hkey]
      refine ⟨rfl, ?_, ?_, .kept rfl rfl⟩ <;> simp [loaded?, Action.component?, Ne.symm hkey]
  | fixturesLoaded key fixtures =>
    rw [run, Action.run_fixturesLoaded, State.selected_modifySelected hselected]
    refine ⟨_, rfl, ?_⟩
    by_cases hkey : now.key = key
    · rw [if_pos hkey]
      exact ⟨rfl, rfl, rfl, .loaded (if_pos hkey.symm)⟩
    · rw [if_neg hkey]
      exact ⟨rfl, rfl, rfl, .kept (if_neg (Ne.symm hkey)) rfl⟩
  | updateFixture cursor value =>
    rcases Action.run_updateFixture s cursor value with
      ⟨error, hrun⟩ | ⟨_, fixtures, instances, hnow, hfixtures, hset, hrun⟩
    · rw [run, hrun]
      exact ⟨now, hselected, rfl, rfl, rfl, .kept rfl rfl⟩
    · cases hselected.symm.trans hnow
      rw [run, hrun]
      refine ⟨_, rfl, rfl, rfl, rfl, ?_⟩
      rw [hfixtures]
      exact .edited rfl rfl hset

theorem edits_concat_loaded {key : String} {fixtures : Fixtures}
    (h : r.action.fixtures? key = some fixtures) : edits key (log ++ [r]) = [] :=
  congrArg (List.filterMap _) (since_concat_some (fun r : Record => r.action.fixtures? key) h)

theorem edits_concat {key : String} (h : r.action.fixtures? key = none) :
    edits key (log ++ [r]) = edits key log ++ r.edit?.toList := by
  rw [edits, since_concat_none (fun r : Record => r.action.fixtures? key) h, List.filterMap_append]
  cases hedit : r.edit? <;> simp [edits, hedit]

theorem Record.MovesFixtures.edited_log {key : String} {before after : Option Fixtures}
    (hmove : r.MovesFixtures key before after)
    (h : Option.Rel (Fixtures.Edited (edits key log)) (last? (·.action.fixtures? key) log) before) :
    Option.Rel (Fixtures.Edited (edits key (log ++ [r])))
      (last? (·.action.fixtures? key) (log ++ [r])) after := by
  rw [last?_concat]
  cases hmove with
  | kept hload hedit =>
    rw [edits_concat hload, hload, hedit]
    simpa using h
  | loaded hload =>
    rw [edits_concat_loaded hload, hload]
    exact .some ⟨rfl, rfl⟩
  | edited hload hedit hset =>
    rw [edits_concat hload, hload, hedit]
    cases hlast : last? (fun r : Record => r.action.fixtures? key) log with
    | none =>
      rw [hlast] at h
      cases h
    | some loaded =>
      rw [hlast] at h
      cases h with
      | some h => exact .some (h.concat hset)

theorem Record.Moves.followsFrom (hmove : r.Moves now next) (h : now.FollowsFrom log) :
    next.FollowsFrom (log ++ [r]) where
  reference := by rw [hmove.reference, hmove.key, h.reference, last?_concat, Option.map_or]
  types := by rw [hmove.types, hmove.key, h.types, last?_concat, Option.map_or]
  fixtures := hmove.key ▸ hmove.fixtures.edited_log h.fixtures

theorem Selection.FollowsFrom.keys (h : now.FollowsFrom log) :
    now.types.map (·.keys) = now.reference.map (·.propTypes.keys) := by
  rw [h.types, h.reference, Option.map_map, Option.map_map]
  cases hload : last? (fun r : Record => r.loaded? now.key) log with
  | none => rfl
  | some load =>
    obtain ⟨r, -, hr⟩ := exists_of_last? _ hload
    obtain ⟨component, -, rfl⟩ := Option.map_eq_some_iff.1 hr
    exact congrArg some (Keyed.keys_map _ _)

theorem Dispatch.components_run (d : Dispatch) (s : State) :
    (d.run s).2.components = d.action.list?.or s.components := by
  obtain ⟨registry, action⟩ := d
  cases action with
  | updateFixture cursor value =>
    rcases Action.run_updateFixture s cursor value with ⟨error, hrun⟩ | ⟨_, _, _, -, -, -, hrun⟩
    · rw [run, hrun]
      rfl
    · rw [run, hrun]
      rfl
  | _ => rfl

theorem Dispatch.selected_run_choice {key : String} (hchoice : d.action.choice? = some key) :
    (d.run s).2.selected = some (.ofKey key) := by
  obtain ⟨registry, action⟩ := d
  cases action with
  | selectComponent key => exact congrArg (some ∘ Selection.ofKey) (Option.some.inj hchoice)
  | _ => cases hchoice

theorem Dispatch.selected_run_none (hselected : s.selected = none)
    (hchoice : d.action.choice? = none) : (d.run s).2.selected = none := by
  obtain ⟨components, selected⟩ := s
  cases hselected
  obtain ⟨registry, action⟩ := d
  cases action with
  | updateFixture cursor value =>
    rcases Action.run_updateFixture ⟨components, none⟩ cursor value with
      ⟨error, hrun⟩ | ⟨_, _, _, hnone, -⟩
    · rw [run, hrun]
    · cases hnone
  | selectComponent key => cases hchoice
  | _ => rfl

/-- A choice starts a new selection, and every other action moves the selection that there is. -/
theorem Dispatch.selected_run (d : Dispatch) (s : State) :
    (∃ key, d.action.choice? = some key ∧ (d.run s).2.selected = some (.ofKey key)) ∨
    d.action.choice? = none ∧
      (s.selected = none ∧ (d.run s).2.selected = none ∨
        ∃ now next, s.selected = some now ∧ (d.run s).2.selected = some next ∧
          Record.Moves ⟨d, (d.run s).1⟩ now next) := by
  cases hchoice : d.action.choice? with
  | some key => exact .inl ⟨key, rfl, selected_run_choice hchoice⟩
  | none =>
    refine .inr ⟨rfl, ?_⟩
    cases hselected : s.selected with
    | none => exact .inl ⟨rfl, selected_run_none hselected hchoice⟩
    | some now =>
      obtain ⟨next, hnext, hmove⟩ := Dispatch.moves hselected hchoice
      exact .inr ⟨now, next, rfl, hnext, hmove⟩

/-- A load for another key leaves the selection as it is. -/
theorem Dispatch.selected_run_stale (hselected : s.selected = some now)
    (hchoice : d.action.choice? = none) (hconcerns : d.action.concerns now.key = false) :
    (d.run s).2.selected = some now := by
  obtain ⟨registry, action⟩ := d
  cases action with
  | componentListLoaded list => exact hselected
  | selectComponent key => cases hchoice
  | componentLoaded key component =>
    have hkey : now.key ≠ key := by
      rintro rfl
      simp [Action.concerns, Action.component?] at hconcerns
    rw [run, Action.run_componentLoaded, State.selected_modifySelected hselected, if_neg hkey]
  | fixturesLoaded key fixtures =>
    have hkey : now.key ≠ key := by
      rintro rfl
      simp [Action.concerns, Action.fixtures?] at hconcerns
    rw [run, Action.run_fixturesLoaded, State.selected_modifySelected hselected, if_neg hkey]
  | updateFixture cursor value => cases hconcerns

end Step

theorem relevant_concat_choice {key key' : String} {ds : List Dispatch} {d : Dispatch}
    (hchoice : d.action.choice? = some key') : relevant key (ds ++ [d]) = [] :=
  congrArg (List.filter _) (since_concat_some (fun d : Dispatch => d.action.choice?) hchoice)

theorem relevant_concat {key : String} {ds : List Dispatch} {d : Dispatch}
    (hchoice : d.action.choice? = none) : relevant key (ds ++ [d]) =
      relevant key ds ++ if d.action.concerns key then [d] else [] := by
  rw [relevant, since_concat_none (fun d : Dispatch => d.action.choice?) hchoice,
    List.filter_append, List.filter_singleton]
  cases d.action.concerns key <;> rfl

namespace History

/-- How the state of a history follows from what was dispatched. -/
structure Determined (h : History) (ds : List Dispatch) : Prop where
  /-- The log lists what was dispatched. -/
  dispatched : h.log.map (·.toDispatch) = ds
  components : h.state.components = last? (·.action.list?) ds
  chosen : h.state.selected.map (·.key) = last? (·.action.choice?) ds
  selection : ∀ now ∈ h.state.selected, now.FollowsFrom (since (·.action.choice?) h.log)
  /-- Component and descriptors are there together, with the same props in the same order. -/
  props : ∀ now ∈ h.state.selected, now.types.map (·.keys) = now.reference.map (·.propTypes.keys)
  /-- The selection is what the relevant actions make of a new one. -/
  replayed : h.state.selected = (last? (·.action.choice?) ds).bind fun key =>
    ((State.choosing key).replay (relevant key ds)).selected
  /-- An edit succeeds if it has a place and the loaded fixtures can store a value there. -/
  accepted : ∀ registry cursor value,
    ((Action.updateFixture cursor value).run registry h.state).1 = .ok () ↔
      cursor ≠ [] ∧ ∃ now ∈ h.state.selected, ∃ fixtures ∈ now.fixtures, ∃ t,
        Tree.set (.arr fixtures.instances) cursor value = .ok t
  /-- An action that fails leaves the whole state as it is. -/
  failures : ∀ d error next, Dispatch.run d h.state = (.error error, next) → next = h.state

theorem dispatched_of (ds : List Dispatch) : (of ds).log.map (·.toDispatch) = ds := by
  induction ds using List.reverseRecOn with
  | nil => rfl
  | append_singleton ds d ih => simp [of_concat, extend, ih]

theorem components_of (ds : List Dispatch) :
    (of ds).state.components = last? (·.action.list?) ds := by
  induction ds using List.reverseRecOn with
  | nil => rfl
  | append_singleton ds d ih =>
    rw [of_concat, last?_concat, ← ih]
    exact Dispatch.components_run d (of ds).state

theorem chosen_of (ds : List Dispatch) :
    (of ds).state.selected.map (·.key) = last? (·.action.choice?) ds := by
  induction ds using List.reverseRecOn with
  | nil => rfl
  | append_singleton ds d ih =>
    rw [of_concat, last?_concat, ← ih, extend]
    rcases d.selected_run (of ds).state with ⟨key, hchoice, hnext⟩ |
      ⟨hchoice, ⟨hselected, hnext⟩ | ⟨now, next, hselected, hnext, hmove⟩⟩
    · rw [hchoice, hnext]
      rfl
    · rw [hchoice, hselected, hnext]
      rfl
    · rw [hchoice, hselected, hnext]
      exact congrArg some hmove.key

theorem selection_of (ds : List Dispatch) :
    ∀ now ∈ (of ds).state.selected, now.FollowsFrom (since (·.action.choice?) (of ds).log) := by
  induction ds using List.reverseRecOn with
  | nil => exact nofun
  | append_singleton ds d ih =>
    intro now hnow
    rw [of_concat, extend] at hnow ⊢
    rcases d.selected_run (of ds).state with ⟨key, hchoice, hnext⟩ |
      ⟨hchoice, ⟨-, hnext⟩ | ⟨before, next, hselected, hnext, hmove⟩⟩
    · cases hnext.symm.trans hnow
      rw [since_concat_some (fun r : Record => r.action.choice?) hchoice]
      exact ⟨rfl, rfl, .none⟩
    · cases hnext.symm.trans hnow
    · cases hnext.symm.trans hnow
      rw [since_concat_none (fun r : Record => r.action.choice?) hchoice]
      exact hmove.followsFrom (ih before hselected)

theorem replayed_of (ds : List Dispatch) :
    (of ds).state.selected = (last? (·.action.choice?) ds).bind fun key =>
      ((State.choosing key).replay (relevant key ds)).selected := by
  induction ds using List.reverseRecOn with
  | nil => rfl
  | append_singleton ds d ih =>
    rw [of_concat, last?_concat, extend]
    rcases d.selected_run (of ds).state with ⟨key, hchoice, hnext⟩ |
      ⟨hchoice, ⟨hselected, hnext⟩ | ⟨now, -, hselected, -, -⟩⟩
    · rw [hchoice, hnext]
      simp [relevant_concat_choice hchoice, State.replay, State.choosing]
    · rw [hchoice, ← chosen_of, hselected]
      exact hnext
    · have hlast : last? (fun d : Dispatch => d.action.choice?) ds = some now.key := by
        rw [← chosen_of, hselected]
        rfl
      rw [hlast, Option.bind_some] at ih
      rw [hchoice, hlast, Option.none_or, Option.bind_some, relevant_concat hchoice]
      cases hconcerns : d.action.concerns now.key with
      | true =>
        rw [if_pos rfl, State.replay_concat]
        exact Action.selected_run_congr ih d.action
      | false =>
        rw [if_neg Bool.false_ne_true, List.append_nil, ← ih, hselected]
        exact Dispatch.selected_run_stale hselected hchoice hconcerns

/-- Every part of the state follows from the log. -/
theorem determined_of (ds : List Dispatch) : (of ds).Determined ds where
  dispatched := dispatched_of ds
  components := components_of ds
  chosen := chosen_of ds
  selection := selection_of ds
  props now hnow := (selection_of ds now hnow).keys
  replayed := replayed_of ds
  accepted _ _ _ := Action.answer_updateFixture
  failures _ _ _ := Action.run_error

end History

end FixtureBench
