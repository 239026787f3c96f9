import FixtureBench.Proofs.Fixtures
import FixtureBench.Proofs.Store.Log

/-!
# A document is loaded, edited and saved

Fixtures that were loaded for the selection stay until others are loaded or another component is
chosen; what happens in between only stores values in their instances. So the bench saves the
document that it loaded: the instances as they are now, and every other member as it was.
-/

namespace FixtureBench

namespace History

def start (s : State) (ds : List Dispatch) : History := ds.foldl extend ⟨[], s⟩

/-- The selection of a key has fixtures that came from given ones by the edits in the log. -/
def Shows (h : History) (key : String) (loaded : Fixtures) : Prop :=
  ∃ now f, h.state.selected = some now ∧ now.key = key ∧ now.fixtures = some f ∧
    Fixtures.Edited (h.log.filterMap (·.edit?)) loaded f

variable {h : History} {key : String} {loaded : Fixtures}

/-- An action that chooses nothing and loads no fixtures for the key keeps them, or edits them. -/
theorem Shows.extend (hshows : h.Shows key loaded) {d : Dispatch}
    (hchoice : d.action.choice? = none) (hload : d.action.fixtures? key = none) :
    (h.extend d).Shows key loaded := by
  obtain ⟨now, f, hselected, rfl, hfixtures, hedited⟩ := hshows
  obtain ⟨next, hnext, hmove⟩ := Dispatch.moves hselected hchoice
  have hmoved := hmove.fixtures
  rw [hfixtures] at hmoved
  have hlog : (h.extend d).log.filterMap (·.edit?) = h.log.filterMap (·.edit?) ++
      (Record.edit? ⟨d, (d.run h.state).1⟩).toList := by
    rw [History.extend, List.filterMap_append]
    cases hedit : Record.edit? ⟨d, (d.run h.state).1⟩ <;> simp [hedit]
  generalize hafter : next.fixtures = after at hmoved
  cases hmoved with
  | kept _ hedit =>
    refine ⟨next, f, hnext, hmove.key, hafter, ?_⟩
    rw [hlog, hedit]
    simpa using hedited
  | loaded hother =>
    rw [hload] at hother
    cases hother
  | edited _ hedit hset =>
    refine ⟨next, _, hnext, hmove.key, hafter, ?_⟩
    rw [hlog, hedit]
    exact hedited.concat hset

theorem Shows.foldl (hshows : h.Shows key loaded) {ds : List Dispatch}
    (keeps : ∀ d ∈ ds, d.action.choice? = none ∧ d.action.fixtures? key = none) :
    (ds.foldl History.extend h).Shows key loaded := by
  induction ds generalizing h with
  | nil => exact hshows
  | cons d rest ih =>
    obtain ⟨hchoice, hload⟩ := keeps d List.mem_cons_self
    exact ih (hshows.extend hchoice hload) fun d hd => keeps d (List.mem_cons_of_mem _ hd)

theorem shows_start {s : State} {now : Selection} (hselected : s.selected = some now)
    (registry : Registry) (loaded : Fixtures) {ds : List Dispatch}
    (keeps : ∀ d ∈ ds, d.action.choice? = none ∧ d.action.fixtures? now.key = none) :
    (start s (⟨registry, .fixturesLoaded now.key loaded⟩ :: ds)).Shows now.key loaded := by
  have hload : (History.extend ⟨[], s⟩ ⟨registry, .fixturesLoaded now.key loaded⟩).Shows now.key
      loaded := by
    refine ⟨{ now with fixtures := some loaded }, loaded, ?_, rfl, rfl, rfl, rfl⟩
    rw [extend, Dispatch.run, Action.run_fixturesLoaded, State.selected_modifySelected hselected,
      if_pos rfl]
  exact hload.foldl keeps

end History

namespace Fixtures

theorem Edited.eq_of_nil {loaded f : Fixtures} (h : Edited [] loaded f) : f = loaded := by
  obtain ⟨hinstances, hextra⟩ := h
  obtain ⟨instances, extra⟩ := f
  cases hinstances
  cases hextra
  rfl

open History in
/-- A document that is read is kept through any edits of its instances, and fixtures that are
written are read again. -/
theorem document_kept :
    (∀ doc : Json, (∃ f, ofJson doc = .ok f) ↔
      ∃ members, doc = .obj members ∧ (members.get? instancesKey = none ∨
        ∃ items, members.get? instancesKey = some (.arr items))) ∧
    (∀ (members : Keyed Json) (loaded : Fixtures), (Tree.obj members).WellFormed →
      ofJson (.obj members) = .ok loaded →
      ∀ (s : State) (chosen : Selection) (registry : Registry) (ds : List Dispatch),
        s.selected = some chosen →
        (∀ d ∈ ds, d.action.choice? = none ∧ d.action.fixtures? chosen.key = none) →
        let h := start s (⟨registry, .fixturesLoaded chosen.key loaded⟩ :: ds)
        ∃ now f, h.state.selected = some now ∧ now.fixtures = some f ∧
          Edited (h.log.filterMap (·.edit?)) loaded f ∧
          f.toJson = .obj ⟨(instancesKey, .arr (f.instances.map PropValue.toJson)) ::
            members.entries.filter (·.1 ≠ instancesKey)⟩ ∧
          (h.log.filterMap (·.edit?) = [] → (members.get? instancesKey).isSome →
            (f.toJson == .obj members) = true)) ∧
    ∀ f : Fixtures, f.extra.Distinct → instancesKey ∉ f.extra.keys →
      ofJson f.toJson = .ok f.plain := by
  refine ⟨fun _ => exists_ofJson_iff, ?_, fun _ => ofJson_toJson⟩
  intro members loaded wellFormed hread s chosen registry ds hselected keeps h
  obtain ⟨now, f, hnow, -, hfixtures, hedited⟩ := shows_start hselected registry loaded keeps
  refine ⟨now, f, hnow, hfixtures, hedited, ?_, fun hnone hlist => ?_⟩
  · rw [toJson_of_others (Tree.wellFormed_obj.1 wellFormed).1
      (hedited.2.trans (extra_of_ofJson hread)), instancesJson, PropValue.toJson_arr]
    rfl
  · rw [hnone] at hedited
    rw [hedited.eq_of_nil]
    exact toJson_beq wellFormed hread hlist

def instancesLast : Keyed Json :=
  ⟨[("author", .str "x"), ("instances", .arr [.obj ⟨[("label", .num .zero)]⟩])]⟩

open History in
/-- The document is loaded, its label is edited, and it is written with the instances first. -/
theorem document_kept_instancesLast :
    ∃ loaded now f, ofJson (.obj instancesLast) = .ok loaded ∧
      (start ⟨none, some (.ofKey "spinner")⟩ [⟨.empty, .fixturesLoaded "spinner" loaded⟩,
        ⟨.empty, .updateFixture [.index 0, .key "label"] (.str "two")⟩]).state.selected = some now ∧
      now.fixtures = some f ∧
      f.toJson =
        .obj ⟨[("instances", .arr [.obj ⟨[("label", .str "two")]⟩]), ("author", .str "x")]⟩ := by
  have wellFormed : (Tree.obj instancesLast).WellFormed := by
    simp [instancesLast, Tree.WellFormed, Tree.WellFormedItems, Tree.WellFormedEntries]
  obtain ⟨now, f, hnow, hfixtures, ⟨hedited, -⟩, hdocument, -⟩ :=
    document_kept.2.1 instancesLast _ wellFormed rfl ⟨none, some (.ofKey "spinner")⟩
      (.ofKey "spinner") .empty [⟨.empty, .updateFixture [.index 0, .key "label"] (.str "two")⟩]
      rfl (List.forall_mem_singleton.2 ⟨rfl, rfl⟩)
  have hinstances : f.instances = [.obj ⟨[("label", .str "two")]⟩] :=
    (Tree.arr.inj (Except.ok.inj hedited)).symm
  rw [hinstances] at hdocument
  exact ⟨_, now, f, rfl, hnow, hfixtures, hdocument⟩

end Fixtures

end FixtureBench
