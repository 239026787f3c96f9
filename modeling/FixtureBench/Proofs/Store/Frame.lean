import FixtureBench.Proofs.Store.Run

/-!
# What an edit touches

An edit is refused before the fixtures are looked at, or answered as the write below the list of
instances. A write that succeeds leaves a list, in which at most the instance that the first step of
the cursor addresses is another one, and an instance can only be added after the last.
`Action.run_updateFixture_frame` says so for every state, in which nothing else changes.
-/

namespace FixtureBench

/-- The list of instances `after` comes from `before` by an edit at a cursor. -/
structure Fixtures.InstancesEdited (before : List PropValue) (cursor : Cursor)
    (after : List PropValue) : Prop where
  count : after.length = before.length ∨ after.length = before.length + 1
  /-- An instance is added if the cursor is the index after the last one, and never else. -/
  grows : after.length = before.length + 1 ↔
    ∃ step, cursor = [step] ∧ step.asIndex? = some before.length
  /-- The first step addresses the only instance that may be another one. -/
  others : ∃ step ∈ cursor.head?, ∃ i, step.asIndex? = some i ∧ ∀ j, j ≠ i → after[j]? = before[j]?

namespace Tree

variable {before after : List PropValue} {cursor : Cursor} {value : PropValue}

theorem instancesEdited_of_set (hcursor : cursor ≠ [])
    (h : Tree.set (.arr before) cursor value = .ok (.arr after)) :
    Fixtures.InstancesEdited before cursor after := by
  obtain ⟨step, rest, rfl⟩ := List.exists_cons_of_ne_nil hcursor
  obtain ⟨child, hstore, hchild⟩ := setOr_cons h
  rcases setChild_cases hstore with ⟨items, i, hitems, hindex, hlt, hafter⟩ |
    ⟨items, hitems, hindex, hafter⟩ | ⟨members, hmembers, -⟩
  · obtain rfl := arr.inj hitems
    obtain rfl := arr.inj hafter
    refine ⟨.inl List.length_set, iff_of_false ?_ ?_, step, rfl, i, hindex, ?_⟩
    · rw [List.length_set]
      omega
    · rintro ⟨last, hlast, hlength⟩
      obtain ⟨rfl, -⟩ := List.cons.inj hlast
      rw [hindex] at hlength
      exact Nat.ne_of_lt hlt (Option.some.inj hlength)
    · intro j hj
      exact List.getElem?_set_ne hj.symm
  · obtain rfl := arr.inj hitems
    obtain rfl := arr.inj hafter
    -- Below the slot after the last item there is nothing to write into.
    obtain rfl : rest = [] := by
      rcases hchild with ⟨hrest, -⟩ | ⟨old, hold, -⟩
      · exact hrest
      · simp [child?, hindex] at hold
    refine ⟨.inr (by simp), iff_of_true (by simp) ⟨step, rfl, hindex⟩, step, rfl, _, hindex, ?_⟩
    intro j hj
    rcases Nat.lt_or_gt_of_ne hj with hlt | hlt
    · exact List.getElem?_append_left hlt
    · rw [List.getElem?_eq_none (by simp; omega), List.getElem?_eq_none (by omega)]
  · cases hmembers

end Tree

namespace Action

/-- What becomes of an edit. Without a place, a selection or fixtures it is refused, and so it is if
the write below the list of instances is refused; the state is left as it was. Any other edit
stores the list that the write leaves, and this is all that it changes. -/
theorem run_updateFixture_frame (registry : Registry) (s : State) (cursor : Cursor)
    (value : PropValue) :
    (cursor = [] → (updateFixture cursor value).run registry s = (.error .emptyCursor, s)) ∧
    (cursor ≠ [] → s.selected = none →
      (updateFixture cursor value).run registry s = (.error .noSelection, s)) ∧
    (∀ selected, cursor ≠ [] → s.selected = some selected → selected.fixtures = none →
      (updateFixture cursor value).run registry s =
        (.error (.fixturesNotLoaded selected.key), s)) ∧
    ∀ selected fixtures, cursor ≠ [] → s.selected = some selected →
      selected.fixtures = some fixtures →
      (∀ error, (updateFixture cursor value).run registry s = (.error (.cursor error), s) ↔
        Tree.set (.arr fixtures.instances) cursor value = .error error) ∧
      ∀ t, Tree.set (.arr fixtures.instances) cursor value = .ok t → ∃ instances,
        t = .arr instances ∧ Fixtures.InstancesEdited fixtures.instances cursor instances ∧
        (updateFixture cursor value).run registry s = (.ok (), { s with
          selected := some { selected with fixtures := some { fixtures with instances } } }) := by
  obtain ⟨components, selected?⟩ := s
  refine ⟨?_, ?_, ?_, ?_⟩
  · rintro rfl
    rfl
  · intro hcursor hnone
    obtain ⟨step, rest, rfl⟩ := List.exists_cons_of_ne_nil hcursor
    cases hnone
    rfl
  · intro selected hcursor hselected hnone
    obtain ⟨step, rest, rfl⟩ := List.exists_cons_of_ne_nil hcursor
    obtain ⟨key, reference, types, _⟩ := selected
    cases hselected
    cases hnone
    rfl
  · intro selected fixtures hcursor hselected hfixtures
    obtain ⟨step, rest, rfl⟩ := List.exists_cons_of_ne_nil hcursor
    cases hselected
    rw [run_updateFixture_cons hfixtures, Fixtures.update]
    cases hset : Tree.set (.arr fixtures.instances) (step :: rest) value with
    | error error =>
      constructor
      · intro error'
        change (Except.error (StoreError.cursor error), _) = _ ↔ _
        simp
      · intro t ht
        cases ht
    | ok t =>
      obtain ⟨instances, rfl⟩ := Tree.arr_of_set hcursor hset
      constructor
      · intro error
        change (Except.ok (), _) = _ ↔ _
        simp
      · intro t ht
        obtain rfl := Except.ok.inj ht
        exact ⟨instances, rfl, Tree.instancesEdited_of_set hcursor hset, rfl⟩

def oneInstance : State := ⟨none, some ⟨"spinner", none, none, some ⟨[.obj {}], {}⟩⟩⟩

/-- An instance is added by the key that spells the next index, and none beyond it. -/
theorem run_updateFixture_frame_oneInstance :
    Tree.set (.arr [.obj {}]) [.key "1"] (.null : PropValue) = .ok (.arr [.obj {}, .null]) ∧
    Fixtures.InstancesEdited [.obj {}] [.key "1"] [.obj {}, .null] ∧
    (updateFixture [.index 2] .null).run .empty oneInstance =
      (.error (.cursor (.indexOutOfBounds 2 1)), oneInstance) := by
  have next := run_updateFixture_frame .empty oneInstance [.key "1"] .null
  obtain ⟨instances, ht, edited, -⟩ := (next.2.2.2 _ _ (by simp) rfl rfl).2 _ rfl
  obtain rfl := Tree.arr.inj ht
  refine ⟨rfl, edited, ?_⟩
  have beyond := run_updateFixture_frame .empty oneInstance [.index 2] .null
  exact ((beyond.2.2.2 _ _ (by simp) rfl rfl).1 _).2 rfl

end Action

end FixtureBench
