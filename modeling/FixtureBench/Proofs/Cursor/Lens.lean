import FixtureBench.Proofs.Cursor.Pointer

/-!
# Writes as a lens

A cursor reads and writes a tree as a lens does. Writing what is there changes nothing, a write of
a node that is there is the same as a replacement of the node in place, the second of two writes at
one cursor counts, and two writes at cursors apart from each other can change places. The trees are
equal as they stand, with the members of objects in the same order. `Tree.set_lawful` collects this
for trees over any leaves.
-/

namespace FixtureBench

namespace Tree

variable {ε : Type} {missing missing' : CursorError} {t t' value child old : Tree ε} {step : Step}

/-! ## Putting a child in place of another -/

theorem putChild_of_child? (h : t.child? step = some child) : t.putChild step child = t := by
  cases t with
  | arr items =>
    obtain ⟨i, hindex, hitem⟩ := Option.bind_eq_some_iff.1 h
    obtain ⟨hlt, rfl⟩ := List.getElem?_eq_some_iff.1 hitem
    rw [putChild, hindex]
    exact congrArg arr (List.set_getElem_self hlt)
  | obj members => exact congrArg obj (Keyed.insert_of_get? h)
  | _ => cases h

theorem replace?_of_get? {cursor : Cursor} (h : t.get? cursor = some old) :
    t.replace? cursor old = some t := by
  induction cursor generalizing t with
  | nil => exact h.symm
  | cons step rest ih =>
    obtain ⟨child, hchild, hrest⟩ := Option.bind_eq_some_iff.1 h
    rw [replace?, hchild, Option.bind_eq_bind, Option.bind_some, ih hrest]
    exact congrArg some (putChild_of_child? hchild)

section Write

variable [NodeNames ε]

theorem setChild_of_child? (h : t.child? step = some child) (value : Tree ε) :
    t.setChild step value = .ok (t.putChild step value) := by
  cases t with
  | arr items =>
    obtain ⟨i, hindex, hitem⟩ := Option.bind_eq_some_iff.1 h
    have hlt : i < items.length := (List.getElem?_eq_some_iff.1 hitem).1
    rw [setChild, setItem, putChild, hindex]
    simp only [hlt, if_true]
    rfl
  | obj members => rfl
  | _ => cases h

theorem setOr_child (h : t.child? step = some child) (rest : Cursor) (value : Tree ε) :
    t.setOr missing (step :: rest) value = child.setOr missing rest value >>= t.setChild step := by
  cases rest with
  | nil => rfl
  | cons next rest =>
    simp only [setOr, h]

/-- A write of a node that is there replaces it in place. -/
theorem setOr_of_get? {cursor : Cursor} (h : t.get? cursor = some old) (value : Tree ε) :
    ∃ t', t.replace? cursor value = some t' ∧ t.setOr missing cursor value = .ok t' := by
  induction cursor generalizing t with
  | nil => exact ⟨value, rfl, rfl⟩
  | cons step rest ih =>
    obtain ⟨child, hchild, hrest⟩ := Option.bind_eq_some_iff.1 h
    obtain ⟨child', hreplace, hset⟩ := ih hrest
    refine ⟨t.putChild step child', ?_, ?_⟩
    · rw [replace?, hchild, Option.bind_eq_bind, Option.bind_some, hreplace]
      rfl
    · rw [setOr_child hchild, hset]
      exact setChild_of_child? hchild child'

/-! ## Two writes at one cursor -/

/-- What was stored first makes no difference to what is stored under the same step. -/
theorem setChild_setChild (h : t.setChild step value = .ok t') (value' : Tree ε) :
    ∃ t'', t.setChild step value' = .ok t'' ∧ t'.setChild step value' = .ok t'' := by
  rcases setChild_cases h with ⟨items, i, rfl, hindex, hlt, rfl⟩ | ⟨items, rfl, hindex, rfl⟩ |
    ⟨members, rfl, rfl⟩
  · refine ⟨arr (items.set i value'), ?_, ?_⟩
    · simp [setChild, setItem, hindex, hlt, Except.map]
    · simp [setChild, setItem, hindex, hlt, Except.map]
  · -- The item that the first write has appended is in place for the second.
    refine ⟨arr (items ++ [value']), ?_, ?_⟩
    · simp [setChild, setItem, hindex, Except.map]
    · simp [setChild, setItem, hindex, Except.map]
  · refine ⟨obj (members.insert step.asKey value'), rfl, ?_⟩
    rw [setChild, Keyed.insert_insert]

theorem setOr_setOr {cursor : Cursor} (h : t.setOr missing cursor value = .ok t')
    (value' : Tree ε) :
    ∃ t'', t.setOr missing cursor value' = .ok t'' ∧ t'.setOr missing' cursor value' = .ok t'' := by
  induction cursor generalizing t t' with
  | nil => exact ⟨value', rfl, rfl⟩
  | cons step rest ih =>
    obtain ⟨child', hstore, ⟨rfl, rfl⟩ | ⟨child, hchild, hset⟩⟩ := setOr_cons h
    · exact setChild_setChild hstore value'
    · obtain ⟨child'', hfirst, hsecond⟩ := ih hset
      rw [setOr_child hchild, hfirst, setOr_child (child?_setChild hstore), hsecond]
      exact setChild_setChild hstore child''

/-! ## Two writes at cursors apart -/

theorem setChild_putChild_ne {step' : Step} {child' : Tree ε} (hne : step.asKey ≠ step'.asKey)
    (h : t.child? step = some child) (h' : t.child? step' = some child') (value value' : Tree ε) :
    t.setChild step value >>= (·.setChild step' value') =
      .ok ((t.putChild step value).putChild step' value') := by
  have hstore := setChild_of_child? h value
  have hkept := (child?_setChild_ne hstore (Ne.symm hne)).trans h'
  rw [hstore]
  exact setChild_of_child? hkept value'

/-- Children under different keys that are there are stored in any order. -/
theorem setChild_comm {step' : Step} {child' : Tree ε} (hne : step.asKey ≠ step'.asKey)
    (h : t.child? step = some child) (h' : t.child? step' = some child') (value value' : Tree ε) :
    t.setChild step value >>= (·.setChild step' value') =
      t.setChild step' value' >>= (·.setChild step value) := by
  rw [setChild_putChild_ne hne h h', setChild_putChild_ne (Ne.symm hne) h' h]
  refine congrArg Except.ok ?_
  cases t with
  | arr items =>
    obtain ⟨i, hindex, -⟩ := Option.bind_eq_some_iff.1 h
    obtain ⟨j, hindex', -⟩ := Option.bind_eq_some_iff.1 h'
    have hij : i ≠ j := by
      rintro rfl
      exact hne (Step.asKey_eq_of_asIndex? hindex hindex')
    simp only [putChild, hindex, hindex']
    exact congrArg arr (List.set_comm value value' hij)
  | obj members =>
    exact congrArg obj (Keyed.insert_comm hne (Keyed.exists_get?_iff.1 ⟨child, h⟩)
      (Keyed.exists_get?_iff.1 ⟨child', h'⟩) value value')
  | _ => cases h

/-- Two writes below one child are two writes into the child, which is then stored. -/
theorem setOr_below (h : t.child? step = some child) {step' : Step}
    (hkey : step'.asKey = step.asKey) (rest rest' : Cursor) (value value' : Tree ε) :
    t.setOr missing (step :: rest) value >>= (·.setOr missing' (step' :: rest') value') =
      child.setOr missing rest value >>= (·.setOr missing' rest' value') >>= t.setChild step := by
  rw [setOr_child h]
  cases child.setOr missing rest value with
  | error error => rfl
  | ok first =>
    obtain ⟨t', hstore⟩ : ∃ t', t.setChild step first = .ok t' := exists_setChild h
    have hchild : t'.child? step' = some first :=
      (child?_congr hkey t').trans (child?_setChild hstore)
    have hsecond : t'.setOr missing' (step' :: rest') value' =
        first.setOr missing' rest' value' >>= t.setChild step := by
      rw [setOr_child hchild]
      refine congrArg _ (funext fun second => ?_)
      obtain ⟨t'', hdirect, hagain⟩ := setChild_setChild hstore second
      rw [setChild_congr hkey, hagain, hdirect]
    change t.setChild step first >>= (·.setOr missing' (step' :: rest') value') = _
    rw [hstore]
    exact hsecond

/-- Two writes below different children are two writes into the children, which are then stored. -/
theorem setOr_beside {step' : Step} {child' first second : Tree ε} {rest rest' : Cursor}
    {value' : Tree ε} (hne : step.asKey ≠ step'.asKey) (h : t.child? step = some child)
    (h' : t.child? step' = some child') (hset : child.setOr missing rest value = .ok first)
    (hset' : child'.setOr missing' rest' value' = .ok second) :
    t.setOr missing (step :: rest) value >>= (·.setOr missing' (step' :: rest') value') =
      t.setChild step first >>= (·.setChild step' second) := by
  obtain ⟨t', hstore⟩ : ∃ t', t.setChild step first = .ok t' := exists_setChild h
  have hchild : t'.child? step' = some child' :=
    (child?_setChild_ne hstore (Ne.symm hne)).trans h'
  have hsecond : t'.setOr missing' (step' :: rest') value' = t'.setChild step' second := by
    rw [setOr_child hchild, hset']
    rfl
  rw [setOr_child h, hset]
  change t.setChild step first >>= (·.setOr missing' (step' :: rest') value') = _
  rw [hstore]
  exact hsecond

theorem setOr_comm {c d : Cursor} {old' : Tree ε} (h : t.get? c = some old)
    (h' : t.get? d = some old') (above : ¬ c.keys <+: d.keys) (below : ¬ d.keys <+: c.keys)
    (value value' : Tree ε) :
    t.setOr missing c value >>= (·.setOr missing' d value') =
      t.setOr missing' d value' >>= (·.setOr missing c value) := by
  induction c generalizing t d with
  | nil => exact absurd List.nil_prefix above
  | cons step rest ih =>
    cases d with
    | nil => exact absurd List.nil_prefix below
    | cons step' rest' =>
      obtain ⟨child, hchild, hrest⟩ := Option.bind_eq_some_iff.1 h
      obtain ⟨child', hchild', hrest'⟩ := Option.bind_eq_some_iff.1 h'
      by_cases hkey : step.asKey = step'.asKey
      · obtain rfl : child' = child :=
          Option.some.inj (hchild'.symm.trans ((child?_congr hkey.symm t).trans hchild))
        simp only [Cursor.keys, List.map_cons, hkey, List.cons_prefix_cons, true_and] at above below
        rw [setOr_below hchild hkey.symm, setOr_below hchild' hkey, ih hrest hrest' above below]
        exact congrArg _ (funext fun value => setChild_congr hkey t value)
      · obtain ⟨first, hset⟩ : ∃ first, child.setOr missing rest value = .ok first :=
          exists_setOr hrest
        obtain ⟨second, hset'⟩ : ∃ second, child'.setOr missing' rest' value' = .ok second :=
          exists_setOr hrest'
        rw [setOr_beside hkey hchild hchild' hset hset',
          setOr_beside (Ne.symm hkey) hchild' hchild hset' hset]
        exact setChild_comm hkey hchild hchild' first second

/-- Writing obeys the laws of a lens: writing what is there changes nothing, any other write of a
node that is there replaces it in place, and of two writes at one cursor the second counts, whether
the node was there before or not. Two writes of nodes that are there, at cursors of which neither is
above the other, succeed in any order and give one tree. -/
theorem set_lawful (t : Tree ε) :
    (∀ c old, t.get? c = some old → t.set c old = .ok t ∧
      ∀ value, ∃ t', t.replace? c value = some t' ∧ t.set c value = .ok t') ∧
    (∀ c value t', t.set c value = .ok t' → ∀ value',
      ∃ t'', t.set c value' = .ok t'' ∧ t'.set c value' = .ok t'') ∧
    ∀ c d old old', t.get? c = some old → t.get? d = some old' → ¬ c.keys <+: d.keys →
      ¬ d.keys <+: c.keys → ∀ value value', ∃ t',
        t.set c value >>= (·.set d value') = .ok t' ∧
          t.set d value' >>= (·.set c value) = .ok t' := by
  refine ⟨fun c old h => ⟨?_, fun value => setOr_of_get? h value⟩, ?_, ?_⟩
  · obtain ⟨t', hreplace, hset⟩ := setOr_of_get? h old
    rw [replace?_of_get? h] at hreplace
    obtain rfl := Option.some.inj hreplace
    exact hset
  · intro c value t' h value'
    exact setOr_setOr h value'
  · intro c d old old' h h' above below value value'
    obtain ⟨first, hfirst⟩ : ∃ first, t.set c value = .ok first := exists_setOr h
    have hkept : first.get? d = some old' := (get?_setOr_apart hfirst below above).trans h'
    obtain ⟨t', hsecond⟩ : ∃ t', first.set d value' = .ok t' := exists_setOr hkept
    have hboth : t.set c value >>= (·.set d value') = .ok t' := by
      rw [hfirst]
      exact hsecond
    exact ⟨t', hboth, (setOr_comm h h' above below value value').symm.trans hboth⟩

end Write

/-- A member that is written as it is, an item that is appended and written again, and two writes
apart of which one spells its index as a key. -/
theorem set_lawful_list :
    Tree.set (.obj ⟨[("b", .null), ("a", .bool true)]⟩ : Json) [.key "b"] .null =
      .ok (.obj ⟨[("b", .null), ("a", .bool true)]⟩) ∧
    (∃ t : Json, Tree.set (.arr [.null]) [.key "1"] (.str "b") = .ok t ∧
      Tree.set (.arr [.null, .str "a"]) [.key "1"] (.str "b") = .ok t) ∧
    ∃ t : Json, Tree.set (.arr [.null, .obj ⟨[("a", .null)]⟩]) [.key "0"] (.str "b") >>=
        (·.set [.index 1, .key "a"] (.str "c")) = .ok t ∧
      Tree.set (.arr [.null, .obj ⟨[("a", .null)]⟩]) [.index 1, .key "a"] (.str "c") >>=
        (·.set [.key "0"] (.str "b")) = .ok t :=
  ⟨((set_lawful _).1 _ _ rfl).1, (set_lawful _).2.1 _ (.str "a") _ rfl _,
    (set_lawful _).2.2 _ _ .null .null rfl rfl (by decide) (by decide) _ _⟩

end Tree

end FixtureBench
