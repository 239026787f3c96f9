import FixtureBench.Cursor.Access
import FixtureBench.Proofs.Cursor.Step
import FixtureBench.PropValue

/-!
# Writing through a cursor

A successful write stores the value at its cursor and changes nothing that a cursor apart from it
reaches; steps are compared by key, so an index and the key that spells it are one step. Every
container on the way keeps its kind and its children in order, and only the container of the
written node can gain a child, after the others. `Tree.written_of_set` collects this for trees over
any leaves.
-/

namespace FixtureBench

def Cursor.keys (c : Cursor) : List String := c.map Step.asKey

namespace Tree

variable {ε : Type}

/-- What a container is apart from its children's values: its kind, and the keys of the children in
order. The key of an item is its index. -/
structure Layout where
  isArray : Bool
  keys : List String

def Layout.grow (l : Layout) (key : String) : Layout := ⟨l.isArray, l.keys ++ [key]⟩

def layout? : Tree ε → Option Layout
  | arr items => some ⟨true, (List.range items.length).map toString⟩
  | obj members => some ⟨false, members.keys⟩
  | _ => none

/-- What a write may change: the second tree comes from the first by a write at a cursor. -/
structure Written (before : Tree ε) (cursor : Cursor) (value : Tree ε) (after : Tree ε) :
    Prop where
  stored : after.get? cursor = some value
  /-- A cursor that is neither above nor below the written one reaches what it reached before. -/
  apart : ∀ other : Cursor, ¬ other.keys <+: cursor.keys → ¬ cursor.keys <+: other.keys →
    after.get? other = before.get? other
  /-- A node above the written one is a container, and stays the same but for its children's
  values. If it is the parent it may have one child more. -/
  containers : ∀ (above : Cursor) (key : String) (rest : List String),
    cursor.keys = above.keys ++ key :: rest →
      ∃ old new layout, before.get? above = some old ∧ after.get? above = some new ∧
        old.layout? = some layout ∧
        (new.layout? = some layout ∨ rest = [] ∧ new.layout? = some (layout.grow key))

/-- Steps with one key address one child. -/
theorem child?_congr {s t : Step} (h : s.asKey = t.asKey) (node : Tree ε) :
    node.child? s = node.child? t := by
  cases node with
  | arr items => rw [child?, child?, Step.asIndex?_eq, Step.asIndex?_eq, h]
  | obj members => rw [child?, child?, h]
  | _ => rfl

theorem get?_congr {c d : Cursor} (h : c.keys = d.keys) (t : Tree ε) : t.get? c = t.get? d := by
  induction c generalizing d t with
  | nil => rw [List.map_eq_nil_iff.1 h.symm]
  | cons s rest ih =>
    obtain ⟨s', rest', rfl, hs, hrest⟩ := List.map_eq_cons_iff.1 h.symm
    rw [get?, get?, child?_congr hs]
    exact congrArg _ (funext fun child => ih hrest.symm child)

section Write

variable [NodeNames ε] {missing : CursorError} {t t' value : Tree ε} {step : Step}

/-- How a child is stored: in place of an item, after the last item, or as a member. -/
theorem setChild_cases (h : t.setChild step value = .ok t') :
    (∃ items i, t = .arr items ∧ step.asIndex? = some i ∧ i < items.length ∧
      t' = .arr (items.set i value)) ∨
    (∃ items, t = .arr items ∧ step.asIndex? = some items.length ∧ t' = .arr (items ++ [value])) ∨
    ∃ members, t = .obj members ∧ t' = .obj (members.insert step.asKey value) := by
  cases t with
  | arr items =>
    rw [setChild, setItem] at h
    cases hindex : step.asIndex? with
    | none =>
      rw [hindex] at h
      cases h
    | some i =>
      simp only [hindex] at h
      split at h
      · rename_i hlt
        cases h
        exact .inl ⟨items, i, rfl, rfl, hlt, rfl⟩
      · split at h
        · rename_i hlength
          cases h
          exact .inr (.inl ⟨items, rfl, hlength ▸ rfl, rfl⟩)
        · cases h
  | obj members =>
    cases h
    exact .inr (.inr ⟨members, rfl, rfl⟩)
  | _ => cases h

theorem child?_setChild (h : t.setChild step value = .ok t') : t'.child? step = some value := by
  rcases setChild_cases h with ⟨items, i, rfl, hindex, hlt, rfl⟩ | ⟨items, rfl, hindex, rfl⟩ |
    ⟨members, rfl, rfl⟩
  · simp [child?, hindex, hlt]
  · simp [child?, hindex]
  · simp [child?]

theorem child?_setChild_ne (h : t.setChild step value = .ok t') {other : Step}
    (hne : other.asKey ≠ step.asKey) : t'.child? other = t.child? other := by
  rcases setChild_cases h with ⟨items, i, rfl, hindex, hlt, rfl⟩ | ⟨items, rfl, hindex, rfl⟩ |
    ⟨members, rfl, rfl⟩
  · cases hother : other.asIndex? with
    | none => simp [child?, hother]
    | some j =>
      have hij : i ≠ j := by
        rintro rfl
        exact hne (Step.asKey_eq_of_asIndex? hother hindex)
      simp [child?, hother, List.getElem?_set_ne hij]
  · cases hother : other.asIndex? with
    | none => simp [child?, hother]
    | some j =>
      have hij : items.length ≠ j := by
        rintro rfl
        exact hne (Step.asKey_eq_of_asIndex? hother hindex)
      rcases Nat.lt_or_gt_of_ne hij with hlt | hlt
      · have hlength : (items ++ [value]).length ≤ j := by
          rw [List.length_append]
          exact hlt
        simp only [child?, hother, Option.bind_some, List.getElem?_eq_none hlength,
          List.getElem?_eq_none (Nat.le_of_lt hlt)]
      · simp [child?, hother, List.getElem?_append_left hlt]
  · simp [child?, hne]

/-- Storing a child keeps the layout, unless the child was not there: then it comes last. -/
theorem layout?_setChild (h : t.setChild step value = .ok t') :
    ∃ layout, t.layout? = some layout ∧
      (t'.layout? = some layout ∨
        t.child? step = none ∧ t'.layout? = some (layout.grow step.asKey)) := by
  rcases setChild_cases h with ⟨items, i, rfl, hindex, hlt, rfl⟩ | ⟨items, rfl, hindex, rfl⟩ |
    ⟨members, rfl, rfl⟩
  · exact ⟨_, rfl, .inl (by simp [layout?])⟩
  · refine ⟨_, rfl, .inr ⟨by simp [child?, hindex], ?_⟩⟩
    rw [(Step.asIndex?_eq_some.1 hindex).2]
    simp [layout?, Layout.grow, List.range_succ]
  · refine ⟨_, rfl, ?_⟩
    by_cases hkey : step.asKey ∈ members.keys
    · exact .inl (by simp [layout?, Keyed.keys_insert, hkey])
    · refine .inr ⟨Keyed.get?_eq_none_iff.2 hkey, ?_⟩
      simp [layout?, Layout.grow, Keyed.keys_insert, hkey]

/-- A write below a child stores a changed child; only a write of the child itself may find none. -/
theorem setOr_cons {rest : Cursor} (h : t.setOr missing (step :: rest) value = .ok t') :
    ∃ child', t.setChild step child' = .ok t' ∧
      (rest = [] ∧ child' = value ∨
        ∃ child, t.child? step = some child ∧ child.setOr missing rest value = .ok child') := by
  cases rest with
  | nil => exact ⟨value, h, .inl ⟨rfl, rfl⟩⟩
  | cons next rest =>
    simp only [setOr] at h
    cases hchild : t.child? step with
    | none =>
      rw [hchild] at h
      cases h
    | some child =>
      simp only [hchild] at h
      cases hset : child.setOr missing (next :: rest) value with
      | error e =>
        rw [hset] at h
        cases h
      | ok child' =>
        rw [hset] at h
        exact ⟨child', h, .inr ⟨child, rfl, hset⟩⟩

/-- A write into an object stores a member, which is there before unless it is written itself. -/
theorem setOr_obj {members : Keyed (Tree ε)} {rest : Cursor} :
    (obj members).setOr missing (step :: rest) value = .ok t' ↔
      ∃ child', t' = obj (members.insert step.asKey child') ∧
        (rest = [] ∧ child' = value ∨ ∃ child, members.get? step.asKey = some child ∧
          child.setOr missing rest value = .ok child') := by
  constructor
  · intro h
    obtain ⟨child', hstore, hchild⟩ := setOr_cons h
    exact ⟨child', (Except.ok.inj hstore).symm, hchild⟩
  · rintro ⟨child', rfl, ⟨rfl, rfl⟩ | ⟨child, hchild, hset⟩⟩
    · rfl
    · cases rest with
      | nil =>
        cases hset
        rfl
      | cons next rest =>
        simp only [setOr, child?, hchild, hset]
        rfl

theorem setOr_item {items : List (Tree ε)} {i : Nat} (hindex : step.asIndex? = some i)
    (hitem : items[i]? = some t) (next : Step) (rest : Cursor) :
    (arr items).setOr missing (step :: next :: rest) value =
      (t.setOr missing (next :: rest) value).map fun t' => arr (items.set i t') := by
  have hlt : i < items.length := (List.getElem?_eq_some_iff.1 hitem).1
  simp only [setOr, child?, hindex, Option.bind_some, hitem]
  cases t.setOr missing (next :: rest) value with
  | error error => rfl
  | ok t' =>
    change (arr items).setChild step t' = _
    simp [setChild, setItem, hindex, hlt, Except.map]

theorem exists_setChild {child : Tree ε} (h : t.child? step = some child) :
    ∃ t', t.setChild step value = .ok t' := by
  cases t with
  | arr items =>
    obtain ⟨i, hindex, hitem⟩ := Option.bind_eq_some_iff.1 h
    have hlt : i < items.length := (List.getElem?_eq_some_iff.1 hitem).1
    exact ⟨arr (items.set i value), by simp [setChild, setItem, hindex, hlt, Except.map]⟩
  | obj members => exact ⟨_, rfl⟩
  | _ => cases h

theorem exists_setOr {cursor : Cursor} {old : Tree ε} (h : t.get? cursor = some old) :
    ∃ t', t.setOr missing cursor value = .ok t' := by
  induction cursor generalizing t with
  | nil => exact ⟨value, rfl⟩
  | cons step rest ih =>
    obtain ⟨child, hchild, hrest⟩ := Option.bind_eq_some_iff.1 h
    cases rest with
    | nil => exact exists_setChild hchild
    | cons next rest =>
      obtain ⟨child', hset⟩ := ih hrest
      obtain ⟨t', hstore⟩ : ∃ t', t.setChild step child' = .ok t' := exists_setChild hchild
      refine ⟨t', ?_⟩
      simp only [setOr, hchild, hset]
      exact hstore

theorem get?_setOr {cursor : Cursor} (h : t.setOr missing cursor value = .ok t') :
    t'.get? cursor = some value := by
  induction cursor generalizing t t' with
  | nil =>
    cases h
    rfl
  | cons step rest ih =>
    obtain ⟨child', hstore, ⟨rfl, rfl⟩ | ⟨child, -, hset⟩⟩ := setOr_cons h
    · simp [get?, child?_setChild hstore]
    · simp [get?, child?_setChild hstore, ih hset]

theorem get?_setOr_apart {cursor other : Cursor} (h : t.setOr missing cursor value = .ok t')
    (above : ¬ other.keys <+: cursor.keys) (below : ¬ cursor.keys <+: other.keys) :
    t'.get? other = t.get? other := by
  induction cursor generalizing t t' other with
  | nil => exact absurd List.nil_prefix below
  | cons step rest ih =>
    cases other with
    | nil => exact absurd List.nil_prefix above
    | cons step' rest' =>
      obtain ⟨child', hstore, hchild⟩ := setOr_cons h
      by_cases hkey : step'.asKey = step.asKey
      · simp only [Cursor.keys, List.map_cons, hkey, List.cons_prefix_cons, true_and] at above below
        rw [get?, get?, child?_congr hkey, child?_congr hkey, child?_setChild hstore]
        rcases hchild with ⟨rfl, rfl⟩ | ⟨child, hchild, hset⟩
        · exact absurd List.nil_prefix below
        · rw [hchild]
          exact ih hset above below
      · rw [get?, get?, child?_setChild_ne hstore hkey]

theorem layout?_setOr {cursor above : Cursor} {key : String} {rest : List String}
    (h : t.setOr missing cursor value = .ok t') (hkeys : cursor.keys = above.keys ++ key :: rest) :
    ∃ old new layout, t.get? above = some old ∧ t'.get? above = some new ∧
      old.layout? = some layout ∧
      (new.layout? = some layout ∨ rest = [] ∧ new.layout? = some (layout.grow key)) := by
  induction cursor generalizing t t' above with
  | nil => exact absurd hkeys.symm (List.append_ne_nil_of_right_ne_nil _ (List.cons_ne_nil _ _))
  | cons step below ih =>
    obtain ⟨child', hstore, hchild⟩ := setOr_cons h
    cases above with
    | nil =>
      obtain ⟨hkey, hrest⟩ := List.cons.inj hkeys
      obtain ⟨layout, hold, hnew⟩ := layout?_setChild hstore
      refine ⟨t, t', layout, rfl, rfl, hold, hnew.imp_right fun ⟨hnone, hgrow⟩ => ?_⟩
      rcases hchild with ⟨rfl, -⟩ | ⟨child, hsome, -⟩
      · exact ⟨hrest.symm, hkey ▸ hgrow⟩
      · exact absurd (hnone.symm.trans hsome) (Option.some_ne_none child).symm
    | cons step' above =>
      obtain ⟨hkey, hrest⟩ := List.cons.inj hkeys
      rcases hchild with ⟨rfl, -⟩ | ⟨child, hsome, hset⟩
      · exact absurd hrest.symm (List.append_ne_nil_of_right_ne_nil _ (List.cons_ne_nil _ _))
      · rw [get?, get?, ← child?_congr hkey, ← child?_congr hkey, child?_setChild hstore, hsome]
        exact ih hset hrest

/-- A successful write stores its value, keeps what is apart from it, and grows no container but
the parent of the written node, which may get one child more at its end. -/
theorem written_of_set {cursor : Cursor} (h : t.set cursor value = .ok t') :
    t.Written cursor value t' where
  stored := get?_setOr h
  apart _ := get?_setOr_apart h
  containers _ _ _ := layout?_setOr h

end Write

/-- The second item of an array is reached by the key that spells its index, and the index adds a
member to it. -/
theorem written_of_set_spelled :
    Written (ε := Handle) (.obj ⟨[("a", .arr [.null, .obj {}]), ("b", .null)]⟩)
      [.key "a", .key "1", .index 7] (.bool true)
      (.obj ⟨[("a", .arr [.null, .obj ⟨[("7", .bool true)]⟩]), ("b", .null)]⟩) :=
  written_of_set rfl

end Tree

end FixtureBench
