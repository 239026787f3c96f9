import FixtureBench.Proofs.Cursor.Lens

/-!
# Why a write is refused

A write is refused for four reasons, each of which can be told from what the cursor without its
last step leads to: nothing, a node without children, or an array whose items the last step does not
fit. `Tree.set_refused_iff` says that there are no others, and that a write in place that is refused
leaves the document as it was. A write that is not refused makes of a copy what it makes in place.
-/

namespace FixtureBench

namespace Tree

variable {ε : Type} [NodeNames ε]

/-- Why a node cannot store a child. -/
inductive RefusesChild : Tree ε → Step → CursorError → Prop where
  /-- Only arrays and objects have children. -/
  | notContainer {found : Tree ε} {last : Step} (notArray : ∀ items, found ≠ .arr items)
      (notObject : ∀ members, found ≠ .obj members) :
      RefusesChild found last (.notContainer last.asKey found.typeName)
  /-- The key does not spell the index of an item. -/
  | invalidIndex {items : List (Tree ε)} {key : String}
      (unspelled : ∀ n < UInt64.size, key ≠ toString n) :
      RefusesChild (.arr items) (.key key) (.invalidIndex key)
  /-- The slot lies beyond the one after the last item. -/
  | indexOutOfBounds {items : List (Tree ε)} {last : Step} {i : Nat}
      (index : last.asIndex? = some i) (beyond : items.length < i) :
      RefusesChild (.arr items) last (.indexOutOfBounds i items.length)

/-- Why a document cannot store a node at a cursor. -/
inductive Refuses (t : Tree ε) : Cursor → CursorError → Prop where
  /-- Nothing is there to store into. -/
  | notFound {init : Cursor} {last : Step} (absent : t.get? init = none) :
      Refuses t (init ++ [last]) (.notFound (Pointer.format init))
  /-- What is there cannot store the child. -/
  | child {init : Cursor} {last : Step} {found : Tree ε} {error : CursorError}
      (there : t.get? init = some found) (refused : found.RefusesChild last error) :
      Refuses t (init ++ [last]) error

variable {t t' : Tree ε} {error : CursorError}

/-! ## The last step -/

theorem setItem_eq_error {items : List (Tree ε)} {last : Step} (value : Tree ε) :
    setItem items last value = .error error ↔ (arr items).RefusesChild last error := by
  constructor
  · intro h
    rw [setItem] at h
    cases hindex : last.asIndex? with
    | none =>
      obtain ⟨key, rfl, unspelled⟩ := Step.asIndex?_eq_none.1 hindex
      rw [hindex] at h
      obtain rfl := Except.error.inj h
      exact .invalidIndex unspelled
    | some i =>
      simp only [hindex] at h
      split_ifs at h with hlt hlength
      obtain rfl := Except.error.inj h
      exact .indexOutOfBounds hindex (by omega)
  · intro h
    rw [setItem]
    cases h with
    | notContainer notArray => exact absurd rfl (notArray items)
    | invalidIndex unspelled => rw [Step.asIndex?_eq_none.2 ⟨_, rfl, unspelled⟩]; rfl
    | indexOutOfBounds index beyond =>
      simp only [index]
      rw [if_neg (by omega), if_neg (by omega)]

theorem setChild_eq_error {last : Step} (value : Tree ε) :
    t.setChild last value = .error error ↔ t.RefusesChild last error := by
  cases t with
  | arr items =>
    rw [setChild, ← setItem_eq_error value]
    cases setItem items last value <;> simp [Except.map]
  | obj members =>
    constructor
    · intro h
      cases h
    · intro h
      cases h with
      | notContainer notArray notObject => exact absurd rfl (notObject members)
  | _ =>
    constructor
    · intro h
      cases h
      exact .notContainer (by simp) (by simp)
    · intro h
      cases h
      rfl

/-! ## The steps before it -/

/-- A write goes to what the cursor without its last step leads to. -/
theorem setOr_concat (missing : CursorError) (t : Tree ε) (init : Cursor) (last : Step)
    (value : Tree ε) :
    t.setOr missing (init ++ [last]) value =
      match t.get? init with
      | none => .error missing
      | some found => found.setChild last value >>= t.setOr missing init := by
  induction init generalizing t with
  | nil =>
    change t.setChild last value = t.setChild last value >>= fun t' => .ok t'
    exact (bind_pure _).symm
  | cons step rest ih =>
    rw [List.cons_append, get?]
    cases hchild : t.child? step with
    | none =>
      cases rest <;> simp [setOr, hchild]
    | some child =>
      rw [setOr_child hchild, ih, Option.bind_some]
      cases child.get? rest with
      | none => rfl
      | some found =>
        simp only [bind_assoc]
        exact congrArg _ (funext fun value => (setOr_child hchild rest value).symm)

theorem refuses_concat {init : Cursor} {last : Step} :
    t.Refuses (init ++ [last]) error ↔
      t.get? init = none ∧ error = .notFound (Pointer.format init) ∨
        ∃ found, t.get? init = some found ∧ found.RefusesChild last error := by
  constructor
  · generalize hcursor : init ++ [last] = cursor
    intro h
    cases h with
    | notFound absent =>
      obtain ⟨rfl, -⟩ := List.append_inj' hcursor rfl
      exact .inl ⟨absent, rfl⟩
    | child there refused =>
      obtain ⟨rfl, hlast⟩ := List.append_inj' hcursor rfl
      obtain rfl := List.singleton_inj.1 hlast
      exact .inr ⟨_, there, refused⟩
  · rintro (⟨absent, rfl⟩ | ⟨found, there, refused⟩)
    · exact .notFound absent
    · exact .child there refused

theorem not_refuses_nil : ¬ t.Refuses [] error := by
  generalize hcursor : ([] : Cursor) = cursor
  intro h
  cases h with
  | notFound => simp at hcursor
  | child => simp at hcursor

/-- A write fails for these reasons only. -/
theorem set_eq_error {cursor : Cursor} (value : Tree ε) :
    t.set cursor value = .error error ↔ t.Refuses cursor error := by
  rcases List.eq_nil_or_concat cursor with rfl | ⟨init, last, rfl⟩
  · refine iff_of_false ?_ not_refuses_nil
    intro h
    cases h
  · rw [List.concat_eq_append, set, setOr_concat, List.dropLast_concat, refuses_concat]
    cases hfound : t.get? init with
    | none => simp [eq_comm]
    | some found =>
      simp only [reduceCtorEq, false_and, Option.some.injEq, exists_eq_left', false_or]
      rw [← setChild_eq_error value]
      cases hset : found.setChild last value with
      | error e => exact Iff.rfl
      | ok found' =>
        obtain ⟨t', -, hstored⟩ := setOr_of_get? hfound found'
        change setOr _ t init found' = _ ↔ _
        rw [hstored]
        simp

/-! ## In place -/

/-- The answer to a write and the document that it leaves, when a failed write leaves the document
as it was. -/
def settle (t : Tree ε) : Except CursorError (Tree ε) → Except CursorError Unit × Tree ε
  | .ok t' => (.ok (), t')
  | .error error => (.error error, t)

omit [NodeNames ε] in
@[simp] theorem settle_eq_error {written : Except CursorError (Tree ε)} :
    t.settle written = (.error error, t') ↔ written = .error error ∧ t' = t := by
  cases written <;> simp [settle, eq_comm]

omit [NodeNames ε] in
@[simp] theorem settle_eq_ok {written : Except CursorError (Tree ε)} :
    t.settle written = (.ok (), t') ↔ written = .ok t' := by
  cases written <;> simp [settle]

omit [NodeNames ε] in
theorem outcome_storeItem (items : List (Tree ε)) (last : Step) (value : Tree ε) :
    (storeItem items last value).outcome (arr items) =
      (arr items).settle ((setItem items last value).map arr) := by
  rw [storeItem, setItem]
  cases last.asIndex? with
  | none => rfl
  | some i =>
    simp only
    split_ifs <;> rfl

theorem outcome_storeChild (t : Tree ε) (last : Step) (value : Tree ε) :
    (storeChild last value).outcome t = t.settle (t.setChild last value) := by
  cases t with
  | arr items => exact outcome_storeItem items last value
  | _ => rfl

omit [NodeNames ε] in
theorem outcome_within (cursor : Cursor) (missing : CursorError) (work : Edit ε Unit) (t : Tree ε) :
    (within cursor missing work).outcome t =
      match t.get? cursor with
      | none => (.error missing, t)
      | some found => ((work.outcome found).1, (t.replace? cursor (work.outcome found).2).getD t) :=
  rfl

/-- A write in place has the outcome of a write into a copy: the container that refuses a child
leaves itself as it was, and so it is put back. -/
theorem outcome_store (t : Tree ε) (cursor : Cursor) (value : Tree ε) :
    (store cursor value).outcome t = t.settle (t.set cursor value) := by
  rcases List.eq_nil_or_concat cursor with rfl | ⟨init, last, rfl⟩
  · rfl
  · simp only [List.concat_eq_append, store, List.getLast?_concat, List.dropLast_concat, set,
      setOr_concat, outcome_within]
    cases hfound : t.get? init with
    | none => rfl
    | some found =>
      simp only [outcome_storeChild]
      cases found.setChild last value with
      | error error =>
        simp only [settle, replace?_of_get? hfound]
        rfl
      | ok found' =>
        obtain ⟨t', hreplace, hset⟩ := setOr_of_get? hfound found'
        simp only [settle, hreplace]
        exact congrArg t.settle hset.symm

/-- A write at a cursor is refused for the reasons listed by `Refuses` and no others, and a write in
place that is refused leaves the document as it was. In place and into a copy, the same writes are
refused for the same reasons, and the others make the same document. -/
theorem set_refused_iff (t : Tree ε) (cursor : Cursor) (value : Tree ε) :
    (store [] value).outcome t = (.ok (), value) ∧
    (∀ error t', (store cursor value).outcome t = (.error error, t') ↔
      t.Refuses cursor error ∧ t' = t) ∧
    ((∃ t', (store cursor value).outcome t = (.ok (), t')) ↔ ∀ error, ¬ t.Refuses cursor error) ∧
    (∀ error, t.set cursor value = .error error ↔ t.Refuses cursor error) ∧
    ∀ t', t.set cursor value = .ok t' ↔ (store cursor value).outcome t = (.ok (), t') := by
  refine ⟨rfl, ?_, ?_, fun error => set_eq_error value, ?_⟩
  · intro error t'
    rw [outcome_store, settle_eq_error, set_eq_error]
  · simp only [outcome_store, settle_eq_ok, ← set_eq_error value]
    cases t.set cursor value <;> simp
  · intro t'
    rw [outcome_store, settle_eq_ok]

end Tree

end FixtureBench
