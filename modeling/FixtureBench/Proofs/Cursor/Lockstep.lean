import FixtureBench.Cursor.Access
import FixtureBench.Proofs.PropValue

/-!
# Cursors in a prop value and in its document

A prop value and the document it is written as are read and written by the same cursors.
`PropValue.lockstep_toJson` says that reading commutes with writing as a document, and that a write
stores corresponding values in both or fails in both. Callbacks and instances are null in the
document, and no more containers there than before; only the name by which a failed write calls
what it found may differ.
-/

namespace FixtureBench

/-- The same failure, up to the name of what was found in place of a container. -/
inductive CursorError.Alike : CursorError → CursorError → Prop where
  | same (error : CursorError) : Alike error error
  | notContainer (step found found' : String) :
      Alike (.notContainer step found) (.notContainer step found')

namespace PropValue

/-- Outcomes of one write, in a prop value and in its document. -/
inductive InStep : Except CursorError PropValue → Except CursorError Json → Prop where
  | stored (after : PropValue) : InStep (.ok after) (.ok after.toJson)
  | failed {error error' : CursorError} (h : error.Alike error') :
      InStep (.error error) (.error error')

theorem InStep.bind {outcome : Except CursorError PropValue} {outcome' : Except CursorError Json}
    (h : InStep outcome outcome') {next : PropValue → Except CursorError PropValue}
    {next' : Json → Except CursorError Json}
    (hnext : ∀ after, InStep (next after) (next' after.toJson)) :
    InStep (outcome >>= next) (outcome' >>= next') := by
  cases h with
  | stored after => exact hnext after
  | failed h => exact .failed h

theorem child?_toJson (p : PropValue) (step : Step) :
    p.toJson.child? step = (p.child? step).map toJson := by
  cases p with
  | arr items => cases h : step.asIndex? <;> simp [Tree.child?, h]
  | obj members => simp [Tree.child?]
  | _ => rfl

theorem get?_toJson (p : PropValue) (cursor : Cursor) :
    p.toJson.get? cursor = (p.get? cursor).map toJson := by
  induction cursor generalizing p with
  | nil => rfl
  | cons step rest ih =>
    rw [Tree.get?, Tree.get?, child?_toJson]
    cases p.child? step with
    | none => rfl
    | some child => exact ih child

/-- Storing an item depends on the length of the array alone. -/
theorem setItem_toJson (items : List PropValue) (step : Step) (value : PropValue) :
    Tree.setItem (items.map toJson) step value.toJson =
      (Tree.setItem items step value).map (List.map toJson) := by
  unfold Tree.setItem
  cases step.asIndex? with
  | none => rfl
  | some i =>
    simp only [List.length_map]
    split
    · simp [Except.map, List.map_set]
    · split <;> simp [Except.map]

theorem setChild_toJson (p : PropValue) (step : Step) (value : PropValue) :
    InStep (p.setChild step value) (p.toJson.setChild step value.toJson) := by
  cases p with
  | arr items =>
    rw [toJson_arr, Tree.setChild, Tree.setChild, setItem_toJson]
    cases Tree.setItem items step value with
    | error error => exact .failed (.same error)
    | ok after =>
      simp only [Except.map, ← toJson_arr]
      exact .stored (.arr after)
  | obj members =>
    rw [toJson_obj, Tree.setChild, Tree.setChild, ← Keyed.map_insert, ← toJson_obj]
    exact .stored _
  | _ => exact .failed (.notContainer ..)

/-- A write below a child goes on with the child where both have it. -/
theorem setOr_toJson (missing : CursorError) (p : PropValue) (cursor : Cursor)
    (value : PropValue) :
    InStep (p.setOr missing cursor value) (p.toJson.setOr missing cursor value.toJson) := by
  induction cursor generalizing p with
  | nil => exact .stored value
  | cons step rest ih =>
    cases rest with
    | nil => exact setChild_toJson p step value
    | cons next rest =>
      simp only [Tree.setOr, child?_toJson]
      cases p.child? step with
      | none => exact .failed (.same missing)
      | some child =>
        exact (ih child).bind (setChild_toJson p step)

/-- Reading and writing through a cursor run in lockstep on a prop value and on its document. -/
theorem lockstep_toJson (p : PropValue) (cursor : Cursor) (value : PropValue) :
    p.toJson.get? cursor = (p.get? cursor).map toJson ∧
      InStep (p.set cursor value) (p.toJson.set cursor value.toJson) :=
  ⟨get?_toJson p cursor, setOr_toJson _ p cursor value⟩

end PropValue

end FixtureBench
