import FixtureBench.Cursor.Pointer
import FixtureBench.Tree

/-!
# Reading and writing through a cursor

`Tree.get?` follows a cursor and `Tree.set` stores a value at its end. Every container on the way
must exist; the last step may also add a member to an object, or an item right after the last one
of an array. `Tree.replace?` only changes nodes that exist. `Tree.store` makes the write of
`Tree.set` in place.
-/

namespace FixtureBench

namespace Tree

variable {ε : Type}

def child? : Tree ε → Step → Option (Tree ε)
  | arr items, step => step.asIndex?.bind fun i => items[i]?
  | obj members, step => members.get? step.asKey
  | _, _ => none

def get? : Tree ε → Cursor → Option (Tree ε)
  | t, [] => some t
  | t, step :: rest => (t.child? step).bind fun child => child.get? rest

/-- The items of an array with `value` in the slot of `step`; the slot after the last item
appends. -/
def setItem (items : List (Tree ε)) (step : Step) (value : Tree ε) :
    Except CursorError (List (Tree ε)) :=
  match step.asIndex? with
  | none => .error (.invalidIndex step.asKey)
  | some i =>
    if i < items.length then .ok (items.set i value)
    else if i = items.length then .ok (items ++ [value])
    else .error (.indexOutOfBounds i items.length)

def setChild [NodeNames ε] : Tree ε → Step → Tree ε → Except CursorError (Tree ε)
  | arr items, step, value => (setItem items step value).map arr
  | obj members, step, value => .ok (obj (members.insert step.asKey value))
  | other, step, _ => .error (.notContainer step.asKey other.typeName)

/-- The tree with `value` at a cursor; `missing` is the error of a container that is not there. -/
def setOr [NodeNames ε] (missing : CursorError) :
    Tree ε → Cursor → Tree ε → Except CursorError (Tree ε)
  | _, [], value => .ok value
  | t, [last], value => t.setChild last value
  | t, step :: rest, value =>
    match t.child? step with
    | none => .error missing
    | some child => do
      let child ← child.setOr missing rest value
      t.setChild step child

/-- The tree with `value` stored at a cursor. The empty cursor replaces the whole tree. -/
def set [NodeNames ε] (t : Tree ε) (cursor : Cursor) (value : Tree ε) :
    Except CursorError (Tree ε) :=
  t.setOr (.notFound (Pointer.format cursor.dropLast)) cursor value

def putChild : Tree ε → Step → Tree ε → Tree ε
  | arr items, step, value =>
    match step.asIndex? with
    | some i => arr (items.set i value)
    | none => arr items
  | obj members, step, value => obj (members.insert step.asKey value)
  | other, _, _ => other

def replace? : Tree ε → Cursor → Tree ε → Option (Tree ε)
  | _, [], value => some value
  | t, step :: rest, value => do
    let child ← t.child? step
    let child ← child.replace? rest value
    some (t.putChild step child)

/-- A computation that works on a document in place. What it did before it fails stays done. -/
abbrev Edit (ε : Type) := ExceptT CursorError (StateM (Tree ε))

def Edit.outcome (work : Edit ε Unit) (t : Tree ε) : Except CursorError Unit × Tree ε :=
  work.run.run t

/-- Work in place on the node at a cursor. What the work leaves of the node stays in the document,
also if the work fails. -/
def within (cursor : Cursor) (missing : CursorError) (work : Edit ε Unit) : Edit ε Unit :=
  ExceptT.mk fun t =>
    match t.get? cursor with
    | none => (.error missing, t)
    | some node =>
      let (answer, node) := work.outcome node
      (answer, (t.replace? cursor node).getD t)

def storeItem (items : List (Tree ε)) (step : Step) (value : Tree ε) : Edit ε Unit :=
  match step.asIndex? with
  | none => throw (.invalidIndex step.asKey)
  | some i =>
    if i < items.length then MonadState.set (arr (items.set i value))
    else if i = items.length then MonadState.set (arr (items ++ [value]))
    else throw (.indexOutOfBounds i items.length)

def storeChild [NodeNames ε] (step : Step) (value : Tree ε) : Edit ε Unit := do
  match ← MonadState.get with
  | arr items => storeItem items step value
  | obj members => MonadState.set (obj (members.insert step.asKey value))
  | other => throw (.notContainer step.asKey other.typeName)

def store [NodeNames ε] (cursor : Cursor) (value : Tree ε) : Edit ε Unit :=
  match cursor.getLast? with
  | none => MonadState.set value
  | some last =>
    within cursor.dropLast (.notFound (Pointer.format cursor.dropLast)) (storeChild last value)

end Tree

end FixtureBench
