import FixtureBench.Proofs.Random.Growth
import Mathlib.Algebra.GroupWithZero.Nat
import Mathlib.Data.List.Perm.Basic

/-!
# Paths and sizes of a growing document

Replacing the container at a path changes the number of nodes by as much as it changes the
container's, and every other path keeps leading to what it led to, as long as the paths through the
container move along with its children. An insertion into an array moves the paths behind it.
-/

namespace FixtureBench

namespace Tree

variable {ε : Type}

mutual

def descendants : Tree ε → Nat
  | arr items => descendantsItems items
  | obj ⟨entries⟩ => descendantsEntries entries
  | _ => 0

def descendantsItems : List (Tree ε) → Nat
  | [] => 0
  | t :: rest => (descendants t + 1) + descendantsItems rest

def descendantsEntries : List (String × Tree ε) → Nat
  | [] => 0
  | (_, t) :: rest => (descendants t + 1) + descendantsEntries rest

end

@[simp] theorem descendants_arr (items : List (Tree ε)) :
    (arr items).descendants = (items.map (descendants · + 1)).sum := by
  rw [descendants]
  induction items with
  | nil => rfl
  | cons t rest ih => rw [descendantsItems, ih, List.map_cons, List.sum_cons]

@[simp] theorem descendants_obj (members : Keyed (Tree ε)) :
    (obj members).descendants = (members.values.map (descendants · + 1)).sum := by
  obtain ⟨entries⟩ := members
  rw [descendants]
  induction entries with
  | nil => rfl
  | cons e rest ih =>
    rw [descendantsEntries, ih]
    rfl

theorem descendants_subst {δ : Type} {f : ε → Tree δ} (leaves : ∀ e, (f e).descendants = 0)
    (t : Tree ε) : (t.subst f).descendants = t.descendants := by
  have sizes {ts : List (Tree ε)} (h : ∀ t ∈ ts, (t.subst f).descendants = t.descendants) :
      ((ts.map (subst f)).map (descendants · + 1)).sum = (ts.map (descendants · + 1)).sum := by
    rw [List.map_map]
    exact congrArg List.sum (List.map_congr_left fun t ht => congrArg (· + 1) (h t ht))
  induction t with
  | arr items ih =>
    rw [subst_arr, descendants_arr, descendants_arr, sizes ih]
  | obj members ih =>
    rw [subst_obj, descendants_obj, descendants_obj, Keyed.values_map]
    exact sizes (List.forall_mem_map.2 ih)
  | leaf e => exact leaves e
  | _ => rfl

theorem descendants_insertIdx {items : List (Tree ε)} {index : Nat} (h : index ≤ items.length)
    (t : Tree ε) : (arr (items.insertIdx index t)).descendants =
      (arr items).descendants + (t.descendants + 1) := by
  have hperm := (List.perm_insertIdx t items h).map (descendants · + 1)
  rw [descendants_arr, descendants_arr, hperm.sum_nat, List.map_cons, List.sum_cons, Nat.add_comm]

theorem descendants_insert {members : Keyed (Tree ε)} {key : String} (h : key ∉ members.keys)
    (t : Tree ε) : (obj (members.insert key t)).descendants =
      (obj members).descendants + (t.descendants + 1) := by
  have hvalues : (members.insert key t).values = members.values ++ [t] := by
    rw [Keyed.values, Keyed.insert, Keyed.insertEntry_of_not_mem h, List.map_append]
    rfl
  rw [descendants_obj, descendants_obj, hvalues, List.map_append, List.sum_append]
  rfl

end Tree

theorem Keyed.sum_values_insert {α : Type} (size : α → Nat) {members : Keyed α} {key : String}
    {old : α} (h : members.get? key = some old) (value : α) :
    ((members.insert key value).values.map size).sum + size old =
      (members.values.map size).sum + size value := by
  obtain ⟨entries⟩ := members
  change entries.lookup key = some old at h
  change (((insertEntry key value entries).map (·.2)).map size).sum + size old =
    ((entries.map (·.2)).map size).sum + size value
  induction entries with
  | nil => cases h
  | cons e rest ih =>
    obtain ⟨k, v⟩ := e
    rw [lookup_cons_ite] at h
    rw [insertEntry]
    by_cases hk : key = k
    · rw [if_pos hk] at h
      obtain rfl := Option.some.inj h
      rw [if_pos hk.symm]
      simp only [List.map_cons, List.sum_cons]
      omega
    · rw [if_neg hk] at h
      have hrest := ih h
      rw [if_neg (Ne.symm hk)]
      simp only [List.map_cons, List.sum_cons]
      omega

namespace Slot

/-! ## Children -/

theorem child?_putChild {slot : Slot} {container old : Json} (h : slot.child? container = some old)
    (child : Json) : slot.child? (slot.putChild container child) = some child := by
  cases slot with
  | item i =>
    cases container with
    | arr items =>
      obtain ⟨hi, -⟩ := List.getElem?_eq_some_iff.1 h
      simp [child?, putChild, hi]
    | _ => cases h
  | member key =>
    cases container with
    | obj members => simp [child?, putChild]
    | _ => cases h

theorem child?_putChild_of_ne {slot other : Slot} (h : other ≠ slot) (container child : Json) :
    other.child? (slot.putChild container child) = other.child? container := by
  cases slot with
  | item i =>
    cases container with
    | arr items =>
      cases other with
      | item j =>
        have hne : i ≠ j := fun hij => h (congrArg item hij.symm)
        simp [child?, putChild, hne]
      | member key => rfl
    | _ => rfl
  | member key =>
    cases container with
    | obj members =>
      cases other with
      | item j => rfl
      | member key' =>
        have hne : key' ≠ key := fun hkey => h (congrArg member hkey)
        simp [child?, putChild, hne]
    | _ => rfl

theorem descendants_putChild {slot : Slot} {container old : Json}
    (h : slot.child? container = some old) (child : Json) :
    (slot.putChild container child).descendants + old.descendants =
      container.descendants + child.descendants := by
  cases slot with
  | item i =>
    cases container with
    | arr items =>
      obtain ⟨hi, rfl⟩ := List.getElem?_eq_some_iff.1 h
      obtain ⟨before, after, hitems, -, hset⟩ : ∃ before after,
          items = before ++ items[i] :: after ∧ before.length = i ∧
            items.set i child = before ++ child :: after := List.exists_of_set hi
      rw [putChild, hset, Tree.descendants_arr, Tree.descendants_arr]
      conv_rhs => rw [hitems]
      simp only [List.map_append, List.map_cons, List.sum_append, List.sum_cons]
      omega
    | _ => cases h
  | member key =>
    cases container with
    | obj members =>
      have := Keyed.sum_values_insert (Tree.descendants · + 1) h child
      rw [putChild, Tree.descendants_obj, Tree.descendants_obj]
      omega
    | _ => cases h

/-! ## Replacing the node at a path -/

variable {base path : List Slot} {doc old new : Json}

theorem nodeAt?_cons {slot : Slot} {node : Json} :
    nodeAt? (slot :: path) doc = some node ↔
      ∃ child, slot.child? doc = some child ∧ nodeAt? path child = some node := by
  rw [nodeAt?, Option.bind_eq_some_iff]

theorem replaceAt_cons {slot : Slot} {child : Json} (h : slot.child? doc = some child) :
    replaceAt (slot :: path) doc new = slot.putChild doc (replaceAt path child new) := by
  rw [replaceAt, h]

/-- Below the replaced node lie the nodes of its replacement. -/
theorem nodeAt?_append_replaceAt (h : nodeAt? base doc = some old) (path : List Slot) (new : Json) :
    nodeAt? (base ++ path) (replaceAt base doc new) = nodeAt? path new := by
  induction base generalizing doc with
  | nil => rfl
  | cons slot base ih =>
    obtain ⟨child, hchild, hbase⟩ := nodeAt?_cons.1 h
    rw [replaceAt_cons hchild, List.cons_append, nodeAt?, child?_putChild hchild]
    exact ih hbase

theorem descendants_replaceAt (h : nodeAt? base doc = some old) (new : Json) :
    (replaceAt base doc new).descendants + old.descendants = doc.descendants + new.descendants := by
  induction base generalizing doc with
  | nil =>
    obtain rfl := Option.some.inj h
    exact Nat.add_comm _ _
  | cons slot base ih =>
    obtain ⟨child, hchild, hbase⟩ := nodeAt?_cons.1 h
    have inside := ih hbase
    have outside := descendants_putChild hchild (replaceAt base child new)
    rw [replaceAt_cons hchild]
    omega

/-- Children have the property if their container has it, and a container keeps it when a child that
has it takes the place of another. -/
structure Hereditary (P : Json → Prop) : Prop where
  child : ∀ {slot : Slot} {doc child : Json}, P doc → slot.child? doc = some child → P child
  put : ∀ {slot : Slot} {doc old child : Json}, P doc → slot.child? doc = some old → P child →
    P (slot.putChild doc child)

/-- It is enough to look at arrays and objects, and there at the members that are replaced. -/
theorem Hereditary.of {P : Json → Prop} (arr : ∀ items, P (.arr items) ↔ ∀ t ∈ items, P t)
    (values : ∀ members, P (.obj members) → ∀ t ∈ members.values, P t)
    (insert : ∀ (members : Keyed Json) key t, P (.obj members) → key ∈ members.keys → P t →
      P (.obj (members.insert key t))) : Hereditary P where
  child := by
    intro slot doc child h hchild
    cases slot with
    | item i =>
      cases doc with
      | arr items => exact (arr items).1 h child (List.mem_of_getElem? hchild)
      | _ => cases hchild
    | member key =>
      cases doc with
      | obj members =>
        exact values members h child (List.mem_map_of_mem (Keyed.mem_entries_of_get? hchild))
      | _ => cases hchild
  put := by
    intro slot doc old child h hold hchild
    cases slot with
    | item i =>
      cases doc with
      | arr items =>
        refine (arr _).2 fun t ht => ?_
        rcases List.mem_or_eq_of_mem_set ht with ht | rfl
        · exact (arr items).1 h t ht
        · exact hchild
      | _ => cases hold
    | member key =>
      cases doc with
      | obj members =>
        exact insert members key child h (Keyed.exists_get?_iff.1 ⟨old, hold⟩) hchild
      | _ => cases hold

theorem Hereditary.nodeAt? {P : Json → Prop} (hereditary : Hereditary P) {node : Json} (h : P doc)
    (hnode : nodeAt? path doc = some node) : P node := by
  induction path generalizing doc with
  | nil =>
    obtain rfl := Option.some.inj hnode
    exact h
  | cons slot rest ih =>
    obtain ⟨child, hchild, hrest⟩ := nodeAt?_cons.1 hnode
    exact ih (hereditary.child h hchild) hrest

theorem Hereditary.replaceAt {P : Json → Prop} (hereditary : Hereditary P) (h : P doc)
    (hnew : P new) : P (replaceAt path doc new) := by
  induction path generalizing doc with
  | nil => exact hnew
  | cons slot rest ih =>
    rw [Slot.replaceAt]
    cases hchild : slot.child? doc with
    | none => exact h
    | some child => exact hereditary.put h hchild (ih (hereditary.child h hchild))

def kindAt? (path : List Slot) (doc : Json) : Option RootNode := (nodeAt? path doc).bind Tree.root?

theorem kindAt?_cons (slot : Slot) (path : List Slot) (doc : Json) :
    kindAt? (slot :: path) doc = (slot.child? doc).bind (kindAt? path) := by
  rw [kindAt?, nodeAt?, Option.bind_assoc]
  rfl

/-- The path after the children of the node at `base` have moved to other slots. -/
def rebase (move : Slot → Slot) : List Slot → List Slot → List Slot
  | _, [] => []
  | [], slot :: rest => move slot :: rest
  | b :: base, slot :: rest => slot :: if b = slot then rebase move base rest else rest

variable {move : Slot → Slot}

@[simp] theorem rebase_nil (move : Slot → Slot) (base : List Slot) : rebase move base [] = [] := by
  rw [rebase]

/-- A path leads to a container of the same kind after a container has been replaced and its
children have moved. -/
theorem kindAt?_rebase (h : nodeAt? base doc = some old) (same : new.root? = old.root?)
    (moved : ∀ slot child, slot.child? old = some child → (move slot).child? new = some child)
    {kind : RootNode} (hpath : kindAt? path doc = some kind) :
    kindAt? (rebase move base path) (replaceAt base doc new) = some kind := by
  induction base generalizing doc path with
  | nil =>
    obtain rfl := Option.some.inj h
    cases path with
    | nil => exact same.trans hpath
    | cons slot rest =>
      rw [kindAt?_cons, Option.bind_eq_some_iff] at hpath
      obtain ⟨child, hchild, hrest⟩ := hpath
      rw [rebase, replaceAt, kindAt?_cons, moved slot child hchild]
      exact hrest
  | cons b base ih =>
    cases path with
    | nil => exact (root?_replaceAt h same).trans hpath
    | cons slot rest =>
      obtain ⟨child, hchild, hbase⟩ := nodeAt?_cons.1 h
      rw [replaceAt_cons hchild, rebase, kindAt?_cons]
      rw [kindAt?_cons] at hpath
      by_cases hslot : b = slot
      · subst hslot
        rw [hchild] at hpath
        rw [if_pos rfl, child?_putChild hchild]
        exact ih hbase hpath
      · rw [if_neg hslot, child?_putChild_of_ne (Ne.symm hslot)]
        exact hpath

theorem rebase_injective (h : Function.Injective move) (base : List Slot) :
    Function.Injective (rebase move base) := by
  intro path path' heq
  induction base generalizing path path' with
  | nil =>
    cases path <;> cases path'
    · rfl
    · cases heq
    · cases heq
    · obtain ⟨hslot, rfl⟩ := List.cons.inj heq
      rw [h hslot]
  | cons b base ih =>
    cases path <;> cases path'
    · rfl
    · cases heq
    · cases heq
    · obtain ⟨rfl, hrest⟩ := List.cons.inj heq
      split at hrest
      · rw [ih hrest]
      · rw [hrest]

/-- No path to a container moves to a slot that none of the children moves to. -/
theorem rebase_ne {slot : Slot} (h : nodeAt? base doc = some old)
    (free : ∀ other child, other.child? old = some child → move other ≠ slot) {kind : RootNode}
    (hpath : kindAt? path doc = some kind) : rebase move base path ≠ base ++ [slot] := by
  induction base generalizing doc path with
  | nil =>
    obtain rfl := Option.some.inj h
    cases path with
    | nil => exact nofun
    | cons other rest =>
      rw [kindAt?_cons, Option.bind_eq_some_iff] at hpath
      obtain ⟨child, hchild, -⟩ := hpath
      exact fun heq => free other child hchild (List.cons.inj heq).1
  | cons b base ih =>
    cases path with
    | nil => exact nofun
    | cons other rest =>
      intro heq
      obtain ⟨rfl, hrest⟩ := List.cons.inj heq
      obtain ⟨child, hchild, hbase⟩ := nodeAt?_cons.1 h
      rw [kindAt?_cons, hchild] at hpath
      rw [if_pos rfl] at hrest
      exact ih hbase hpath hrest

theorem rebase_id (base path : List Slot) : rebase id base path = path := by
  induction base generalizing path with
  | nil => cases path <;> rfl
  | cons b base ih =>
    cases path with
    | nil => rfl
    | cons slot rest => rw [rebase, ih, ite_self]

/-! ## Filling a slot -/

/-- The container `new` is `old` with a node in a slot that was free after the children of `old`
had moved. -/
structure Fills (slot : Slot) (node old new : Json) (move : Slot → Slot) : Prop where
  same : new.root? = old.root?
  injective : Function.Injective move
  moved : ∀ other child, other.child? old = some child → (move other).child? new = some child
  free : ∀ other child, other.child? old = some child → move other ≠ slot
  filled : slot.child? new = some node
  size : new.descendants = old.descendants + (node.descendants + 1)

/-- The slot of an array's child after an insertion at `index`. -/
def behind (index : Nat) : Slot → Slot
  | .item i => .item (if index ≤ i then i + 1 else i)
  | .member key => .member key

theorem shift_eq_rebase (base : List Slot) (index : Nat) (path : List Slot) :
    shift base index path = rebase (behind index) base path := by
  induction base generalizing path with
  | nil =>
    cases path with
    | nil => rfl
    | cons slot rest =>
      cases slot with
      | item i =>
        rw [shift, rebase, behind]
        split <;> rfl
      | member key => rfl
  | cons b base ih =>
    cases path with
    | nil => rfl
    | cons slot rest =>
      rw [shift, rebase, ih]
      split <;> rfl

theorem behind_injective (index : Nat) : Function.Injective (behind index) := by
  intro slot slot' heq
  cases slot with
  | item i =>
    cases slot' with
    | item j =>
      have hij := item.inj heq
      apply congrArg item
      split at hij <;> split at hij <;> omega
    | member key => cases heq
  | member key =>
    cases slot' with
    | item j => cases heq
    | member key' => exact heq

theorem behind_ne (index : Nat) (slot : Slot) : behind index slot ≠ .item index := by
  cases slot with
  | item i =>
    simp only [behind, ne_eq, item.injEq]
    split <;> omega
  | member key => exact nofun

theorem child?_behind (items : List Json) (index : Nat) (node : Json) (slot : Slot) :
    (behind index slot).child? (.arr (items.insertIdx index node)) = slot.child? (.arr items) := by
  cases slot with
  | item i =>
    rw [behind, child?, child?]
    by_cases hi : index ≤ i
    · rw [if_pos hi, List.getElem?_insertIdx_of_gt (by omega), Nat.add_sub_cancel]
    · rw [if_neg hi, List.getElem?_insertIdx_of_lt (by omega)]
  | member key => rfl

theorem fills_insertIdx {items : List Json} {index : Nat} (h : index ≤ items.length)
    (node : Json) :
    Fills (.item index) node (.arr items) (.arr (items.insertIdx index node)) (behind index) where
  same := rfl
  injective := behind_injective index
  moved := fun slot child hchild => (child?_behind items index node slot).trans hchild
  free := fun slot _ _ => behind_ne index slot
  filled := by rw [child?, List.getElem?_insertIdx_self, if_pos h]
  size := Tree.descendants_insertIdx h node

theorem fills_insert {members : Keyed Json} {key : String} (h : key ∉ members.keys) (node : Json) :
    Fills (.member key) node (.obj members) (.obj (members.insert key node)) id where
  same := rfl
  injective := Function.injective_id
  moved := by
    intro slot child hchild
    cases slot with
    | item i => cases hchild
    | member other =>
      have hne : other ≠ key := by
        rintro rfl
        rw [child?, Keyed.get?_eq_none_iff.2 h] at hchild
        cases hchild
      rw [id_eq, child?, Keyed.get?_insert, if_neg hne]
      exact hchild
  free := by
    rintro slot child hchild rfl
    rw [child?, Keyed.get?_eq_none_iff.2 h] at hchild
    cases hchild
  filled := by rw [child?, Keyed.get?_insert, if_pos rfl]
  size := Tree.descendants_insert h node

end Slot

end FixtureBench
