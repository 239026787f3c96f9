import FixtureBench.Keyed
import FixtureBench.Number

/-!
# Document trees

A `Tree ε` is a document of nulls, booleans, numbers, strings, arrays and ordered objects, with
leaves of type `ε` for what lies outside the data format. Plain documents are `Tree Empty`.

`subst` replaces every leaf by a tree. `eqBy` compares trees by a comparison of their numbers:
arrays item by item, objects member by member in any order, leaves by equality. A tree is
`WellFormed` when the keys of each of its objects are pairwise different.
-/

namespace FixtureBench

inductive Tree (ε : Type) where
  | null
  | bool (b : Bool)
  | num (n : Number)
  | str (s : String)
  | arr (items : List (Tree ε))
  | obj (members : Keyed (Tree ε))
  | leaf (e : ε)

instance {ε : Type} : Inhabited (Tree ε) := ⟨.null⟩

/-- What a kind of document calls its booleans and its leaves. -/
class NodeNames (ε : Type) where
  bool : String
  leaf : ε → String

namespace Tree

variable {ε δ : Type}

/-- Induction over the items of arrays and the members of objects. -/
@[elab_as_elim, induction_eliminator]
theorem induction {motive : Tree ε → Prop} (null : motive .null) (bool : ∀ b, motive (.bool b))
    (num : ∀ n, motive (.num n)) (str : ∀ s, motive (.str s))
    (arr : ∀ items, (∀ t ∈ items, motive t) → motive (.arr items))
    (obj : ∀ members : Keyed (Tree ε), (∀ e ∈ members.entries, motive e.2) →
      motive (.obj members))
    (leaf : ∀ e, motive (.leaf e)) (t : Tree ε) : motive t :=
  Tree.rec (motive_1 := motive) (motive_2 := fun items => ∀ t ∈ items, motive t)
    (motive_3 := fun members => ∀ e ∈ members.entries, motive e.2)
    (motive_4 := fun entries => ∀ e ∈ entries, motive e.2) (motive_5 := fun e => motive e.2)
    null bool num str arr obj leaf
    (by simp) (by simp_all) (by simp) (by simp) (by simp_all) (by simp) t

def typeName [NodeNames ε] : Tree ε → String
  | null => "null"
  | bool _ => NodeNames.bool ε
  | num _ => "number"
  | str _ => "string"
  | arr _ => "array"
  | obj _ => "object"
  | leaf e => NodeNames.leaf e

def isNull : Tree ε → Bool
  | null => true
  | _ => false

def asString? : Tree ε → Option String
  | str s => some s
  | _ => none

def asArray? : Tree ε → Option (List (Tree ε))
  | arr items => some items
  | _ => none

def asObject? : Tree ε → Option (Keyed (Tree ε))
  | obj members => some members
  | _ => none

mutual

/-- Replace every leaf by a tree. -/
def subst (f : ε → Tree δ) : Tree ε → Tree δ
  | null => .null
  | bool b => .bool b
  | num n => .num n
  | str s => .str s
  | arr items => .arr (substItems f items)
  | obj ⟨entries⟩ => .obj ⟨substEntries f entries⟩
  | leaf e => f e

def substItems (f : ε → Tree δ) : List (Tree ε) → List (Tree δ)
  | [] => []
  | t :: rest => subst f t :: substItems f rest

def substEntries (f : ε → Tree δ) : List (String × Tree ε) → List (String × Tree δ)
  | [] => []
  | (key, t) :: rest => (key, subst f t) :: substEntries f rest

end

theorem substItems_eq_map (f : ε → Tree δ) (items : List (Tree ε)) :
    substItems f items = items.map (subst f) := by
  induction items with
  | nil => rfl
  | cons t rest ih => simp [substItems, ih]

theorem substEntries_eq_map (f : ε → Tree δ) (entries : List (String × Tree ε)) :
    substEntries f entries = entries.map fun (key, t) => (key, subst f t) := by
  induction entries with
  | nil => rfl
  | cons e rest ih => simp [substEntries, ih]

@[simp] theorem subst_arr (f : ε → Tree δ) (items : List (Tree ε)) :
    subst f (.arr items) = .arr (items.map (subst f)) := by
  rw [subst, substItems_eq_map]

@[simp] theorem subst_obj (f : ε → Tree δ) (members : Keyed (Tree ε)) :
    subst f (.obj members) = .obj (members.map (subst f)) := by
  cases members
  rw [subst, substEntries_eq_map]
  rfl

mutual

/-- Equality of trees up to a comparison of numbers and the order of object members. -/
def eqBy [BEq ε] (sameNumber : Number → Number → Bool) : Tree ε → Tree ε → Bool
  | null, null => true
  | bool a, bool b => a == b
  | num m, num n => sameNumber m n
  | str s, str t => s == t
  | arr items, arr others => eqItemsBy sameNumber items others
  | obj ⟨entries⟩, obj others =>
    entries.length == others.size && eqEntriesBy sameNumber entries others
  | leaf a, leaf b => a == b
  | _, _ => false

def eqItemsBy [BEq ε] (sameNumber : Number → Number → Bool) :
    List (Tree ε) → List (Tree ε) → Bool
  | [], [] => true
  | a :: rest, b :: others => eqBy sameNumber a b && eqItemsBy sameNumber rest others
  | _, _ => false

def eqEntriesBy [BEq ε] (sameNumber : Number → Number → Bool) :
    List (String × Tree ε) → Keyed (Tree ε) → Bool
  | [], _ => true
  | (key, a) :: rest, others =>
    (match others.get? key with
      | some b => eqBy sameNumber a b
      | none => false) && eqEntriesBy sameNumber rest others

end

instance [BEq ε] : BEq (Tree ε) := ⟨eqBy (· == ·)⟩

/-- Equality that compares numbers by value. -/
def looseEq [BEq ε] (a b : Tree ε) : Bool := eqBy Number.sameValue a b

mutual

/-- The keys of every object in the tree are pairwise different. -/
def WellFormed : Tree ε → Prop
  | arr items => WellFormedItems items
  | obj ⟨entries⟩ => (entries.map (·.1)).Nodup ∧ WellFormedEntries entries
  | _ => True

def WellFormedItems : List (Tree ε) → Prop
  | [] => True
  | t :: rest => t.WellFormed ∧ WellFormedItems rest

def WellFormedEntries : List (String × Tree ε) → Prop
  | [] => True
  | (_, t) :: rest => t.WellFormed ∧ WellFormedEntries rest

end

@[simp] theorem wellFormed_arr {items : List (Tree ε)} :
    (arr items).WellFormed ↔ ∀ t ∈ items, t.WellFormed := by
  rw [WellFormed]
  induction items with
  | nil => simp [WellFormedItems]
  | cons t rest ih => simp [WellFormedItems, ih]

@[simp] theorem wellFormed_obj {members : Keyed (Tree ε)} :
    (obj members).WellFormed ↔ members.Distinct ∧ ∀ e ∈ members.entries, e.2.WellFormed := by
  obtain ⟨entries⟩ := members
  have entries_iff : WellFormedEntries entries ↔ ∀ e ∈ entries, e.2.WellFormed := by
    induction entries with
    | nil => simp [WellFormedEntries]
    | cons e rest ih => simp [WellFormedEntries, ih]
  rw [WellFormed, entries_iff]
  rfl

end Tree

abbrev Json := Tree Empty

instance : NodeNames Empty := ⟨"bool", nofun⟩

end FixtureBench
