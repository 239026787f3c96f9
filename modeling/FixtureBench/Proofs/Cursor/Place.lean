import FixtureBench.Proofs.Cursor.Access

/-!
# The child that a step addresses

A step addresses a child of an array by index and a child of an object by key. Both readings can be
told from the key of the step: it is the canonical decimal of a number below `2 ^ 64` exactly if the
step has this number as its index. So steps with one key address the child at one place of every
node, and steps with different keys never do. `Step.views_agree` collects this for trees over any
leaves.
-/

namespace FixtureBench

theorem Keyed.get?_eq_getElem? {α : Type} (m : Keyed α) (key : String) :
    m.get? key = (m.keys.idxOf? key).bind (m.values[·]?) := by
  obtain ⟨entries⟩ := m
  induction entries with
  | nil => rfl
  | cons e rest ih =>
    obtain ⟨k, v⟩ := e
    simp only [get?, keys, values, List.map_cons, lookup_cons_ite, List.idxOf?_cons] at ih ⊢
    by_cases h : key = k
    · simp [h]
    · have hne : ¬ (k == key) = true := by simpa using Ne.symm h
      rw [if_neg h, if_neg hne, ih, Option.bind_map]
      rfl

namespace Tree

variable {ε : Type} {node : Tree ε} {s t : Step} {i : Nat}

def children : Tree ε → List (Tree ε)
  | arr items => items
  | obj members => members.values
  | _ => []

/-- The place, among the children, of the child that a step addresses. -/
def place? : Tree ε → Step → Option Nat
  | arr items, step => step.asIndex?.filter (· < items.length)
  | obj members, step => members.keys.idxOf? step.asKey
  | _, _ => none

theorem child?_eq_getElem? (node : Tree ε) (s : Step) :
    node.child? s = (node.place? s).bind (node.children[·]?) := by
  cases node with
  | arr items =>
    rw [child?, place?, children]
    cases s.asIndex? with
    | none => rfl
    | some i => by_cases h : i < items.length <;> simp [Option.filter, h]
  | obj members => exact members.get?_eq_getElem? s.asKey
  | _ => rfl

theorem place?_congr (h : s.asKey = t.asKey) (node : Tree ε) : node.place? s = node.place? t := by
  cases node <;> simp only [place?, Step.asIndex?_eq, h]

/-- The child that a step addresses has the key of the step. -/
theorem getElem?_keys_of_place? (h : node.place? s = some i) :
    ∃ layout, node.layout? = some layout ∧ layout.keys[i]? = some s.asKey := by
  cases node with
  | arr items =>
    obtain ⟨hindex, hlt⟩ := Option.filter_eq_some_iff.1 h
    refine ⟨_, rfl, ?_⟩
    rw [(Step.asIndex?_eq_some.1 hindex).2, List.getElem?_map,
      List.getElem?_range (of_decide_eq_true hlt), Option.map_some]
  | obj members =>
    obtain ⟨hlt, hkey, -⟩ := List.idxOf?_eq_some_iff.1 h
    exact ⟨_, rfl, List.getElem?_eq_some_iff.2 ⟨hlt, hkey⟩⟩
  | _ => cases h

/-- Steps that address one place have one key. -/
theorem asKey_eq_of_place? (hs : node.place? s = some i) (ht : node.place? t = some i) :
    s.asKey = t.asKey := by
  obtain ⟨layout, hlayout, hskey⟩ := getElem?_keys_of_place? hs
  obtain ⟨layout', hlayout', htkey⟩ := getElem?_keys_of_place? ht
  obtain rfl : layout = layout' := Option.some.inj (hlayout.symm.trans hlayout')
  exact Option.some.inj (hskey.symm.trans htkey)

def single (s : Step) : Tree ε := .obj ⟨[(s.asKey, .null)]⟩

theorem place?_single (s : Step) : (single s : Tree ε).place? s = some 0 := by
  simp [single, place?, Keyed.keys, List.idxOf?_cons]

theorem asKey_eq_iff_place? :
    s.asKey = t.asKey ↔ ∀ node : Tree ε, node.place? s = node.place? t := by
  constructor
  · exact place?_congr
  · intro h
    have ht : (single s : Tree ε).place? t = some 0 := by rw [← h, place?_single]
    exact asKey_eq_of_place? (place?_single s) ht

theorem asKey_ne_iff_place? :
    s.asKey ≠ t.asKey ↔
      ∀ (node : Tree ε) (i : Nat), node.place? s = some i → node.place? t ≠ some i := by
  constructor
  · intro hne node i hs ht
    exact hne (asKey_eq_of_place? hs ht)
  · intro h hkey
    apply h (single s) 0 (place?_single s)
    rw [← place?_congr hkey, place?_single]

end Tree

namespace Step

/-- The index and the key of a step agree. The test for canonical decimals accepts the decimals of
numbers; a step has a 64-bit number as its index exactly if its key is the decimal of that number,
and no index if its key is the decimal of none. What a step reads in a node is the child at its
place; two steps have one place in every node if their keys are equal, and in no node if they are
not. -/
theorem views_agree :
    (∀ text, isIndexText text = true ↔ ∃ n : Nat, text = toString n) ∧
    (∀ (s : Step) (n : UInt64), s.asIndex? = some n.toNat ↔ s.asKey = toString n.toNat) ∧
    (∀ s : Step, s.asIndex? = none ↔ ∀ n : UInt64, s.asKey ≠ toString n.toNat) ∧
    ∀ (ε : Type) (s t : Step),
      (∀ node : Tree ε, node.child? s = (node.place? s).bind (node.children[·]?)) ∧
      (s.asKey = t.asKey ↔ ∀ node : Tree ε, node.place? s = node.place? t) ∧
      (s.asKey ≠ t.asKey ↔
        ∀ (node : Tree ε) (i : Nat), node.place? s = some i → node.place? t ≠ some i) := by
  refine ⟨?_, ?_, ?_, ?_⟩
  · intro text
    exact isIndexText_iff_exists
  · intro s n
    exact asIndex?_eq_some_toNat
  · intro s
    exact asIndex?_eq_none_iff_asKey
  · intro ε s t
    refine ⟨?_, Tree.asKey_eq_iff_place?, Tree.asKey_ne_iff_place?⟩
    intro node
    exact node.child?_eq_getElem? s

/-- The greatest index is read from its decimal, and the next number is no index; nor are a decimal
with a sign or a leading zero. -/
example : (["18446744073709551615", "18446744073709551616", "+5", "05", ""].map fun text =>
    (Step.key text).asIndex?) = [some 18446744073709551615, none, none, none, none] := by
  decide +kernel

end Step

end FixtureBench
