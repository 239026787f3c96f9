import FixtureBench.Proofs.Random.Complete
import FixtureBench.Proofs.Random.Token

/-!
# Bounds on a random document

`Tree.Bounded` limits what is random in a document: its strings and keys are words of some length
and its integers lie in a range. A document grows by leaves and keys that keep to the limits, and an
insertion puts them where it changes nothing else, so the limits hold throughout.
-/

namespace FixtureBench

structure Bounds where
  letters : Nat
  least : Int
  greatest : Int
deriving DecidableEq

/-- Whatever keeps to the first bounds keeps to the others. A word of one letter keeps to any. -/
structure Bounds.Within (b c : Bounds) : Prop where
  letters : b.letters ≤ max 1 c.letters
  least : c.least ≤ b.least
  greatest : b.greatest ≤ c.greatest

namespace Tree

variable {ε : Type} {b : Bounds}

/-- Every string and every key anywhere in the tree is a word, and every integer lies in the
range. -/
inductive Bounded (b : Bounds) : Tree ε → Prop where
  | null : Bounded b .null
  | bool (x : Bool) : Bounded b (.bool x)
  | int {n : Int} (inRange : -0x8000000000000000 ≤ n ∧ n < 0x10000000000000000)
      (h : b.least ≤ n ∧ n ≤ b.greatest) : Bounded b (.num (.int n inRange))
  | double (x : Binary64) : Bounded b (.num (.double x))
  | str {text : String} (word : Token.IsWord b.letters text) : Bounded b (.str text)
  | arr {items : List (Tree ε)} (each : ∀ t ∈ items, Bounded b t) : Bounded b (.arr items)
  | obj {members : Keyed (Tree ε)} (keys : ∀ key ∈ members.keys, Token.IsWord b.letters key)
      (values : ∀ t ∈ members.values, Bounded b t) : Bounded b (.obj members)
  | leaf (e : ε) : Bounded b (.leaf e)

theorem bounded_arr {items : List (Tree ε)} :
    (arr items).Bounded b ↔ ∀ t ∈ items, t.Bounded b :=
  ⟨fun h => by cases h; assumption, .arr⟩

theorem bounded_obj {members : Keyed (Tree ε)} :
    (obj members).Bounded b ↔
      (∀ key ∈ members.keys, Token.IsWord b.letters key) ∧ ∀ t ∈ members.values, t.Bounded b :=
  ⟨fun h => by cases h; constructor <;> assumption, fun h => .obj h.1 h.2⟩

theorem bounded_insert {members : Keyed (Tree ε)} (h : (obj members).Bounded b) {key : String}
    (hkey : Token.IsWord b.letters key) {t : Tree ε} (ht : t.Bounded b) :
    (obj (members.insert key t)).Bounded b := by
  obtain ⟨hkeys, hvalues⟩ := bounded_obj.1 h
  refine bounded_obj.2 ⟨fun other hother => ?_, fun value hvalue => ?_⟩
  · rcases Keyed.mem_keys_insert hother with rfl | hother
    · exact hkey
    · exact hkeys other hother
  · rcases Keyed.mem_values_insert hvalue with rfl | hvalue
    · exact ht
    · exact hvalues value hvalue

theorem Bounded.subst {δ : Type} {t : Tree ε} (h : t.Bounded b) {f : ε → Tree δ}
    (leaves : ∀ e, (f e).Bounded b) : (t.subst f).Bounded b := by
  induction h with
  | null => exact .null
  | bool x => exact .bool x
  | int inRange h => exact .int inRange h
  | double x => exact .double x
  | str word => exact .str word
  | arr each ih =>
    rw [subst_arr]
    exact bounded_arr.2 (List.forall_mem_map.2 ih)
  | obj keys values ih =>
    rw [subst_obj, bounded_obj, Keyed.keys_map, Keyed.values_map]
    exact ⟨keys, List.forall_mem_map.2 ih⟩
  | leaf e => exact leaves e

end Tree

namespace Slot

theorem hereditary_bounded (b : Bounds) : Hereditary (Tree.Bounded b) := by
  refine .of (fun items => Tree.bounded_arr) ?_ ?_
  · intro members h
    exact (Tree.bounded_obj.1 h).2
  · intro members key t h hkey ht
    exact Tree.bounded_insert h ((Tree.bounded_obj.1 h).1 key hkey) ht

end Slot

/-- The leaves and keys that the options ask for keep to the bounds. -/
structure GrowthOptions.KeepsTo (o : GrowthOptions) (b : Bounds) : Prop where
  words : ∀ text, o.strings.expand.CanYield text → Token.IsWord b.letters text
  least : b.least ≤ -1000
  greatest : 1000 ≤ b.greatest

namespace Growth

variable {b : Bounds} {o : GrowthOptions} {g : Growth} {d : Insertion} {n : Nat}

theorem bounded_drawLeaf (keeps : o.KeepsTo b) {type : NodeType} {node : Json}
    (h : (drawLeaf o.strings type).CanYield node) : node.Bounded b := by
  cases type with
  | null =>
    rw [Draw.canYield_pure.1 h]
    exact .null
  | boolean =>
    rw [drawLeaf, Draw.canYield_bind] at h
    obtain ⟨x, -, hnode⟩ := h
    rw [Draw.canYield_pure.1 hnode]
    exact .bool x
  | number =>
    rw [drawLeaf, Draw.canYield_bind] at h
    obtain ⟨⟨n, hlo, hhi⟩, -, hnode⟩ := h
    rw [Draw.canYield_pure.1 hnode]
    exact .int _ ⟨Int.le_trans keeps.least hlo, Int.le_trans hhi keeps.greatest⟩
  | string =>
    rw [drawLeaf, Draw.canYield_bind] at h
    obtain ⟨text, htext, hnode⟩ := h
    rw [Draw.canYield_pure.1 hnode]
    exact .str (keeps.words text htext)
  | array =>
    rw [Draw.canYield_pure.1 h]
    exact .arr (List.forall_mem_nil _)
  | object =>
    rw [Draw.canYield_pure.1 h]
    exact .obj (List.forall_mem_nil _) (List.forall_mem_nil _)

/-- What one insertion preserves. -/
theorem Draws.bounded_add (drawn : g.Draws o d) (keeps : o.KeepsTo b) (h : g.doc.Bounded b) :
    (g.add d).doc.Bounded b := by
  have hnode := bounded_drawLeaf keeps drawn.node
  by_cases skips : g.Skips d
  · rwa [skips.add]
  · rcases container_of_not_skips skips with ⟨items, hitems⟩ | ⟨members, hmembers⟩
    · have hold := (Slot.hereditary_bounded b).nodeAt? h hitems
      rw [(add_arr hitems rfl).1]
      refine (Slot.hereditary_bounded b).replaceAt h (Tree.bounded_arr.2 fun t ht => ?_)
      rcases List.eq_or_mem_of_mem_insertIdx ht with rfl | ht
      · exact hnode
      · exact Tree.bounded_arr.1 hold t ht
    · have hold := (Slot.hereditary_bounded b).nodeAt? h hmembers
      rw [(add_obj hmembers).1]
      exact (Slot.hereditary_bounded b).replaceAt h
        (Tree.bounded_insert hold (keeps.words d.key drawn.key) hnode)

theorem bounded_start (b : Bounds) (root : RootNode) : (start root).doc.Bounded b := by
  cases root with
  | object => exact .obj (List.forall_mem_nil _) (List.forall_mem_nil _)
  | array => exact .arr (List.forall_mem_nil _)

/-- What every run preserves. If nothing is inserted, it does not matter what could be drawn. -/
theorem Run.bounded {allowed : Growth → Insertion → Prop} (run : Run o allowed n g)
    (keeps : 0 < n → o.KeepsTo b) : g.doc.Bounded b := by
  induction run with
  | start => exact bounded_start b o.root
  | add run drawn h ih =>
    have keeps := keeps (Nat.succ_pos _)
    exact drawn.bounded_add keeps (ih fun _ => keeps)

theorem bounded_draw (keeps : 0 < o.count → o.KeepsTo b) {doc : Json} (h : (draw o).CanYield doc) :
    doc.Bounded b := by
  rw [draw, Draw.canYield_bind] at h
  obtain ⟨g, hg, hdoc⟩ := h
  rw [Draw.canYield_pure.1 hdoc]
  exact (canYield_addNodes_start.1 hg).bounded keeps

/-- Any leaf can become the only item of a random array. -/
theorem canYield_draw_single {odds : NodeOdds} {strings : Token} {type : NodeType} {node : Json}
    (htype : odds.draw.CanYield type) (hnode : (drawLeaf strings type).CanYield node) :
    (draw ⟨.array, 1, odds, strings⟩).CanYield (.arr [node]) := by
  obtain ⟨key, hkey⟩ : ∃ key, strings.expand.CanYield key := ⟨_, Draw.canYield_run _ (.ofSeed 0)⟩
  have drawn : (start .array).Draws ⟨.array, 1, odds, strings⟩ ⟨[], type, node, key, 0⟩ :=
    ⟨List.mem_cons_self, htype, hnode, hkey⟩
  rw [draw, Draw.canYield_bind]
  exact ⟨_, canYield_addNodes_start.2 (.add .start drawn trivial), Draw.canYield_pure.2 rfl⟩

end Growth

end FixtureBench
