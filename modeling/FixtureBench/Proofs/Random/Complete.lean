import FixtureBench.Proofs.Random.Run

/-!
# Every container stays recorded

An insertion may overwrite a member of an object and lose what lies below it. Recorded paths may
then lead nowhere, or several of them to one place. But a container that is in the document has its
path recorded, wherever the insertions since have moved it, so that it can be chosen again. And no
insertion adds more than one node.
-/

namespace FixtureBench

namespace Slot

variable {slot : Slot} {base path : List Slot} {doc node old new child : Json} {move : Slot → Slot}

/-! ## Receiving a node -/

/-- The container `new` is `old` with a node in a slot. All other children have come from slots of
`old`, but a child of `old` may be gone. -/
structure Receives (slot : Slot) (node old new : Json) (move : Slot → Slot) : Prop where
  same : new.root? = old.root?
  filled : slot.child? new = some node
  others : ∀ other child, other.child? new = some child →
    other = slot ∨ ∃ before, move before = other ∧ before.child? old = some child
  size : new.descendants ≤ old.descendants + (node.descendants + 1)
  wellFormed : old.WellFormed → node.WellFormed → new.WellFormed

theorem exists_behind {index : Nat} (h : slot ≠ .item index) :
    ∃ before, behind index before = slot := by
  cases slot with
  | item i =>
    have hne : i ≠ index := fun hi => h (congrArg item hi)
    rcases Nat.lt_or_gt_of_ne hne with hlt | hlt
    · exact ⟨.item i, congrArg item (if_neg (Nat.not_le_of_lt hlt))⟩
    · refine ⟨.item (i - 1), congrArg item ?_⟩
      rw [if_pos (Nat.le_sub_one_of_lt hlt)]
      omega
  | member key => exact ⟨.member key, rfl⟩

theorem receives_insertIdx {items : List Json} {index : Nat} (h : index ≤ items.length)
    (node : Json) :
    Receives (.item index) node (.arr items) (.arr (items.insertIdx index node))
      (behind index) where
  same := rfl
  filled := (fills_insertIdx h node).filled
  others := by
    intro other child hchild
    by_cases hother : other = .item index
    · exact .inl hother
    · obtain ⟨before, rfl⟩ := exists_behind hother
      rw [child?_behind] at hchild
      exact .inr ⟨before, rfl, hchild⟩
  size := Nat.le_of_eq (Tree.descendants_insertIdx h node)
  wellFormed := by
    rw [Tree.wellFormed_arr, Tree.wellFormed_arr]
    intro hitems hnode t ht
    rcases (List.mem_insertIdx h).1 ht with rfl | ht
    · exact hnode
    · exact hitems t ht

/-- A new member comes to the others, and a member under a known key replaces a subtree. -/
theorem receives_insert (members : Keyed Json) (key : String) (node : Json) :
    Receives (.member key) node (.obj members) (.obj (members.insert key node)) id where
  same := rfl
  filled := by rw [child?, Keyed.get?_insert, if_pos rfl]
  others := by
    intro other child hchild
    by_cases hother : other = .member key
    · exact .inl hother
    · have hstay : other.child? (putChild (.member key) (.obj members) node) =
          other.child? (.obj members) := child?_putChild_of_ne hother _ _
      exact .inr ⟨other, rfl, hstay.symm.trans hchild⟩
  size := by
    by_cases hkey : key ∈ members.keys
    · obtain ⟨old, hold⟩ := Keyed.exists_get?_iff.2 hkey
      have hsize := Keyed.sum_values_insert (Tree.descendants · + 1) hold node
      rw [Tree.descendants_obj, Tree.descendants_obj]
      omega
    · exact Nat.le_of_eq (Tree.descendants_insert hkey node)
  wellFormed := by
    rw [Tree.wellFormed_obj, Tree.wellFormed_obj]
    rintro ⟨distinct, hmembers⟩ hnode
    refine ⟨distinct.insert key node, fun e he => ?_⟩
    rcases Keyed.mem_values_insert (List.mem_map_of_mem he) with hvalue | hvalue
    · rwa [hvalue]
    · obtain ⟨e', he', hvalue⟩ := List.mem_map.1 hvalue
      rw [← hvalue]
      exact hmembers e' he'

/-! ## Well-formed documents -/

theorem hereditary_wellFormed : Hereditary Tree.WellFormed := by
  refine .of (fun items => Tree.wellFormed_arr) ?_ ?_
  · intro members h t ht
    obtain ⟨e, he, rfl⟩ := List.mem_map.1 ht
    exact (Tree.wellFormed_obj.1 h).2 e he
  · intro members key t h hkey ht
    exact (receives_insert members key t).wellFormed h ht

/-! ## Where the containers of the new document were before -/

theorem empty_of_descendants (h : node.descendants = 0) :
    node = .arr [] ∨ node = .obj {} ∨ node.root? = none := by
  cases node with
  | arr items =>
    cases items with
    | nil => exact .inl rfl
    | cons t rest =>
      rw [Tree.descendants_arr, List.map_cons, List.sum_cons] at h
      omega
  | obj members =>
    obtain ⟨entries⟩ := members
    cases entries with
    | nil => exact .inr (.inl rfl)
    | cons e rest =>
      rw [Tree.descendants_obj, Keyed.values, List.map_cons, List.map_cons, List.sum_cons] at h
      omega
  | _ => exact .inr (.inr rfl)

theorem child?_of_descendants (h : node.descendants = 0) (slot : Slot) :
    slot.child? node = none := by
  rcases empty_of_descendants h with rfl | rfl | hroot
  · cases slot <;> rfl
  · cases slot <;> rfl
  · cases node with
    | arr items => cases hroot
    | obj members => cases hroot
    | _ => cases slot <;> rfl

theorem wellFormed_of_descendants (h : node.descendants = 0) : node.WellFormed := by
  rcases empty_of_descendants h with rfl | rfl | hroot
  · exact Tree.wellFormed_arr.2 fun _ ht => nomatch ht
  · exact Tree.wellFormed_obj.2 ⟨Keyed.distinct_empty, fun _ he => nomatch he⟩
  · cases node with
    | arr items => cases hroot
    | obj members => cases hroot
    | _ => trivial

/-- A container is there already, at the path from which it has moved, or it lies in the node that
was received. -/
theorem exists_rebase (h : nodeAt? base doc = some old) (receives : Receives slot node old new move)
    {kind : RootNode} (hpath : kindAt? path (replaceAt base doc new) = some kind) :
    (∃ before, kindAt? before doc = some kind ∧ rebase move base before = path) ∨
      ∃ rest, path = base ++ slot :: rest ∧ kindAt? rest node = some kind := by
  induction base generalizing doc path with
  | nil =>
    obtain rfl := Option.some.inj h
    rw [replaceAt] at hpath
    cases path with
    | nil => exact .inl ⟨[], receives.same.symm.trans hpath, rebase_nil move []⟩
    | cons other rest =>
      rw [kindAt?_cons, Option.bind_eq_some_iff] at hpath
      obtain ⟨child, hchild, hrest⟩ := hpath
      rcases receives.others other child hchild with rfl | ⟨before, rfl, hbefore⟩
      · obtain rfl := Option.some.inj (hchild.symm.trans receives.filled)
        exact .inr ⟨rest, rfl, hrest⟩
      · refine .inl ⟨before :: rest, ?_, rfl⟩
        rw [kindAt?_cons, hbefore]
        exact hrest
  | cons b base ih =>
    cases path with
    | nil => exact .inl ⟨[], (root?_replaceAt h receives.same).symm.trans hpath, rebase_nil move _⟩
    | cons other rest =>
      obtain ⟨child, hchild, hbase⟩ := nodeAt?_cons.1 h
      rw [replaceAt_cons hchild, kindAt?_cons] at hpath
      by_cases hother : other = b
      · subst hother
        rw [child?_putChild hchild] at hpath
        rcases ih hbase hpath with ⟨before, hbefore, rfl⟩ | ⟨rest, rfl, hrest⟩
        · refine .inl ⟨other :: before, ?_, ?_⟩
          · rw [kindAt?_cons, hchild]
            exact hbefore
          · rw [rebase, if_pos rfl]
        · exact .inr ⟨rest, rfl, hrest⟩
      · -- The path leads away from the changed container.
        rw [child?_putChild_of_ne hother] at hpath
        refine .inl ⟨other :: rest, ?_, ?_⟩
        · rw [kindAt?_cons]
          exact hpath
        · rw [rebase, if_neg (Ne.symm hother)]

end Slot

namespace Growth

variable {o : GrowthOptions} {g : Growth} {d : Insertion} {n : Nat}

/-- The insertion goes to a container, whatever the slot of its node held before. -/
structure Lands (g : Growth) (d : Insertion) (slot : Slot) (old new : Json) (move : Slot → Slot) :
    Prop where
  container : Slot.nodeAt? d.path g.doc = some old
  receives : Slot.Receives slot d.node old new move
  doc : (g.add d).doc = Slot.replaceAt d.path g.doc new
  containers : (g.add d).containers = g.containers.map (Slot.rebase move d.path) ++
    if d.type.root?.isSome then [d.path ++ [slot]] else []

theorem exists_lands (skips : ¬ g.Skips d) : ∃ slot old new move, g.Lands d slot old new move := by
  rcases container_of_not_skips skips with ⟨items, hitems⟩ | ⟨members, hmembers⟩
  · have hindex : d.roll.toNat % (items.length + 1) ≤ items.length :=
      Nat.le_of_lt_succ (Nat.mod_lt _ (Nat.succ_pos _))
    obtain ⟨hdoc, hcontainers⟩ := add_arr hitems rfl
    exact ⟨_, _, _, _, hitems, Slot.receives_insertIdx hindex d.node, hdoc, hcontainers⟩
  · obtain ⟨hdoc, hcontainers⟩ := add_obj hmembers
    have hstay : g.containers.map (Slot.rebase id d.path) = g.containers := by
      rw [funext (Slot.rebase_id d.path), List.map_id']
    exact ⟨_, _, _, _, hmembers, Slot.receives_insert members d.key d.node, hdoc,
      by rw [hstay, hcontainers]⟩

/-- One insertion adds at most one node. -/
theorem Draws.descendants_add (drawn : g.Draws o d) :
    (g.add d).doc.descendants ≤ g.doc.descendants + 1 := by
  by_cases skips : g.Skips d
  · rw [skips.add]
    exact Nat.le_succ _
  · obtain ⟨slot, old, new, move, lands⟩ := exists_lands skips
    have hleaf := (drawLeaf_spec drawn.node).2
    have hsize := lands.receives.size
    have hreplaced := Slot.descendants_replaceAt lands.container new
    rw [lands.doc]
    omega

/-- What every insertion preserves. -/
structure Complete (o : GrowthOptions) (n : Nat) (g : Growth) : Prop where
  root : g.doc.root? = some o.root
  /-- No key occurs twice in an object, so every node has a path. -/
  wellFormed : g.doc.WellFormed
  bounded : g.doc.descendants ≤ n
  recorded : ∀ path kind, Slot.kindAt? path g.doc = some kind → path ∈ g.containers

theorem descendants_start (root : RootNode) : (start root).doc.descendants = 0 := by
  cases root <;> rfl

theorem complete_start (o : GrowthOptions) : Complete o 0 (start o.root) where
  root := by cases o.root <;> rfl
  wellFormed := Slot.wellFormed_of_descendants (descendants_start o.root)
  bounded := Nat.le_of_eq (descendants_start o.root)
  recorded := by
    intro path kind hpath
    cases path with
    | nil => exact List.mem_cons_self
    | cons slot rest =>
      rw [Slot.kindAt?_cons, Slot.child?_of_descendants (descendants_start o.root)] at hpath
      cases hpath

/-- The containers of the document after an insertion are those from before, where they have moved
to, and the new node. -/
theorem Lands.mem_containers {slot : Slot} {old new : Json} {move : Slot → Slot}
    (lands : g.Lands d slot old new move) (drawn : g.Draws o d)
    (recorded : ∀ path kind, Slot.kindAt? path g.doc = some kind → path ∈ g.containers)
    {path : List Slot} {kind : RootNode} (hpath : Slot.kindAt? path (g.add d).doc = some kind) :
    path ∈ (g.add d).containers := by
  obtain ⟨hroot, hleaf⟩ := drawLeaf_spec drawn.node
  rw [lands.doc] at hpath
  rw [lands.containers, List.mem_append]
  rcases Slot.exists_rebase lands.container lands.receives hpath with
    ⟨before, hbefore, rfl⟩ | ⟨rest, rfl, hrest⟩
  · exact .inl (List.mem_map_of_mem (recorded before kind hbefore))
  · cases rest with
    | nil =>
      have hkind : d.type.root? = some kind := hroot.symm.trans hrest
      rw [hkind]
      exact .inr List.mem_cons_self
    | cons below rest =>
      rw [Slot.kindAt?_cons, Slot.child?_of_descendants hleaf] at hrest
      cases hrest

/-- What one insertion preserves, collisions included. -/
theorem Complete.add (h : g.Complete o n) (drawn : g.Draws o d) :
    (g.add d).Complete o (n + 1) := by
  by_cases skips : g.Skips d
  · rw [skips.add]
    exact ⟨h.root, h.wellFormed, Nat.le_succ_of_le h.bounded, h.recorded⟩
  · obtain ⟨slot, old, new, move, lands⟩ := exists_lands skips
    constructor
    · exact (g.root?_insert _ _ _ _ _).trans h.root
    · rw [lands.doc]
      exact Slot.hereditary_wellFormed.replaceAt h.wellFormed (lands.receives.wellFormed
        (Slot.hereditary_wellFormed.nodeAt? h.wellFormed lands.container)
        (Slot.wellFormed_of_descendants (drawLeaf_spec drawn.node).2))
    · exact Nat.le_trans drawn.descendants_add (Nat.succ_le_succ h.bounded)
    · exact fun path kind hpath => lands.mem_containers drawn h.recorded hpath

theorem Run.complete {allowed : Growth → Insertion → Prop} (run : Run o allowed n g) :
    g.Complete o n := by
  induction run with
  | start => exact complete_start o
  | add run drawn h ih => exact ih.add drawn

/-- Every recorded container can be drawn, with some node for it. -/
theorem exists_draws {path : List Slot} (h : path ∈ g.containers) :
    ∃ d, g.Draws o d ∧ d.path = path := by
  obtain ⟨type, htype⟩ : ∃ type, o.odds.draw.CanYield type :=
    ⟨_, Draw.canYield_run _ (.ofSeed 0)⟩
  obtain ⟨node, hnode⟩ : ∃ node, (drawLeaf o.strings type).CanYield node :=
    ⟨_, Draw.canYield_run _ (.ofSeed 0)⟩
  obtain ⟨key, hkey⟩ : ∃ key, o.strings.expand.CanYield key := ⟨_, Draw.canYield_run _ (.ofSeed 0)⟩
  exact ⟨⟨path, type, node, key, 0⟩, ⟨h, htype, hnode, hkey⟩, rfl⟩

/-- Whatever is inserted after another, the document keeps its root, every container in it is
recorded and can be drawn for the next insertion, and there are at most as many nodes as
insertions, since none of them adds more than one. -/
theorem addNodes_complete (o : GrowthOptions) :
    (∀ n g, (addNodes o n (start o.root)).CanYield g → g.Complete o n ∧
      ∀ path kind, Slot.kindAt? path g.doc = some kind → ∃ d, g.Draws o d ∧ d.path = path) ∧
    ∀ g g' : Growth, (g.addNode o).CanYield g' → g'.doc.descendants ≤ g.doc.descendants + 1 := by
  constructor
  · intro n g h
    have complete := (canYield_addNodes_start.1 h).complete
    exact ⟨complete, fun path kind hpath => exists_draws (complete.recorded path kind hpath)⟩
  · intro g g' h
    obtain ⟨d, drawn, rfl⟩ := canYield_addNode.1 h
    exact drawn.descendants_add

/-- Containers only, all under one key, so that each in an object replaces the one before. -/
def overwriting : GrowthOptions := ⟨.object, 20, ⟨0, 0, 0, 0, 1, 1⟩, .text "a"⟩

theorem addNodes_complete_overwriting :
    ((addNodes overwriting 20 (start .object)).run (.ofSeed 7)).1.Complete overwriting 20 :=
  ((addNodes_complete overwriting).1 20 _ (Draw.canYield_run _ _)).1

end Growth

end FixtureBench
