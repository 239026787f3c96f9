import FixtureBench.Proofs.Random.Odds
import FixtureBench.Proofs.Random.Paths
import FixtureBench.Random.Xoshiro
import Mathlib.Data.List.Nodup

/-!
# Growing without key collisions

A document grows by insertions, whatever the draws are. An insertion collides when its key is taken
in the object that it goes to, and then a subtree may be lost. As long as no insertion collides, all
recorded paths lead to containers, no container is recorded twice, and every insertion adds its
node. A document of arrays has no keys to collide.
-/

namespace FixtureBench

def NodeType.root? : NodeType → Option RootNode
  | .array => some .array
  | .object => some .object
  | _ => none

theorem NodeType.isSome_root? (type : NodeType) :
    type.root?.isSome = (type = .array || type = .object) := by
  cases type <;> rfl

/-- Whether the options ask for containers of a kind, at the root or below. -/
def GrowthOptions.Asks (o : GrowthOptions) : RootNode → Prop
  | .array => o.root = .array ∨ 0 < o.odds.array
  | .object => o.root = .object ∨ 0 < o.odds.object

theorem GrowthOptions.asks_root (o : GrowthOptions) : o.Asks o.root := by
  cases h : o.root with
  | array => exact .inl h
  | object => exact .inl h

theorem GrowthOptions.asks_draw {o : GrowthOptions} {type : NodeType} {kind : RootNode}
    (h : o.odds.draw.CanYield type) (hkind : type.root? = some kind) : o.Asks kind := by
  rcases NodeOdds.weight_draw h with rfl | hweight
  · cases hkind
  · cases type with
    | array =>
      obtain rfl := Option.some.inj hkind
      exact .inr hweight
    | object =>
      obtain rfl := Option.some.inj hkind
      exact .inr hweight
    | _ => cases hkind

/-- What is drawn to insert a node. -/
structure Insertion where
  path : List Slot
  type : NodeType
  node : Json
  key : String
  roll : UInt64

namespace Growth

variable {o : GrowthOptions} {g : Growth} {d : Insertion} {n : Nat}

theorem drawLeaf_spec {strings : Token} {type : NodeType} {node : Json}
    (h : (drawLeaf strings type).CanYield node) :
    node.root? = type.root? ∧ node.descendants = 0 := by
  cases type with
  | null | array | object =>
    rw [Draw.canYield_pure.1 h]
    exact ⟨rfl, rfl⟩
  | boolean | string | number =>
    rw [drawLeaf, Draw.canYield_bind] at h
    obtain ⟨_, -, hnode⟩ := h
    rw [Draw.canYield_pure.1 hnode]
    exact ⟨rfl, rfl⟩

/-! ## Insertions -/

def add (g : Growth) (d : Insertion) : Growth :=
  g.insert d.path d.key d.roll.toNat d.type.root?.isSome d.node

structure Draws (o : GrowthOptions) (g : Growth) (d : Insertion) : Prop where
  path : d.path ∈ g.containers
  type : o.odds.draw.CanYield d.type
  node : (drawLeaf o.strings d.type).CanYield d.node
  key : o.strings.expand.CanYield d.key

/-- Whether the insertion goes to an object that has its key already. -/
def Collides (g : Growth) (d : Insertion) : Prop :=
  ∃ members, Slot.nodeAt? d.path g.doc = some (.obj members) ∧ d.key ∈ members.keys

/-- Whether there is no container to insert the node into. -/
def Skips (g : Growth) (d : Insertion) : Prop := Slot.kindAt? d.path g.doc = none

theorem Skips.add (h : g.Skips d) : g.add d = g := by
  rw [Growth.add, insert]
  rw [Skips, Slot.kindAt?] at h
  cases hnode : Slot.nodeAt? d.path g.doc with
  | none => rfl
  | some node =>
    rw [hnode] at h
    cases node with
    | arr items => cases h
    | obj members => cases h
    | _ => rfl

theorem containers_push (doc : Json) (inner : Array (List Slot)) (path : List Slot)
    (isContainer : Bool) :
    containers ⟨doc, if isContainer then inner.push path else inner⟩ =
      [] :: inner.toList ++ if isContainer then [path] else [] := by
  cases isContainer <;> simp [containers]

theorem add_arr {items : List Json} (h : Slot.nodeAt? d.path g.doc = some (.arr items))
    {index : Nat} (hindex : index = d.roll.toNat % (items.length + 1)) :
    (g.add d).doc = Slot.replaceAt d.path g.doc (.arr (items.insertIdx index d.node)) ∧
      (g.add d).containers = g.containers.map (Slot.rebase (Slot.behind index) d.path) ++
        if d.type.root?.isSome then [d.path ++ [.item index]] else [] := by
  have hshift : g.containers.map (Slot.rebase (Slot.behind index) d.path) =
      [] :: (g.inner.map (Slot.shift d.path index)).toList := by
    simp [containers, Slot.shift_eq_rebase]
  subst hindex
  rw [add, insert, h, hshift]
  exact ⟨rfl, containers_push _ _ _ _⟩

theorem add_obj {members : Keyed Json} (h : Slot.nodeAt? d.path g.doc = some (.obj members)) :
    (g.add d).doc = Slot.replaceAt d.path g.doc (.obj (members.insert d.key d.node)) ∧
      (g.add d).containers = g.containers ++
        if d.type.root?.isSome then [d.path ++ [.member d.key]] else [] := by
  rw [add, insert, h]
  exact ⟨rfl, containers_push _ _ _ _⟩

/-- The insertion places its node in a free slot of the container at its path. -/
structure Places (g : Growth) (d : Insertion) (slot : Slot) (old new : Json) (move : Slot → Slot) :
    Prop where
  container : Slot.nodeAt? d.path g.doc = some old
  fills : Slot.Fills slot d.node old new move
  doc : (g.add d).doc = Slot.replaceAt d.path g.doc new
  containers : (g.add d).containers = g.containers.map (Slot.rebase move d.path) ++
    if d.type.root?.isSome then [d.path ++ [slot]] else []

theorem container_of_not_skips (skips : ¬ g.Skips d) :
    (∃ items, Slot.nodeAt? d.path g.doc = some (.arr items)) ∨
      ∃ members, Slot.nodeAt? d.path g.doc = some (.obj members) := by
  rw [Skips, Slot.kindAt?] at skips
  cases hnode : Slot.nodeAt? d.path g.doc with
  | none => exact absurd (by rw [hnode]; rfl) skips
  | some node =>
    rw [hnode] at skips
    cases node with
    | arr items => exact .inl ⟨items, rfl⟩
    | obj members => exact .inr ⟨members, rfl⟩
    | _ => exact absurd rfl skips

/-- An insertion that neither skips nor collides places its node in a free slot. -/
theorem exists_places (skips : ¬ g.Skips d) (collides : ¬ g.Collides d) :
    ∃ slot old new move, g.Places d slot old new move := by
  rcases container_of_not_skips skips with ⟨items, hitems⟩ | ⟨members, hmembers⟩
  · have hindex : d.roll.toNat % (items.length + 1) ≤ items.length :=
      Nat.le_of_lt_succ (Nat.mod_lt _ (Nat.succ_pos _))
    obtain ⟨hdoc, hcontainers⟩ := add_arr hitems rfl
    exact ⟨_, _, _, _, hitems, Slot.fills_insertIdx hindex d.node, hdoc, hcontainers⟩
  · have fresh : d.key ∉ members.keys := fun hkey => collides ⟨members, hmembers, hkey⟩
    obtain ⟨hdoc, hcontainers⟩ := add_obj hmembers
    have hstay : g.containers.map (Slot.rebase id d.path) = g.containers := by
      rw [funext (Slot.rebase_id d.path), List.map_id']
    exact ⟨_, _, _, _, hmembers, Slot.fills_insert fresh d.node, hdoc, by rw [hstay, hcontainers]⟩

section Places

variable {slot : Slot} {old new : Json} {move : Slot → Slot} {path : List Slot}

theorem Places.mem_containers (h : g.Places d slot old new move) :
    path ∈ (g.add d).containers ↔
      (∃ before ∈ g.containers, Slot.rebase move d.path before = path) ∨
        d.type.root?.isSome = true ∧ path = d.path ++ [slot] := by
  rw [h.containers, List.mem_append, List.mem_map]
  cases d.type.root?.isSome <;> simp

/-- The container has moved with the children of the chosen container. -/
theorem Places.kindAt?_rebase (h : g.Places d slot old new move) {kind : RootNode}
    (hpath : Slot.kindAt? path g.doc = some kind) :
    Slot.kindAt? (Slot.rebase move d.path path) (g.add d).doc = some kind := by
  rw [h.doc]
  exact Slot.kindAt?_rebase h.container h.fills.same h.fills.moved hpath

theorem Places.kindAt?_slot (h : g.Places d slot old new move) :
    Slot.kindAt? (d.path ++ [slot]) (g.add d).doc = d.node.root? := by
  rw [h.doc, Slot.kindAt?, Slot.nodeAt?_append_replaceAt h.container, Slot.nodeAt?, h.fills.filled]
  rfl

theorem Places.descendants (h : g.Places d slot old new move) :
    (g.add d).doc.descendants = g.doc.descendants + (d.node.descendants + 1) := by
  have hreplaced := Slot.descendants_replaceAt h.container new
  have hsize := h.fills.size
  rw [h.doc]
  omega

end Places

theorem mem_containers {path : List Slot} : path ∈ g.containers ↔ ∃ i, g.path i = path := by
  constructor
  · intro h
    obtain ⟨i, hi, hpath⟩ := List.getElem_of_mem h
    rw [length_containers] at hi
    have hget := g.getElem?_containers ⟨i, hi⟩
    rw [List.getElem?_eq_getElem (by rw [length_containers]; exact hi), hpath] at hget
    exact ⟨⟨i, hi⟩, (Option.some.inj hget).symm⟩
  · rintro ⟨i, rfl⟩
    exact List.mem_of_getElem? (g.getElem?_containers i)

theorem canYield_addNode {g' : Growth} :
    (g.addNode o).CanYield g' ↔ ∃ d, g.Draws o d ∧ g' = g.add d := by
  simp only [addNode, ← NodeType.isSome_root?, Draw.canYield_bind, Draw.canYield_pure]
  constructor
  · rintro ⟨i, -, type, htype, node, hnode, key, hkey, roll, -, rfl⟩
    exact ⟨⟨g.path i, type, node, key, roll⟩, ⟨mem_containers.2 ⟨i, rfl⟩, htype, hnode, hkey⟩, rfl⟩
  · rintro ⟨⟨path, type, node, key, roll⟩, ⟨hpath, htype, hnode, hkey⟩, rfl⟩
    obtain ⟨i, rfl⟩ := mem_containers.1 hpath
    exact ⟨i, Draw.canYield_position i, type, htype, node, hnode, key, hkey, roll,
      Draw.canYield_word roll, rfl⟩

/-! ## Runs -/

/-- The growths after a number of insertions, all of which are allowed. -/
inductive Run (o : GrowthOptions) (allowed : Growth → Insertion → Prop) : Nat → Growth → Prop where
  | start : Run o allowed 0 (start o.root)
  | add {n : Nat} {g : Growth} {d : Insertion} (run : Run o allowed n g) (drawn : Draws o g d)
      (h : allowed g d) : Run o allowed (n + 1) (g.add d)

theorem canYield_addNodes_succ {g g' : Growth} :
    (addNodes o (n + 1) g).CanYield g' ↔
      ∃ last, (addNodes o n g).CanYield last ∧ (last.addNode o).CanYield g' := by
  induction n generalizing g with
  | zero => simp [addNodes]
  | succ n ih =>
    rw [addNodes, Draw.canYield_bind]
    constructor
    · rintro ⟨next, hnext, hrest⟩
      obtain ⟨last, hlast, hadd⟩ := ih.1 hrest
      exact ⟨last, Draw.canYield_bind.2 ⟨next, hnext, hlast⟩, hadd⟩
    · rintro ⟨last, hlast, hadd⟩
      obtain ⟨next, hnext, hrest⟩ := Draw.canYield_bind.1 hlast
      exact ⟨next, hnext, ih.2 ⟨last, hrest, hadd⟩⟩

theorem canYield_addNodes_start :
    (addNodes o n (start o.root)).CanYield g ↔ Run o (fun _ _ => True) n g := by
  induction n generalizing g with
  | zero =>
    rw [addNodes, Draw.canYield_pure]
    constructor
    · rintro rfl
      exact .start
    · intro run
      cases run
      rfl
  | succ n ih =>
    simp only [canYield_addNodes_succ, canYield_addNode, ih]
    constructor
    · rintro ⟨last, run, d, drawn, rfl⟩
      exact run.add drawn trivial
    · intro run
      cases run with
      | add run drawn => exact ⟨_, run, _, drawn, rfl⟩

/-- What insertions without collisions preserve. -/
structure Intact (o : GrowthOptions) (n : Nat) (g : Growth) : Prop where
  /-- Every recorded path leads to a container of a kind that the options ask for. -/
  resolves : ∀ path ∈ g.containers, ∃ kind, Slot.kindAt? path g.doc = some kind ∧ o.Asks kind
  distinct : g.containers.Nodup
  /-- Every insertion has added a node below the root. -/
  complete : g.doc.descendants = n

theorem Intact.not_skips (h : g.Intact o n) (drawn : g.Draws o d) : ¬ g.Skips d := by
  intro skips
  obtain ⟨kind, hkind, -⟩ := h.resolves d.path drawn.path
  rw [Skips, hkind] at skips
  cases skips

theorem intact_start (o : GrowthOptions) : Intact o 0 (start o.root) where
  resolves := by
    intro path hpath
    obtain rfl := List.mem_singleton.1 hpath
    exact ⟨o.root, by cases o.root <;> rfl, o.asks_root⟩
  distinct := List.nodup_singleton []
  complete := by cases o.root <;> rfl

/-- What one insertion preserves. -/
theorem Intact.add (h : g.Intact o n) (drawn : g.Draws o d) (collides : ¬ g.Collides d) :
    (g.add d).Intact o (n + 1) := by
  obtain ⟨slot, old, new, move, places⟩ := exists_places (h.not_skips drawn) collides
  obtain ⟨hroot, hleaf⟩ := drawLeaf_spec drawn.node
  constructor
  · intro path hpath
    rcases places.mem_containers.1 hpath with ⟨before, hbefore, rfl⟩ | ⟨hcontainer, rfl⟩
    · obtain ⟨kind, hkind, asks⟩ := h.resolves before hbefore
      exact ⟨kind, places.kindAt?_rebase hkind, asks⟩
    · obtain ⟨kind, hkind⟩ := Option.isSome_iff_exists.1 hcontainer
      have hslot : Slot.kindAt? (d.path ++ [slot]) (g.add d).doc = some kind := by
        rw [places.kindAt?_slot, hroot, hkind]
      exact ⟨kind, hslot, GrowthOptions.asks_draw drawn.type hkind⟩
  · have hmoved := h.distinct.map (Slot.rebase_injective places.fills.injective d.path)
    rw [places.containers]
    refine hmoved.append (by split <;> simp) ?_
    -- The new path is none of the moved ones, because their containers moved to other slots.
    intro path hmem hnew
    obtain ⟨before, hbefore, rfl⟩ := List.mem_map.1 hmem
    obtain ⟨kind, hkind, -⟩ := h.resolves before hbefore
    split at hnew
    · exact Slot.rebase_ne places.container places.fills.free hkind (List.mem_singleton.1 hnew)
    · cases hnew
  · rw [places.descendants, h.complete, hleaf]

theorem Run.intact (run : Run o (fun g d => ¬ g.Collides d) n g) : g.Intact o n := by
  induction run with
  | start => exact intact_start o
  | add run drawn h ih => exact ih.add drawn h

theorem Run.imp {allowed allowed' : Growth → Insertion → Prop} (run : Run o allowed n g)
    (h : ∀ {n g d}, Run o allowed' n g → g.Draws o d → allowed g d → allowed' g d) :
    Run o allowed' n g := by
  induction run with
  | start => exact .start
  | add run drawn hallowed ih => exact ih.add drawn (h ih drawn hallowed)

/-- Without an object below the root there is nothing to collide with in an array. -/
theorem Run.not_collides (hroot : o.root = .array) (hodds : o.odds.object = 0)
    (run : Run o (fun g d => ¬ g.Collides d) n g) (drawn : g.Draws o d) : ¬ g.Collides d := by
  rintro ⟨members, hnode, -⟩
  obtain ⟨kind, hkind, asks⟩ := run.intact.resolves d.path drawn.path
  rw [Slot.kindAt?, hnode] at hkind
  obtain rfl := Option.some.inj hkind
  rcases asks with h | h
  · cases hroot.symm.trans h
  · omega

/-- A document is drawn by a run of insertions. As long as none has collided, the growth is intact
and no insertion is skipped; and none collides in an array without objects. -/
theorem draw_intact (o : GrowthOptions) :
    (∀ doc, (draw o).CanYield doc ↔ ∃ g, Run o (fun _ _ => True) o.count g ∧ doc = g.doc) ∧
    (∀ n g, Run o (fun g d => ¬ g.Collides d) n g →
      g.Intact o n ∧ ∀ d, g.Draws o d → ¬ g.Skips d) ∧
    (o.root = .array → o.odds.object = 0 → ∀ n g, Run o (fun _ _ => True) n g →
      Run o (fun g d => ¬ g.Collides d) n g ∧ ∀ d, g.Draws o d → ¬ g.Collides d) := by
  refine ⟨?_, ?_, ?_⟩
  · intro doc
    simp only [draw, Draw.canYield_bind, Draw.canYield_pure, canYield_addNodes_start]
  · intro n g run
    exact ⟨run.intact, fun d drawn => run.intact.not_skips drawn⟩
  · intro hroot hodds n g run
    have fresh : Run o (fun g d => ¬ g.Collides d) n g :=
      run.imp fun fresh drawn _ => fresh.not_collides hroot hodds drawn
    exact ⟨fresh, fun d drawn => fresh.not_collides hroot hodds drawn⟩

/-- Ten nodes below an array, without objects. -/
def objectFree : GrowthOptions := ⟨.array, 10, ⟨1, 2, 6, 8, 1, 0⟩, .word 1 8⟩

theorem draw_intact_objectFree : ((draw objectFree).run (.ofSeed 7)).1.descendants = 10 := by
  obtain ⟨runs, intact, apart⟩ := draw_intact objectFree
  obtain ⟨g, run, hdoc⟩ := (runs _).1 (Draw.canYield_run (draw objectFree) (.ofSeed 7))
  rw [hdoc]
  exact (intact _ g (apart rfl rfl _ g run).1).1.complete

end Growth

end FixtureBench
