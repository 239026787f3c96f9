import FixtureBench.Random.Token
import FixtureBench.Tree

/-!
# Random documents

A random document grows from an empty container: one node after another is inserted into a random
container of those grown so far. The paths of the containers are kept beside the document, and an
insertion into an array moves the paths behind it.
-/

namespace FixtureBench

inductive NodeType where
  | null
  | boolean
  | number
  | string
  | array
  | object
deriving DecidableEq

structure NodeOdds where
  null : Nat
  boolean : Nat
  number : Nat
  string : Nat
  array : Nat
  object : Nat

namespace NodeOdds

def default : NodeOdds := ⟨1, 2, 6, 8, 1, 1⟩

def total (odds : NodeOdds) : Nat :=
  odds.null + odds.boolean + odds.number + odds.string + odds.array + odds.object

/-- Go through weighted types until their weights exceed a roll; past the last, an object. -/
def find (roll : Nat) : List (Nat × NodeType) → NodeType
  | [] => .object
  | (weight, type) :: rest => if roll < weight then type else find (roll - weight) rest

def typeOfRoll (odds : NodeOdds) (roll : Nat) : NodeType :=
  find roll [(odds.null, .null), (odds.boolean, .boolean), (odds.number, .number),
    (odds.string, .string), (odds.array, .array)]

/-- A node type drawn with its weight; null if all weights are zero. -/
def draw (odds : NodeOdds) : Draw NodeType :=
  if h : 0 < odds.total then do
    let roll ← Draw.position .word32 odds.total h
    return odds.typeOfRoll roll
  else return .null

end NodeOdds

/-- A child of a container, by the kind of the container. -/
inductive Slot where
  | item (index : Nat)
  | member (key : String)
deriving DecidableEq

namespace Slot

def child? : Slot → Json → Option Json
  | item i, .arr items => items[i]?
  | member key, .obj members => members.get? key
  | _, _ => none

def putChild : Slot → Json → Json → Json
  | item i, .arr items, child => .arr (items.set i child)
  | member key, .obj members, child => .obj (members.insert key child)
  | _, container, _ => container

def nodeAt? : List Slot → Json → Option Json
  | [], doc => some doc
  | slot :: rest, doc => (slot.child? doc).bind (nodeAt? rest)

def replaceAt : List Slot → Json → Json → Json
  | [], _, node => node
  | slot :: rest, doc, node =>
    match slot.child? doc with
    | some child => slot.putChild doc (replaceAt rest child node)
    | none => doc

/-- A path after an insertion at `index` of the array at `base`. -/
def shift (base : List Slot) (index : Nat) (path : List Slot) : List Slot :=
  match base, path with
  | [], .item i :: rest => if index ≤ i then .item (i + 1) :: rest else path
  | b :: base, slot :: rest => if b = slot then slot :: shift base index rest else path
  | _, _ => path

end Slot

inductive RootNode where
  | object
  | array
deriving DecidableEq

structure GrowthOptions where
  root : RootNode
  /-- How many nodes are inserted below the root. -/
  count : Nat
  odds : NodeOdds
  /-- The strings and keys of the document. -/
  strings : Token

namespace GrowthOptions

def default : GrowthOptions := ⟨.object, 4, .default, .word 1 8⟩

end GrowthOptions

/-- A growing document with the paths of the containers below its root. -/
structure Growth where
  doc : Json
  inner : Array (List Slot)

namespace Growth

def start (root : RootNode) : Growth :=
  ⟨match root with
    | .object => .obj {}
    | .array => .arr [], #[]⟩

/-- The paths of the containers that can be chosen, the root first. -/
def containers (g : Growth) : List (List Slot) := [] :: g.inner.toList

def size (g : Growth) : Nat := g.inner.size + 1

def path (g : Growth) : Fin g.size → List Slot
  | ⟨0, _⟩ => []
  | ⟨i + 1, h⟩ =>
    have : i < g.inner.size := Nat.lt_of_succ_lt_succ h
    g.inner[i]

theorem length_containers (g : Growth) : g.containers.length = g.size := by
  simp [containers, size]

theorem getElem?_containers (g : Growth) (i : Fin g.size) :
    g.containers[i.val]? = some (g.path i) := by
  obtain ⟨i, h⟩ := i
  cases i with
  | zero => rfl
  | succ i =>
    have hi : i < g.inner.size := Nat.lt_of_succ_lt_succ h
    simp [containers, path, hi]

/-- Insert a node into the container at a path: at a position below an array's length plus one,
picked by `roll`, or under `key` of an object. -/
def insert (g : Growth) (path : List Slot) (key : String) (roll : Nat) (isContainer : Bool)
    (node : Json) : Growth :=
  match Slot.nodeAt? path g.doc with
  | some (.arr items) =>
    let index := roll % (items.length + 1)
    let doc := Slot.replaceAt path g.doc (.arr (items.insertIdx index node))
    let inner := g.inner.map (Slot.shift path index)
    ⟨doc, if isContainer then inner.push (path ++ [.item index]) else inner⟩
  | some (.obj members) =>
    let doc := Slot.replaceAt path g.doc (.obj (members.insert key node))
    ⟨doc, if isContainer then g.inner.push (path ++ [.member key]) else g.inner⟩
  | _ => g

def drawLeaf (strings : Token) : NodeType → Draw Json
  | .null => return .null
  | .boolean => return .bool (← Draw.chance .half)
  | .number => do
    let ⟨n, inRange⟩ ← Draw.integer .word64 (-1000) 1000 (by decide)
    return .num (.int n (by omega))
  | .string => return .str (← strings.expand)
  | .array => return .arr []
  | .object => return .obj {}

def addNode (o : GrowthOptions) (g : Growth) : Draw Growth := do
  let i ← Draw.position .word64 g.size (Nat.succ_pos _)
  let type ← o.odds.draw
  let node ← drawLeaf o.strings type
  let key ← o.strings.expand
  let roll ← Draw.word
  return g.insert (g.path i) key roll.toNat (type = .array || type = .object) node

def addNodes (o : GrowthOptions) : Nat → Growth → Draw Growth
  | 0, g => return g
  | count + 1, g => do addNodes o count (← g.addNode o)

def draw (o : GrowthOptions) : Draw Json := do
  return (← addNodes o o.count (start o.root)).doc

end Growth

end FixtureBench
