import FixtureBench.Random.Growth
import Mathlib.Data.Nat.Count

/-!
# Node types by weight

A roll is compared with the weights of the types one after another, and each weight that does not
exceed it is taken off. So the rolls below the total fall to the types in order, to each type as
many as it weighs: `NodeOdds.tickets` lists the types of all rolls. If the total is a 32-bit word,
the same search on words never takes a weight off a lesser roll. `NodeOdds.drawn_by_weight` collects
this.
-/

namespace FixtureBench

namespace NodeOdds

variable {odds : NodeOdds} {type : NodeType} {roll : Nat}

def weight (odds : NodeOdds) : NodeType → Nat
  | .null => odds.null
  | .boolean => odds.boolean
  | .number => odds.number
  | .string => odds.string
  | .array => odds.array
  | .object => odds.object

/-- The weights that a roll is compared with. What they leave of the total goes to objects. -/
def table (odds : NodeOdds) : List (Nat × NodeType) :=
  [(odds.null, .null), (odds.boolean, .boolean), (odds.number, .number), (odds.string, .string),
    (odds.array, .array)]

/-! ## Tickets -/

/-- One ticket for each unit of weight, type after type. -/
def tickets (odds : NodeOdds) : List NodeType :=
  (odds.table.flatMap fun entry => List.replicate entry.1 entry.2) ++
    List.replicate odds.object .object

theorem length_tickets (odds : NodeOdds) : odds.tickets.length = odds.total := by
  simp [tickets, table, total, Nat.add_assoc]

theorem count_tickets (odds : NodeOdds) (type : NodeType) :
    odds.tickets.count type = odds.weight type := by
  cases type <;> simp [tickets, table, weight, List.count_replicate]

theorem mem_tickets : type ∈ odds.tickets ↔ 0 < odds.weight type := by
  rw [← count_tickets, List.count_pos_iff]

/-- Taking weights off a roll finds the ticket at its position. -/
theorem getElem?_expanded (table : List (Nat × NodeType)) (last roll : Nat) :
    (((table.flatMap fun entry => List.replicate entry.1 entry.2) ++
      List.replicate last .object)[roll]?).getD .object = find roll table := by
  induction table generalizing roll with
  | nil =>
    rw [List.flatMap_nil, List.nil_append, List.getElem?_replicate, find]
    split <;> rfl
  | cons entry rest ih =>
    rw [List.flatMap_cons, List.append_assoc, List.getElem?_append, List.length_replicate, find]
    split
    · rename_i below
      rw [List.getElem?_replicate, if_pos below, Option.getD_some]
    · exact ih _

/-- The types of all rolls below the total are the tickets, in order. -/
theorem map_typeOfRoll (odds : NodeOdds) :
    (List.range odds.total).map odds.typeOfRoll = odds.tickets := by
  refine List.ext_getElem ?_ fun roll _ h => ?_
  · rw [List.length_map, List.length_range, length_tickets]
  · have hfind := getElem?_expanded odds.table odds.object roll
    rw [← tickets, List.getElem?_eq_getElem h, Option.getD_some] at hfind
    rw [List.getElem_map, List.getElem_range, hfind]
    rfl

theorem weight_typeOfRoll (h : roll < odds.total) : 0 < odds.weight (odds.typeOfRoll roll) := by
  rw [← mem_tickets, ← map_typeOfRoll]
  exact List.mem_map_of_mem (List.mem_range.2 h)

theorem count_typeOfRoll (odds : NodeOdds) (type : NodeType) :
    Nat.count (fun roll => odds.typeOfRoll roll = type) odds.total = odds.weight type := by
  rw [← count_tickets, ← map_typeOfRoll, List.count, List.countP_map]
  rfl

/-! ## Draws -/

theorem canYield_draw {odds : NodeOdds} (roll : Fin odds.total) :
    odds.draw.CanYield (odds.typeOfRoll roll) := by
  have weighted : 0 < odds.total := Nat.zero_lt_of_lt roll.isLt
  rw [draw, dif_pos weighted, Draw.canYield_bind]
  exact ⟨roll, Draw.canYield_position roll, Draw.canYield_pure.2 rfl⟩

theorem canYield_draw_iff (weighted : 0 < odds.total) :
    odds.draw.CanYield type ↔ 0 < odds.weight type := by
  constructor
  · intro h
    rw [draw, dif_pos weighted, Draw.canYield_bind] at h
    obtain ⟨roll, -, htype⟩ := h
    rw [Draw.canYield_pure.1 htype]
    exact weight_typeOfRoll roll.isLt
  · intro h
    rw [← mem_tickets, ← map_typeOfRoll] at h
    obtain ⟨roll, hroll, rfl⟩ := List.mem_map.1 h
    exact canYield_draw ⟨roll, List.mem_range.1 hroll⟩

/-- A type without weight is never drawn, except that null stands in when no type has any. -/
theorem weight_draw (h : odds.draw.CanYield type) : type = .null ∨ 0 < odds.weight type := by
  by_cases weighted : 0 < odds.total
  · exact .inr ((canYield_draw_iff weighted).1 h)
  · rw [draw, dif_neg weighted] at h
    exact .inl (Draw.canYield_pure.1 h)

/-! ## On words -/

def subtract? (a b : UInt32) : Option UInt32 := if b ≤ a then some (a - b) else none

/-- The search on 32-bit words. It breaks off at a subtraction that falls below zero. -/
def findWord? (roll : UInt32) : List (UInt32 × NodeType) → Option NodeType
  | [] => some .object
  | (weight, type) :: rest =>
    if roll < weight then some type else do
      let roll ← subtract? roll weight
      findWord? roll rest

def typeOfWord? (odds : NodeOdds) (roll : UInt32) : Option NodeType :=
  findWord? roll (odds.table.map fun entry => (UInt32.ofNat entry.1, entry.2))

/-- The search on words never breaks off, and finds what the search on numbers finds. -/
theorem findWord?_eq {table : List (Nat × NodeType)}
    (fits : ∀ entry ∈ table, entry.1 < UInt32.size) (h : roll < UInt32.size) :
    findWord? (UInt32.ofNat roll) (table.map fun entry => (UInt32.ofNat entry.1, entry.2)) =
      some (find roll table) := by
  induction table generalizing roll with
  | nil => rfl
  | cons entry rest ih =>
    obtain ⟨hentry, hrest⟩ := List.forall_mem_cons.1 fits
    rw [List.map_cons, findWord?, find]
    by_cases below : roll < entry.1
    · rw [if_pos below, if_pos ((UInt32.ofNat_lt_iff_lt h hentry).2 below)]
    · have hle : entry.1 ≤ roll := by omega
      have hsub : subtract? (UInt32.ofNat roll) (UInt32.ofNat entry.1) =
          some (UInt32.ofNat (roll - entry.1)) := by
        rw [subtract?, if_pos ((UInt32.ofNat_le_iff_le hentry h).2 hle), UInt32.ofNat_sub hle]
      rw [if_neg below, if_neg (mt (UInt32.ofNat_lt_iff_lt h hentry).1 below), hsub]
      apply ih hrest
      omega

theorem typeOfWord?_eq (fits : odds.total < UInt32.size) (h : roll < odds.total) :
    odds.typeOfWord? (UInt32.ofNat roll) = some (odds.typeOfRoll roll) := by
  apply findWord?_eq
  · rw [total] at fits
    simp only [table, List.forall_mem_cons]
    refine ⟨?_, ?_, ?_, ?_, ?_, List.forall_mem_nil _⟩ <;> omega
  · omega

/-- A type is drawn by a roll below the total of the weights. On words the search for the type of a
roll subtracts no weight from a lesser number, every type has as many rolls as its weight, and so
the types that can be drawn are those with a weight. -/
theorem drawn_by_weight (fits : odds.total < UInt32.size) (weighted : 0 < odds.total) :
    (odds.draw = do
      let roll ← Draw.position .word32 odds.total weighted
      return odds.typeOfRoll roll) ∧
    (∀ roll < odds.total, odds.typeOfWord? (UInt32.ofNat roll) = some (odds.typeOfRoll roll)) ∧
    (∀ type, Nat.count (fun roll => odds.typeOfRoll roll = type) odds.total = odds.weight type) ∧
    ∀ type, odds.draw.CanYield type ↔ 0 < odds.weight type :=
  ⟨dif_pos weighted, fun _ => typeOfWord?_eq fits, odds.count_typeOfRoll,
    fun _ => canYield_draw_iff weighted⟩

/-- The greatest total that is a word, with types of no weight at the start, in between and at the
end. -/
def lopsided : NodeOdds := ⟨0, 1, 0, 4294967294, 0, 0⟩

theorem drawn_by_weight_lopsided : ∃ weighted : 0 < lopsided.total,
    lopsided.total < UInt32.size ∧
    (lopsided.draw = do
      let roll ← Draw.position .word32 lopsided.total weighted
      return lopsided.typeOfRoll roll) ∧
    (∀ roll < lopsided.total,
      lopsided.typeOfWord? (UInt32.ofNat roll) = some (lopsided.typeOfRoll roll)) ∧
    (∀ type,
      Nat.count (fun roll => lopsided.typeOfRoll roll = type) lopsided.total =
        lopsided.weight type) ∧
    ∀ type, lopsided.draw.CanYield type ↔ 0 < lopsided.weight type :=
  ⟨by decide, by decide, drawn_by_weight (by decide) (by decide)⟩

end NodeOdds

end FixtureBench
