import FixtureBench.Numeric.Binary64

/-!
# Random draws

A `Draw α` asks for random values one after another and ends in a result of type `α`. A request
fixes the range of its answers, and the range is part of the answer's type; which value of the
range comes back is up to the source. Whatever holds for all answers of a draw holds for every
source of randomness.
-/

namespace FixtureBench

/-- How many random bits an integer is drawn from. -/
inductive Width where
  | word32
  | word64
deriving DecidableEq

def Width.bits : Width → Nat
  | word32 => 32
  | word64 => 64

def Width.size : Width → Nat
  | word32 => UInt32.size
  | word64 => UInt64.size

/-- A probability in units of `2 ^ -64`. -/
structure Chance where
  weight : Nat
  weight_le : weight ≤ UInt64.size := by decide

namespace Chance

def never : Chance := ⟨0, by decide⟩
def half : Chance := ⟨0x8000000000000000, by decide⟩
def always : Chance := ⟨UInt64.size, by decide⟩

def ofBinary64 (x : Binary64) : Chance :=
  let weight := if x.negative then 0 else x.size * UInt64.size / Binary64.unitsPerOne
  if h : weight ≤ UInt64.size then ⟨weight, h⟩ else always

/-- The nearest probability; `nan` counts as zero. -/
def ofDouble : Double → Chance
  | .finite x => ofBinary64 x
  | .infinite negative => if negative then never else always
  | .nan => never

end Chance

inductive Request where
  /-- A whole number between two bounds, both included. -/
  | integer (width : Width) (lo hi : Int) (ordered : lo ≤ hi)
  /-- Whether something of this chance happens. -/
  | chance (p : Chance)
  /-- A double from `lo` to below `hi`. -/
  | real (lo hi : Binary64) (ordered : lo < hi)
  /-- Any 64 bits. -/
  | word

def Request.Answer : Request → Type
  | integer _ lo hi _ => { n : Int // lo ≤ n ∧ n ≤ hi }
  | chance _ => Bool
  | real lo hi _ => { x : Binary64 // lo ≤ x ∧ x < hi }
  | word => UInt64

inductive Draw (α : Type) where
  | done (a : α)
  | ask (request : Request) (next : request.Answer → Draw α)

namespace Draw

variable {α β : Type}

def bind (d : Draw α) (f : α → Draw β) : Draw β :=
  match d with
  | done a => f a
  | ask request next => .ask request fun answer => (next answer).bind f

instance : Monad Draw where
  pure := done
  bind := bind

/-- The results that a draw can have. -/
inductive CanYield : Draw α → α → Prop where
  | done (a : α) : CanYield (.done a) a
  | ask {request : Request} {next : request.Answer → Draw α} {a : α} (answer : request.Answer)
      (rest : CanYield (next answer) a) : CanYield (.ask request next) a

def integer (width : Width) (lo hi : Int) (ordered : lo ≤ hi) :
    Draw { n : Int // lo ≤ n ∧ n ≤ hi } := .ask (.integer width lo hi ordered) .done

def natural (width : Width) (lo hi : Nat) (ordered : lo ≤ hi) :
    Draw { n : Nat // lo ≤ n ∧ n ≤ hi } := do
  let ⟨n, inRange⟩ ← integer width lo hi (by omega)
  return ⟨n.toNat, by omega⟩

def position (width : Width) (size : Nat) (nonempty : 0 < size) : Draw (Fin size) := do
  let ⟨n, inRange⟩ ← natural width 0 (size - 1) (by omega)
  return ⟨n, by omega⟩

def chance (p : Chance) : Draw Bool := .ask (.chance p) .done

def real (lo hi : Binary64) (ordered : lo < hi) : Draw { x : Binary64 // lo ≤ x ∧ x < hi } :=
  .ask (.real lo hi ordered) .done

def word : Draw UInt64 := .ask .word .done

/-- One of the items of a list, or `none` of an empty one. -/
def pick? (items : List α) : Draw (Option α) :=
  if h : 0 < items.length then do
    let i ← position .word64 items.length h
    return some items[i]
  else return none

/-- The results of a draw made `count` times, after earlier results, which are listed from the last
to the first. -/
def replicateAfter (d : Draw α) : Nat → List α → Draw (List α)
  | 0, earlier => return earlier.reverse
  | count + 1, earlier => do
    let a ← d
    replicateAfter d count (a :: earlier)

def replicate (count : Nat) (d : Draw α) : Draw (List α) := replicateAfter d count []

@[simp] theorem canYield_done {a b : α} : CanYield (.done a) b ↔ b = a :=
  ⟨fun h => by cases h; rfl, fun h => h ▸ .done b⟩

@[simp] theorem canYield_ask {request : Request} {next : request.Answer → Draw α} {a : α} :
    CanYield (.ask request next) a ↔ ∃ answer, CanYield (next answer) a :=
  ⟨fun h => by cases h with | ask answer rest => exact ⟨answer, rest⟩,
    fun ⟨answer, rest⟩ => .ask answer rest⟩

@[simp] theorem canYield_pure {a b : α} : CanYield (pure a) b ↔ b = a := canYield_done

@[simp] theorem canYield_bind {d : Draw α} {f : α → Draw β} {b : β} :
    CanYield (d >>= f) b ↔ ∃ a, CanYield d a ∧ CanYield (f a) b := by
  change CanYield (d.bind f) b ↔ _
  induction d with
  | done a => simp [bind]
  | ask request next ih =>
    simp only [bind, canYield_ask, ih]
    constructor
    · intro ⟨answer, a, ha, hb⟩
      exact ⟨a, ⟨answer, ha⟩, hb⟩
    · intro ⟨a, ⟨answer, ha⟩, hb⟩
      exact ⟨answer, a, ha, hb⟩

@[simp] theorem canYield_integer {width : Width} {lo hi : Int} {ordered : lo ≤ hi}
    (n : { n : Int // lo ≤ n ∧ n ≤ hi }) : CanYield (integer width lo hi ordered) n :=
  .ask n (.done n)

@[simp] theorem canYield_chance {p : Chance} (b : Bool) : CanYield (chance p) b := .ask b (.done b)

@[simp] theorem canYield_word (x : UInt64) : CanYield word x := .ask x (.done x)

theorem canYield_natural {width : Width} {lo hi : Nat} {ordered : lo ≤ hi}
    (n : { n : Nat // lo ≤ n ∧ n ≤ hi }) : CanYield (natural width lo hi ordered) n := by
  rw [natural, canYield_bind]
  exact ⟨⟨n.1, by omega⟩, canYield_integer _, canYield_pure.2 (by simp)⟩

theorem canYield_position {width : Width} {size : Nat} {nonempty : 0 < size} (i : Fin size) :
    CanYield (position width size nonempty) i := by
  rw [position, canYield_bind]
  exact ⟨⟨i, by omega⟩, canYield_natural _, canYield_pure.2 rfl⟩

theorem canYield_replicateAfter {count : Nat} {d : Draw α} {earlier as : List α} :
    CanYield (replicateAfter d count earlier) as ↔
      ∃ later, as = earlier.reverse ++ later ∧ later.length = count ∧
        ∀ a ∈ later, CanYield d a := by
  induction count generalizing earlier with
  | zero =>
    simp only [replicateAfter, canYield_pure, List.length_eq_zero_iff]
    constructor
    · intro has
      exact ⟨[], by simp [has], rfl, by simp⟩
    · intro ⟨later, has, hlater, _⟩
      simp [has, hlater]
  | succ count ih =>
    simp only [replicateAfter, canYield_bind, ih]
    constructor
    · intro ⟨a, ha, later, has, hlength, hlater⟩
      exact ⟨a :: later, by simp [has], by simp [hlength], by simpa using ⟨ha, hlater⟩⟩
    · intro ⟨later, has, hlength, hlater⟩
      cases later with
      | nil => simp at hlength
      | cons a later =>
        simp only [List.mem_cons, forall_eq_or_imp] at hlater
        exact ⟨a, hlater.1, later, by simp [has], by simpa using hlength, hlater.2⟩

theorem canYield_replicate {count : Nat} {d : Draw α} {as : List α} :
    CanYield (replicate count d) as ↔ as.length = count ∧ ∀ a ∈ as, CanYield d a := by
  simp [replicate, canYield_replicateAfter]

end Draw

end FixtureBench
