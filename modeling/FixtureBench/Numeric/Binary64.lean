/-!
# Exact binary64 numbers

A finite double is a sign and a pattern. The patterns `0, 1, 2, …` list the doubles of one sign by
increasing magnitude, and `sizeOfPattern` gives that magnitude as a whole number of units of
`2 ^ -1074`, so comparison and arithmetic are statements about whole numbers. Every operation
computes its exact result first and then rounds once, to the nearest double and to the even
pattern on a tie; results beyond the largest finite double are infinite.
-/

namespace FixtureBench

/-- The quotient rounded to the nearest natural number; a half goes to the even neighbour. -/
def roundHalfEven (num den : Nat) : Nat :=
  let q := num / den
  let rest := 2 * (num % den)
  if rest < den then q
  else if rest = den then q + q % 2
  else q + 1

/-- How many doubles of one sign share an exponent: `2 ^ 52`. -/
def blockSize : Nat := 0x10000000000000

structure Binary64 where
  negative : Bool
  /-- Rank of the magnitude among the doubles that are not negative. -/
  pattern : Nat
  pattern_lt : pattern < 2047 * blockSize := by decide
deriving DecidableEq

/-- A double: finite, infinite or not a number. -/
inductive Double where
  | finite (x : Binary64)
  | infinite (negative : Bool)
  | nan
deriving DecidableEq

namespace Binary64

/-- Units of `2 ^ -1074` in the magnitude with this rank: ranks below `2 ^ 53` count single units,
and each following block of `2 ^ 52` ranks doubles the step. -/
def sizeOfPattern (p : Nat) : Nat :=
  let block := p / blockSize
  if block = 0 then p else (blockSize + p % blockSize) <<< (block - 1)

/-- The magnitude in units of `2 ^ -1074`. -/
def size (x : Binary64) : Nat := sizeOfPattern x.pattern

/-- The value in units of `2 ^ -1074`. Both zeros have value `0`. -/
def units (x : Binary64) : Int := if x.negative then -(x.size : Int) else x.size

def unitsPerOne : Nat := 1 <<< 1074

def zero : Binary64 := ⟨false, 0, by decide⟩

def hundred : Binary64 := ⟨false, 0x4059000000000000, by decide⟩

def neg (x : Binary64) : Binary64 := { x with negative := !x.negative }

def isZero (x : Binary64) : Bool := x.pattern == 0

/-- A double is normal when it has the full precision of 53 bits. -/
def isNormal (x : Binary64) : Bool := decide (blockSize ≤ x.pattern)

/-- The doubles are compared by value, so the two zeros are equal. -/
def sameValue (x y : Binary64) : Bool := x.units == y.units

instance : LT Binary64 := ⟨fun x y => x.units < y.units⟩
instance : LE Binary64 := ⟨fun x y => x.units ≤ y.units⟩
instance (x y : Binary64) : Decidable (x < y) := inferInstanceAs (Decidable (x.units < y.units))
instance (x y : Binary64) : Decidable (x ≤ y) := inferInstanceAs (Decidable (x.units ≤ y.units))

def toBits (x : Binary64) : UInt64 :=
  UInt64.ofNat ((if x.negative then 0x8000000000000000 else 0) + x.pattern)

/-- The rank of the double nearest to `num / den` units, before any bound on its size. -/
def nearestPattern (num den : Nat) : Nat :=
  let scale := Nat.log2 (num / den) - 52
  scale * blockSize + roundHalfEven num (den <<< scale)

/-- The double with this sign nearest to `num / den` units of `2 ^ -1074`. -/
def nearest (negative : Bool) (num den : Nat) : Double :=
  let p := nearestPattern num den
  if h : p < 2047 * blockSize then .finite ⟨negative, p, h⟩ else .infinite negative

def ofInt (n : Int) : Double := nearest (n < 0) (n.natAbs * unitsPerOne) 1

def ofScientific (negative : Bool) (digits : Nat) (exponent : Int) : Double :=
  if 0 ≤ exponent then nearest negative (digits * Nat.pow 10 exponent.toNat * unitsPerOne) 1
  else nearest negative (digits * unitsPerOne) (Nat.pow 10 (-exponent).toNat)

/-- Whether `digits · 10 ^ exponent` is read as the magnitude of `x`. -/
def isReadFrom (x : Binary64) (digits : Nat) (exponent : Int) : Bool :=
  ofScientific x.negative digits exponent == .finite x

/-- The rounded sum. An exact zero is negative only as a sum of two negative zeros. -/
def add (x y : Binary64) : Double :=
  let total := x.units + y.units
  let negative := if total = 0 then x.negative && y.negative else decide (total < 0)
  nearest negative total.natAbs 1

def sub (x y : Binary64) : Double := add x y.neg

def mul (x y : Binary64) : Double :=
  nearest (x.negative != y.negative) (x.size * y.size) unitsPerOne

/-- The rounded quotient; a quotient by zero is infinite, or not a number for zero by zero. -/
def div (x y : Binary64) : Double :=
  if y.isZero then if x.isZero then .nan else .infinite (x.negative != y.negative)
  else nearest (x.negative != y.negative) (x.size * unitsPerOne) y.size

/-- The nearest whole number; a half goes away from zero. -/
def roundToWhole (x : Binary64) : Double :=
  nearest x.negative ((2 * x.size + unitsPerOne) / (2 * unitsPerOne) * unitsPerOne) 1

theorem sameValue_iff {x y : Binary64} : x.sameValue y = true ↔ x.units = y.units := by
  simp [sameValue]

end Binary64

namespace Double

def zero : Double := .finite .zero

def neg : Double → Double
  | finite x => finite x.neg
  | infinite negative => infinite !negative
  | nan => nan

def toFinite? : Double → Option Binary64
  | finite x => some x
  | _ => none

/-- Continue with a finite operand; infinities and `nan` stay as they are. -/
def andThen (x : Double) (f : Binary64 → Double) : Double :=
  match x with
  | finite x => f x
  | other => other

/-- Equality of values: `nan` equals nothing, the two zeros are equal. -/
def sameValue : Double → Double → Bool
  | finite x, finite y => x.sameValue y
  | infinite a, infinite b => a == b
  | _, _ => false

def le : Double → Double → Bool
  | nan, _ => false
  | _, nan => false
  | infinite true, _ => true
  | _, infinite false => true
  | finite x, finite y => decide (x ≤ y)
  | infinite false, _ => false
  | finite _, infinite true => false

/-- The nearest hundredth: a hundred times the value, rounded to a whole number, over a hundred. -/
def roundToHundredths (x : Double) : Double :=
  ((x.andThen (·.mul .hundred)).andThen (·.roundToWhole)).andThen (·.div .hundred)

def toBits : Double → UInt64
  | finite x => x.toBits
  | infinite false => 0x7FF0000000000000
  | infinite true => 0xFFF0000000000000
  | nan => 0x7FF8000000000000

end Double

end FixtureBench
