import FixtureBench.Numeric.Decimal
import FixtureBench.Numeric.Numeral

/-!
# Document numbers

A number of a document is a whole number of the 64-bit signed or unsigned range, or a finite
double. Whole numbers and doubles are never equal; `Number.sameValue` compares by value instead,
after rounding whole numbers to doubles.

A literal without fraction and exponent that fits the range is whole, any other is a double. The
double of a literal is rounded in steps: first the leading digits that fit in 64 bits, then one
multiplication or division by a power of ten. A literal without a finite double is refused.
-/

namespace FixtureBench

inductive Number where
  | int (n : Int) (inRange : -0x8000000000000000 ≤ n ∧ n < 0x10000000000000000)
  | double (x : Binary64)
deriving DecidableEq

namespace Number

def zero : Number := .int 0 (by decide)

instance : Inhabited Number := ⟨zero⟩

def ofInt64 (n : Int64) : Number :=
  .int n.toInt (by
    have := n.le_toInt
    have := n.toInt_lt
    omega)

def ofUInt64 (n : UInt64) : Number :=
  .int n.toNat (by
    have := n.toNat_lt
    omega)

def ofDouble? (x : Double) : Option Number := x.toFinite?.map .double

def toDouble : Number → Double
  | int n _ => Binary64.ofInt n
  | double x => .finite x

def toInt64? : Number → Option Int
  | int n _ => if n < 0x8000000000000000 then some n else none
  | double _ => none

/-- Equality of numbers of the same form; the two zeros among the doubles are equal. -/
def beq : Number → Number → Bool
  | int m _, int n _ => m == n
  | double x, double y => x.sameValue y
  | _, _ => false

instance : BEq Number := ⟨beq⟩

/-- Equality of values, with whole numbers rounded to doubles. -/
def sameValue (a b : Number) : Bool := a.toDouble.sameValue b.toDouble

/-- Doubles stand in full from `0.00001` to below `10 ^ 16`. -/
def doubleFormat : DecimalFormat := ⟨fun e => decide (-5 ≤ e ∧ e ≤ 15)⟩

def render : Number → String
  | int n _ => toString n
  | double x => x.render doubleFormat

/-- The leading digits of a whole part that fit in 64 bits, and how many digits are left out. -/
def significandOfWhole (significand : Nat) : List Char → Nat × Nat
  | [] => (significand, 0)
  | c :: cs =>
    let next := Nat.ofDigitChars 10 [c] significand
    if next < UInt64.size then significandOfWhole next cs else (significand, (c :: cs).length)

/-- The significand continued by the digits of a fraction while it fits in 64 bits, and how many
digits it took. -/
def significandOfFraction (significand : Nat) : List Char → Nat × Nat
  | [] => (significand, 0)
  | c :: cs =>
    let next := Nat.ofDigitChars 10 [c] significand
    if next < UInt64.size then
      let (total, taken) := significandOfFraction next cs
      (total, taken + 1)
    else (significand, 0)

def powerOfTen (n : Nat) : Double := Binary64.ofScientific false 1 n

/-- Multiply or divide by a power of ten. Below `10 ^ -308` the division is made in steps. -/
def scaleByPower (x : Binary64) (exponent : Int) : Double :=
  if x.isZero then .finite x
  else if exponent < -308 then
    ((powerOfTen 308).andThen x.div).andThen (scaleByPower · (exponent + 308))
  else if exponent < 0 then (powerOfTen (-exponent).toNat).andThen x.div
  else if exponent ≤ 308 then (powerOfTen exponent.toNat).andThen x.mul
  else .infinite x.negative
termination_by (-exponent).toNat

def doubleOfNumeral (n : Numeral) : Double :=
  let (leading, leftOut) := significandOfWhole 0 n.whole
  let (significand, taken) := significandOfFraction leading (n.fraction.getD [])
  let magnitude := (Binary64.ofInt significand).andThen
    (scaleByPower · (n.exponent.getD 0 + leftOut - taken))
  if n.negative then magnitude.neg else magnitude

/-- The number that a literal names. Minus zero is the negative double zero. -/
def ofNumeral? (n : Numeral) : Option Number :=
  let magnitude : Int := digitsValue n.whole
  let value := if n.negative then -magnitude else magnitude
  if h : -0x8000000000000000 ≤ value ∧ value < 0x10000000000000000 then
    if n.isWhole && !(n.negative && magnitude == 0) then some (.int value h)
    else ofDouble? (doubleOfNumeral n)
  else ofDouble? (doubleOfNumeral n)

def parse? (text : String) : Option Number := (Numeral.parse? text).bind ofNumeral?

end Number

end FixtureBench
