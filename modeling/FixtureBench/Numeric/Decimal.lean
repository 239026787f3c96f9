import FixtureBench.Numeric.Binary64

/-!
# Decimal text of doubles

`Binary64.shortest` finds the fewest decimal digits that are read back as the same double and,
among those, the digits nearest to its value; a tie goes to the even digit. How the digits are laid
out is a `DecimalFormat`: it says which exponents are written in full.
-/

namespace FixtureBench

structure DecimalFormat where
  /-- Whether a number whose first digit has this decimal exponent is written without exponent. -/
  isPlain : Int → Bool

/-- The decimal `d₁.d₂d₃… · 10 ^ exponent`. -/
structure Decimal where
  digits : List Char
  exponent : Int
deriving DecidableEq

namespace Decimal

/-- Digits with a point and no exponent; at least one digit stands on each side of the point. -/
def plain (d : Decimal) : String :=
  if d.exponent < 0 then
    "0." ++ String.ofList (List.replicate ((-d.exponent).toNat - 1) '0' ++ d.digits)
  else
    let places := d.exponent.toNat + 1
    let whole := d.digits.take places
    let fraction := d.digits.drop places
    String.ofList (whole ++ List.replicate (places - whole.length) '0') ++ "." ++
      (if fraction.isEmpty then "0" else String.ofList fraction)

/-- One digit before the point and a signed exponent; a lone digit has no point. -/
def scientific (d : Decimal) : String :=
  let point := if d.digits.length > 1 then "." else ""
  String.ofList (d.digits.take 1) ++ point ++ String.ofList (d.digits.drop 1) ++ "e" ++
    (if d.exponent < 0 then "-" else "+") ++ toString d.exponent.natAbs

def render (format : DecimalFormat) (d : Decimal) : String :=
  if format.isPlain d.exponent then d.plain else d.scientific

def ofScaled (digits : Nat) (scale : Int) : Decimal :=
  let text := (toString digits).toList
  ⟨(text.reverse.dropWhile (· = '0')).reverse, scale + text.length - 1⟩

end Decimal

namespace Binary64

/-- The decimal exponent of the first digit of a magnitude that is not zero. Scaling by
`10 ^ 324` makes every such magnitude at least one. -/
def leadingExponent (x : Binary64) : Int :=
  ((toString (x.size * Nat.pow 10 324 / unitsPerOne)).length : Int) - 325

/-- The multiple of `10 ^ scale` that is read back as `x`; of two neighbours, the nearer one, and
the even one if they are equally near. -/
def onGrid? (x : Binary64) (scale : Int) : Option Nat :=
  let num := if 0 ≤ scale then x.size else x.size * Nat.pow 10 (-scale).toNat
  let den := if 0 ≤ scale then unitsPerOne * Nat.pow 10 scale.toNat else unitsPerOne
  let below := num / den
  match x.isReadFrom below scale, x.isReadFrom (below + 1) scale with
  | true, true => some (roundHalfEven num den)
  | true, false => some below
  | false, true => some (below + 1)
  | false, false => none

/-- The fewest digits read back as `x`, which must not be zero. Seventeen are always enough. -/
def shortest (x : Binary64) : Decimal :=
  let lead := x.leadingExponent
  let found := (List.range 17).findSome? fun (more : Nat) =>
    let scale := lead - more
    (x.onGrid? scale).map fun digits => Decimal.ofScaled digits scale
  found.getD (Decimal.ofScaled x.size 0)

def render (format : DecimalFormat) (x : Binary64) : String :=
  (if x.negative then "-" else "") ++
    (if x.isZero then "0.0" else x.shortest.render format)

end Binary64

end FixtureBench
