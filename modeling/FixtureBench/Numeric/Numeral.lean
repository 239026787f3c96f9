import FixtureBench.Numeric.Binary64

/-!
# Number literals

A `Numeral` is a number as it is written: sign, whole digits, and optional fraction and exponent.
`Numeral.scan?` reads the strict form, which has no leading zeros and at least one digit wherever
digits are announced. `Double.parse?` reads the looser form of a lone double.
-/

namespace FixtureBench

structure Numeral where
  negative : Bool
  whole : List Char
  /-- The digits after the point, when there is a point. -/
  fraction : Option (List Char)
  exponent : Option Int

def digitsValue (digits : List Char) : Nat := Nat.ofDigitChars 10 digits 0

namespace Numeral

/-- Without fraction and exponent a literal names a whole number. -/
def isWhole (n : Numeral) : Bool := n.fraction.isNone && n.exponent.isNone

def scanDigits? (cs : List Char) : Option (List Char × List Char) :=
  let digits := cs.takeWhile Char.isDigit
  if digits.isEmpty then none else some (digits, cs.dropWhile Char.isDigit)

/-- A lone zero, or digits that do not start with zero. -/
def scanWhole? : List Char → Option (List Char × List Char)
  | '0' :: rest => some (['0'], rest)
  | cs => scanDigits? cs

def scanFraction? : List Char → Option (Option (List Char) × List Char)
  | '.' :: rest => (scanDigits? rest).map fun (digits, rest) => (some digits, rest)
  | cs => some (none, cs)

def scanExponentValue? : List Char → Option (Int × List Char)
  | '-' :: rest => (scanDigits? rest).map fun (digits, rest) => (-(digitsValue digits : Int), rest)
  | '+' :: rest => (scanDigits? rest).map fun (digits, rest) => ((digitsValue digits : Int), rest)
  | cs => (scanDigits? cs).map fun (digits, rest) => ((digitsValue digits : Int), rest)

def scanExponent? : List Char → Option (Option Int × List Char)
  | 'e' :: rest => (scanExponentValue? rest).map fun (n, rest) => (some n, rest)
  | 'E' :: rest => (scanExponentValue? rest).map fun (n, rest) => (some n, rest)
  | cs => some (none, cs)

def scanUnsigned? (negative : Bool) (cs : List Char) : Option (Numeral × List Char) := do
  let (whole, cs) ← scanWhole? cs
  let (fraction, cs) ← scanFraction? cs
  let (exponent, cs) ← scanExponent? cs
  some (⟨negative, whole, fraction, exponent⟩, cs)

def scan? : List Char → Option (Numeral × List Char)
  | '-' :: rest => scanUnsigned? true rest
  | cs => scanUnsigned? false cs

def parse? (text : String) : Option Numeral :=
  match scan? text.toList with
  | some (n, []) => some n
  | _ => none

end Numeral

namespace Double

/-- The double nearest to `digits · 10 ^ exponent`. Exponents far outside the range of doubles
are decided without computing the power. -/
def ofDigits (negative : Bool) (digits : List Char) (exponent : Int) : Double :=
  let significand := digitsValue digits
  if significand = 0 || exponent + digits.length < -400 then .finite { Binary64.zero with negative }
  else if 400 < exponent then .infinite negative
  else Binary64.ofScientific negative significand exponent

/-- A double after its sign: a number with digits on at least one side of the optional point, or
one of the words for infinity and `nan`. -/
def parseUnsigned? (negative : Bool) (cs : List Char) : Option Double :=
  let word := String.ofList (cs.map Char.toLower)
  if word = "inf" || word = "infinity" then some (.infinite negative)
  else if word = "nan" then some .nan
  else
    let whole := cs.takeWhile Char.isDigit
    let rest := cs.dropWhile Char.isDigit
    let fraction := match rest with
      | '.' :: rest => rest.takeWhile Char.isDigit
      | _ => []
    let rest := match rest with
      | '.' :: rest => rest.dropWhile Char.isDigit
      | rest => rest
    if whole.isEmpty && fraction.isEmpty then none
    else match Numeral.scanExponent? rest with
      | some (exponent, []) =>
        some (ofDigits negative (whole ++ fraction) (exponent.getD 0 - fraction.length))
      | _ => none

def parse? (text : String) : Option Double :=
  match text.toList with
  | '-' :: rest => parseUnsigned? true rest
  | '+' :: rest => parseUnsigned? false rest
  | cs => parseUnsigned? false cs

end Double

end FixtureBench
