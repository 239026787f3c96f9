import FixtureBench.Random.Draw

/-!
# Numbers from a range

The bounds of a range may come in either order. A range of one integer, and a range of doubles
whose width is not a normal double, give their bound without a draw.
-/

namespace FixtureBench

namespace Draw

def between (a b : Int) : Draw { n : Int // min a b ≤ n ∧ n ≤ max a b } :=
  if h : a = b then return ⟨a, by omega⟩
  else integer .word64 (min a b) (max a b) (by omega)

/-- A double from `lo` to below `hi`, if the width of this range is a normal double. -/
def doubleFrom (lo hi : Binary64) (width : Double) : Draw Double :=
  match width with
  | .finite width =>
    if ordered : width.isNormal = true ∧ lo < hi then do
      let ⟨x, _⟩ ← real lo hi ordered.2
      return .finite x
    else return .finite lo
  | _ => return .finite lo

def doubleBetween (a b : Double) : Draw Double :=
  let (lo, hi) := if a.le b then (a, b) else (b, a)
  match lo, hi with
  | .finite l, .finite h => doubleFrom l h (h.sub l)
  | _, _ => return lo

end Draw

end FixtureBench
