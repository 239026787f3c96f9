import FixtureBench.Random.Draw

/-!
# A reproducible source of randomness

The xoshiro256** generator, seeded by SplitMix64. `Draw.run` answers the requests of a draw from
it. An integer of a range is the high part of a random word times the size of the range; words
whose low part would favour some results are skipped, which happens to fewer than one word in two.
-/

namespace FixtureBench

structure Xoshiro where
  s0 : UInt64
  s1 : UInt64
  s2 : UInt64
  s3 : UInt64
deriving DecidableEq

namespace Xoshiro

def rotateLeft (x k : UInt64) : UInt64 := (x <<< k) ||| (x >>> (64 - k))

/-- The output of the seeding generator in a state. -/
def mix (z : UInt64) : UInt64 :=
  let z := (z ^^^ (z >>> 30)) * 0xbf58476d1ce4e5b9
  let z := (z ^^^ (z >>> 27)) * 0x94d049bb133111eb
  z ^^^ (z >>> 31)

def ofSeed (seed : UInt64) : Xoshiro :=
  let step : UInt64 := 0x9e3779b97f4a7c15
  ⟨mix (seed + step), mix (seed + 2 * step), mix (seed + 3 * step), mix (seed + 4 * step)⟩

def next (g : Xoshiro) : UInt64 × Xoshiro :=
  let result := rotateLeft (g.s1 * 5) 7 * 9
  let t := g.s1 <<< 17
  let s2 := g.s2 ^^^ g.s0
  let s3 := g.s3 ^^^ g.s1
  let s1 := g.s1 ^^^ s2
  let s0 := g.s0 ^^^ s3
  (result, ⟨s0, s1, s2 ^^^ t, rotateLeft s3 45⟩)

/-- A random word of a width; 32 bits are the high half of the next 64. -/
def nextWord (width : Width) (g : Xoshiro) : Fin width.size × Xoshiro :=
  let (x, g) := g.next
  match width with
  | .word32 => (⟨x.toNat / UInt32.size, by
      have := x.toNat_lt
      simp only [Width.size, UInt32.size]
      omega⟩, g)
  | .word64 => (⟨x.toNat, x.toNat_lt⟩, g)

/-- How many words are tried before one is taken as it is. -/
def attempts : Nat := 1000

/-- A number below `size`, without bias unless `fuel` words are skipped in a row. -/
def below (width : Width) (size : Nat) (pos : 0 < size) (fuel : Nat) (g : Xoshiro) :
    Fin size × Xoshiro :=
  let (v, g) := g.nextWord width
  let product := v.val * size
  let pick : Fin size :=
    ⟨product / width.size, Nat.div_lt_of_lt_mul (Nat.mul_lt_mul_of_pos_right v.isLt pos)⟩
  match fuel with
  | 0 => (pick, g)
  | fuel + 1 =>
    let fair := size <<< (width.bits - 1 - size.log2)
    if product % width.size < fair then (pick, g) else below width size pos fuel g

/-- A number between two bounds. Where every word of the width names a number of the range, the
word gives its low bits. -/
def integer (width : Width) (lo hi : Int) (ordered : lo ≤ hi) (g : Xoshiro) :
    { n : Int // lo ≤ n ∧ n ≤ hi } × Xoshiro :=
  let size := (hi - lo).toNat + 1
  if h : size < width.size then
    let (k, g) := below width size (by omega) attempts g
    (⟨lo + k.val, by have := k.isLt; omega⟩, g)
  else
    let (v, g) := g.nextWord width
    let words : Int := width.size
    (⟨lo + (v.val - lo) % words, by
      have pos : 0 < words := by cases width <;> decide
      have := Int.emod_nonneg (v.val - lo) (Int.ne_of_gt pos)
      have := Int.emod_lt_of_pos (v.val - lo) pos
      omega⟩, g)

def chance (p : Chance) (g : Xoshiro) : Bool × Xoshiro :=
  if p.weight = UInt64.size then (true, g)
  else
    let (x, g) := g.next
    (decide (x.toNat < p.weight), g)

/-- The lower bound plus a fraction of the width, in units of `2 ^ -52`. -/
def pointOf (lo hi : Binary64) (fraction : Nat) : Double :=
  (hi.sub lo).andThen fun width =>
    ((Binary64.nearest false (fraction * Binary64.unitsPerOne) blockSize).andThen
      (·.mul width)).andThen (·.add lo)

/-- A double between two bounds: a random point that rounding has not moved to the upper bound, or
the lower bound after `fuel` points in vain. -/
def real (lo hi : Binary64) (ordered : lo < hi) : Nat → Xoshiro →
    { x : Binary64 // lo ≤ x ∧ x < hi } × Xoshiro
  | 0, g => (⟨lo, Int.le_refl _, ordered⟩, g)
  | fuel + 1, g =>
    let (bits, g) := g.next
    match pointOf lo hi (bits >>> 12).toNat with
    | .finite x => if h : lo ≤ x ∧ x < hi then (⟨x, h⟩, g) else real lo hi ordered fuel g
    | _ => real lo hi ordered fuel g

def answer (g : Xoshiro) : (request : Request) → request.Answer × Xoshiro
  | .integer width lo hi ordered => integer width lo hi ordered g
  | .chance p => chance p g
  | .real lo hi ordered => real lo hi ordered attempts g
  | .word => g.next

end Xoshiro

/-- The result of a draw from a source, and the source after it. -/
def Draw.run {α : Type} : Draw α → Xoshiro → α × Xoshiro
  | .done a, g => (a, g)
  | .ask request next, g =>
    let (answer, g) := g.answer request
    (next answer).run g

/-- The generator answers within the ranges asked for, so its result is one the draw can have. -/
theorem Draw.canYield_run {α : Type} (d : Draw α) (g : Xoshiro) : d.CanYield (d.run g).1 := by
  induction d generalizing g with
  | done a => exact .done a
  | ask request next ih => exact .ask (g.answer request).1 (ih _ _)

end FixtureBench
