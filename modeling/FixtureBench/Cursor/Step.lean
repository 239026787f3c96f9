/-!
# Steps of a cursor

A step names a child of a container by index or by key. Both readings exist for every step: an
index is also the key that spells it, and a key that is the canonical decimal of a number below
`2 ^ 64` is also an index.
-/

namespace FixtureBench

inductive Step where
  | index (i : UInt64)
  | key (k : String)
deriving DecidableEq

/-- The place of a node: the steps that lead to it from the root. -/
abbrev Cursor := List Step

namespace Step

/-- Whether a text is a canonical decimal: ASCII digits, and no zero before other digits. -/
def isIndexText (text : String) : Bool :=
  match text.toList with
  | [] => false
  | ['0'] => true
  | '0' :: _ => false
  | digits => digits.all Char.isDigit

/-- The index that a text spells, if it is the canonical decimal of a number below `2 ^ 64`. -/
def indexOfText? (text : String) : Option Nat :=
  let n := Nat.ofDigitChars 10 text.toList 0
  if isIndexText text && decide (n < UInt64.size) then some n else none

def asIndex? : Step → Option Nat
  | index i => some i.toNat
  | key k => indexOfText? k

def asKey : Step → String
  | index i => toString i.toNat
  | key k => k

/-- Every index comes before every key; indexes follow their number, keys their characters. -/
def compare : Step → Step → Ordering
  | index i, index j => Ord.compare i j
  | index _, key _ => .lt
  | key _, index _ => .gt
  | key k, key l => Ord.compare k l

instance : Ord Step := ⟨compare⟩

end Step

namespace Cursor

def compare : Cursor → Cursor → Ordering
  | [], [] => .eq
  | [], _ :: _ => .lt
  | _ :: _, [] => .gt
  | s :: rest, t :: others => (s.compare t).then (compare rest others)

def parent? (c : Cursor) : Option Cursor := if c.isEmpty then none else some c.dropLast

end Cursor

end FixtureBench
