import FixtureBench.Descriptor.Basic
import FixtureBench.Random.Growth
import FixtureBench.Random.Range

/-!
# Random values of a type

`Descriptor.draw` draws a value of a type: null for some of the optional types, for bare
validators and for instances of classes, and otherwise a value of the form, part by part. The
chosen part of a choice is present even if it is optional itself.
-/

namespace FixtureBench

structure RandomOptions where
  /-- The most items of an array and members of an object. -/
  maxItems : Nat
  /-- The probability that an optional value is null. -/
  nullOdds : Double
  /-- The bounds of numbers, in either order. -/
  numberRange : Int64 × Int64
  /-- The most letters of a word; words have at least one. -/
  maxStringLength : Nat

namespace RandomOptions

def default : RandomOptions :=
  ⟨3, Binary64.ofScientific false 25 (-2), (-1000, 1000), 8⟩

def word (o : RandomOptions) : Token := Token.shortWord o.maxStringLength

def tags : List String := ["div", "span", "p", "b"]

/-- A word between the opening and the closing form of a tag. -/
def markup (o : RandomOptions) : Token :=
  .oneOf (tags.map fun tag =>
    .sequence [.text ("<" ++ tag ++ ">"), o.word, .text ("</" ++ tag ++ ">")])

def drawLength (o : RandomOptions) : Draw Nat := do
  let ⟨n, _⟩ ← Draw.natural .word64 0 o.maxItems (Nat.zero_le _)
  return n

def drawWord (o : RandomOptions) : Draw PropValue := return .str (← o.word.expand)

/-- A whole number of the range, or a double of the range rounded to hundredths. -/
def drawNumber (o : RandomOptions) : Draw PropValue := do
  let (a, b) := o.numberRange
  if ← Draw.chance .half then
    let ⟨n, inRange⟩ ← Draw.between a.toInt b.toInt
    return .num (.int n (by
      have := a.le_toInt
      have := a.toInt_lt
      have := b.le_toInt
      have := b.toInt_lt
      omega))
  else
    let x ← Draw.doubleBetween (Binary64.ofInt a.toInt) (Binary64.ofInt b.toInt)
    return .ofDouble x.roundToHundredths

/-- A random document with a number of nodes in the range of lengths. -/
def drawDocument (o : RandomOptions) (root : RootNode) : Draw PropValue := do
  let count ← o.drawLength
  return .ofJson (← Growth.draw { GrowthOptions.default with root, count })

def drawScalar (o : RandomOptions) : Scalar → Draw PropValue
  | .string | .node => o.drawWord
  | .element => return .str (← o.markup.expand)
  | .any => do
    let i ← Draw.position .word32 3 (by decide)
    if i = 0 then o.drawWord
    else if i = 1 then o.drawNumber
    else return .bool (← Draw.chance .half)
  | .number => o.drawNumber
  | .bool => return .bool (← Draw.chance .half)
  | .array => o.drawDocument .array
  | .object => o.drawDocument .object
  | .func => return .func .noop

end RandomOptions

namespace Descriptor

mutual

/-- A random value of a type; `present` says that it is already decided not to be null. -/
def drawPresent (o : RandomOptions) : Descriptor → Bool → Draw PropValue
  | bare _, _ => return .null
  | typed form required _, present =>
    if required || present then drawForm o form
    else do
      if ← Draw.chance (.ofDouble o.nullOdds) then return .null
      else drawForm o form

def drawForm (o : RandomOptions) : TypeForm Descriptor → Draw PropValue
  | .scalar s => o.drawScalar s
  | .shape ⟨fields⟩ => return .obj ⟨← drawFields o fields⟩
  | .arrayOf item => do
    let length ← o.drawLength
    return .arr (← Draw.replicate length (drawPresent o item false))
  | .objectOf entry => do
    let length ← o.drawLength
    let pairs ← Draw.replicate length do
      let key ← o.word.expand
      let value ← drawPresent o entry false
      return (key, value)
    return .obj (.ofPairs pairs)
  | .instanceOf _ => return .null
  | .oneOf literals => return (← Draw.pick? literals).getD .null
  | .oneOfType alternatives =>
    if h : 0 < alternatives.length then do
      let i ← Draw.position .word64 alternatives.length h
      drawAt o alternatives i
    else return .null

def drawFields (o : RandomOptions) :
    List (String × Descriptor) → Draw (List (String × PropValue))
  | [] => return []
  | (name, field) :: rest => do
    let value ← drawPresent o field false
    return (name, value) :: (← drawFields o rest)

def drawAt (o : RandomOptions) : List Descriptor → Nat → Draw PropValue
  | [], _ => return .null
  | alternative :: _, 0 => drawPresent o alternative true
  | _ :: rest, i + 1 => drawAt o rest i

end

def draw (o : RandomOptions) (d : Descriptor) : Draw PropValue := d.drawPresent o false

end Descriptor

end FixtureBench
