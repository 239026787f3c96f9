import FixtureBench.Random.Draw

/-!
# Templates of random strings

A token expands to a string: to a fixed text, to one of several tokens, to a token repeated, to
characters of a range of code points, or to several tokens in a row. Bounds may come in either
order. A code point that is no character becomes the replacement character.
-/

namespace FixtureBench

inductive Token where
  | text (s : String)
  | oneOf (alternatives : List Token)
  | repeated (times : Nat × Nat) (token : Token)
  | chars (first last count : Nat)
  | sequence (tokens : List Token)

namespace Token

def repeatedBetween (least most : Nat) (token : Token) : Token :=
  .repeated (min least most, max least most) token

def charRange (first last : Nat) (count : Nat) : Token :=
  .chars (min first last) (max first last) count

def word (least most : Nat) : Token :=
  repeatedBetween least most (charRange 'a'.toNat 'z'.toNat 1)

/-- Letters of a word that has at most `most` letters, and at least one. -/
def shortWord (most : Nat) : Token := word 1 (max most 1)

def charOfCode (code : Nat) : Char :=
  if code.isValidChar then Char.ofNat code else '\uFFFD'

def drawChar (first last : Nat) : Draw Char := do
  let ⟨code, _⟩ ← Draw.natural .word32 (min first last) (max first last) (by omega)
  return charOfCode code

mutual

def expandChars : Token → Draw (List Char)
  | text s => return s.toList
  | oneOf alternatives =>
    if h : 0 < alternatives.length then do
      let i ← Draw.position .word64 alternatives.length h
      expandAt alternatives i
    else return []
  | repeated (a, b) token => do
    let ⟨times, _⟩ ← Draw.natural .word64 (min a b) (max a b) (by omega)
    return (← Draw.replicate times (expandChars token)).flatten
  | chars first last count => Draw.replicate count (drawChar first last)
  | sequence tokens => expandAll tokens

def expandAt : List Token → Nat → Draw (List Char)
  | [], _ => return []
  | token :: _, 0 => expandChars token
  | _ :: rest, i + 1 => expandAt rest i

def expandAll : List Token → Draw (List Char)
  | [] => return []
  | token :: rest => do
    let cs ← expandChars token
    return cs ++ (← expandAll rest)

end

def expand (token : Token) : Draw String := do return String.ofList (← expandChars token)

end Token

end FixtureBench
