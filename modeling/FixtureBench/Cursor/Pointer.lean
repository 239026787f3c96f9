import FixtureBench.Cursor.Error
import FixtureBench.Cursor.Step

/-!
# Cursors as pointer text

A pointer is a slash before the key of each step. Inside a component `~` is written `~0` and `/`
is written `~1`. In the other direction a component that is the canonical decimal of a number
below `2 ^ 64` becomes an index, and every other component a key.
-/

namespace FixtureBench

namespace Pointer

/-- Replace every occurrence of the pair `a b`, from left to right. -/
def replacePair (a b out : Char) : List Char → List Char
  | x :: y :: rest =>
    if x = a ∧ y = b then out :: replacePair a b out rest else x :: replacePair a b out (y :: rest)
  | rest => rest

def replaceChar (a : Char) (out : List Char) (cs : List Char) : List Char :=
  cs.flatMap fun c => if c = a then out else [c]

/-- The escaped component: first the tildes, then the slashes. -/
def escape (component : String) : String :=
  String.ofList (replaceChar '/' ['~', '1'] (replaceChar '~' ['~', '0'] component.toList))

def unescapeChars (cs : List Char) : List Char :=
  replacePair '~' '0' '~' (replacePair '~' '1' '/' cs)

/-- The component before it was escaped: first the slashes, then the tildes. A tilde that starts
no escape stays. -/
def unescape (component : String) : String := String.ofList (unescapeChars component.toList)

def format (cursor : Cursor) : String :=
  String.join (cursor.map fun step => "/" ++ escape step.asKey)

def parseComponent (component : List Char) : Step :=
  match Step.indexOfText? (String.ofList component) with
  | some n => .index (UInt64.ofNat n)
  | none => .key (String.ofList (unescapeChars component))

/-- The cursor of a pointer, which must be empty or start with a slash. -/
def parse (pointer : String) : Except CursorError Cursor :=
  match pointer.toList with
  | [] => .ok []
  | '/' :: rest => .ok ((rest.splitOn '/').map parseComponent)
  | _ => .error .notAbsolute

end Pointer

end FixtureBench
