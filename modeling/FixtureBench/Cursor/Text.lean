import FixtureBench.Cursor.Step
import FixtureBench.Json.Outline

/-!
# Cursors as document text

In a document a cursor is an array that lists its steps: indexes as whole numbers, keys as strings.
-/

namespace FixtureBench

namespace Step

def toJson : Step → Json
  | index i => .num (.ofUInt64 i)
  | key k => .str k

def ofOutline? : Json.Outline → Option Step
  | .number n =>
    match Number.ofNumeral? n with
    | some (.int i _) => if 0 ≤ i then some (.index (UInt64.ofNat i.toNat)) else none
    | _ => none
  | .text parts => (Json.Outline.decodeText? parts).map .key
  | _ => none

end Step

namespace Cursor

def toJson (c : Cursor) : Json := .arr (c.map Step.toJson)

def parse? (text : String) : Option Cursor :=
  match Json.Outline.parse? text with
  | some (.array items) => items.mapM Step.ofOutline?
  | _ => none

end Cursor

end FixtureBench
