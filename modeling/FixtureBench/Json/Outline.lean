import FixtureBench.Json.Lexeme
import FixtureBench.Tree

/-!
# Reading document text

An `Outline` is the nesting of a text: numbers and strings stand as written, and objects keep
repeated keys. `Outline.parse?` accepts exactly one value with nothing around it but blanks.

`Outline.toJson?` gives the document. It asks more than the nesting does: every number must have
a value, every string must spell characters, and at most 127 containers may be nested. A repeated
key keeps its first position and its last value.
-/

namespace FixtureBench

namespace Json

inductive Outline where
  | null
  | bool (b : Bool)
  | number (n : Numeral)
  | text (parts : List TextPart)
  | array (items : List Outline)
  | object (members : List (List TextPart × Outline))

namespace Outline

mutual

def value? : Nat → List Lexeme → Option (Outline × List Lexeme)
  | 0, _ => none
  | fuel + 1, lexemes =>
    match lexemes with
    | .null :: rest => some (.null, rest)
    | .bool b :: rest => some (.bool b, rest)
    | .number n :: rest => some (.number n, rest)
    | .text parts :: rest => some (.text parts, rest)
    | .openArray :: .closeArray :: rest => some (.array [], rest)
    | .openArray :: rest => (items? fuel rest).map fun (items, rest) => (.array items, rest)
    | .openObject :: .closeObject :: rest => some (.object [], rest)
    | .openObject :: rest =>
      (members? fuel rest).map fun (members, rest) => (.object members, rest)
    | _ => none

def items? : Nat → List Lexeme → Option (List Outline × List Lexeme)
  | 0, _ => none
  | fuel + 1, lexemes =>
    match value? fuel lexemes with
    | some (item, .comma :: rest) =>
      (items? fuel rest).map fun (items, rest) => (item :: items, rest)
    | some (item, .closeArray :: rest) => some ([item], rest)
    | _ => none

def members? : Nat → List Lexeme → Option (List (List TextPart × Outline) × List Lexeme)
  | 0, _ => none
  | fuel + 1, lexemes =>
    match lexemes with
    | .text key :: .colon :: rest =>
      match value? fuel rest with
      | some (value, .comma :: rest) =>
        (members? fuel rest).map fun (members, rest) => ((key, value) :: members, rest)
      | some (value, .closeObject :: rest) => some ([(key, value)], rest)
      | _ => none
    | _ => none

end

/-- The outline of a text. Two steps for each lexeme are fuel enough. -/
def parse? (text : String) : Option Outline :=
  match Lexeme.scan? text with
  | none => none
  | some lexemes =>
    match value? (2 * lexemes.length + 1) lexemes with
    | some (outline, []) => some outline
    | _ => none

def decodeText? (parts : List TextPart) : Option String :=
  (TextPart.decode? parts).map String.ofList

mutual

/-- The document, with room for `depth` nested containers. -/
def toJsonWithin? : Nat → Outline → Option Json
  | _, .null => some .null
  | _, .bool b => some (.bool b)
  | _, .number n => (Number.ofNumeral? n).map .num
  | _, .text parts => (decodeText? parts).map .str
  | 0, .array _ => none
  | depth + 1, .array items => (itemsToJson? depth items).map .arr
  | 0, .object _ => none
  | depth + 1, .object members =>
    (membersToJson? depth members).map fun pairs => .obj (Keyed.ofPairs pairs)

def itemsToJson? : Nat → List Outline → Option (List Json)
  | _, [] => some []
  | depth, item :: rest => do
    let item ← toJsonWithin? depth item
    let rest ← itemsToJson? depth rest
    some (item :: rest)

def membersToJson? : Nat → List (List TextPart × Outline) → Option (List (String × Json))
  | _, [] => some []
  | depth, (key, value) :: rest => do
    let key ← decodeText? key
    let value ← toJsonWithin? depth value
    let rest ← membersToJson? depth rest
    some ((key, value) :: rest)

end

def nestingLimit : Nat := 127

def toJson? (outline : Outline) : Option Json := toJsonWithin? nestingLimit outline

end Outline

def parse? (text : String) : Option Json := (Outline.parse? text).bind Outline.toJson?

end Json

end FixtureBench
