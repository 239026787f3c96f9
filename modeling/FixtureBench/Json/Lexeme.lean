import FixtureBench.Numeric.Numeral

/-!
# Lexemes of document text

A text is cut into punctuation, words, numbers and strings; blanks between them are dropped. A
string keeps its `\u` escapes as 16-bit units, because whether two of them form a character is
only asked of strings that are read as values.
-/

namespace FixtureBench

namespace Json

inductive TextPart where
  | char (c : Char)
  /-- A four-digit escape. -/
  | unit (code : Nat)
deriving DecidableEq

inductive Lexeme where
  | openArray
  | closeArray
  | openObject
  | closeObject
  | comma
  | colon
  | null
  | bool (b : Bool)
  | number (n : Numeral)
  | text (parts : List TextPart)

namespace TextPart

def hexValue? (c : Char) : Option Nat :=
  if c.isDigit then some (c.toNat - '0'.toNat)
  else if 'a' ≤ c && c ≤ 'f' then some (c.toNat - 'a'.toNat + 10)
  else if 'A' ≤ c && c ≤ 'F' then some (c.toNat - 'A'.toNat + 10)
  else none

def unitValue? (a b c d : Char) : Option Nat := do
  some (((16 * (← hexValue? a) + (← hexValue? b)) * 16 + (← hexValue? c)) * 16 + (← hexValue? d))

def shortEscape? : Char → Option Char
  | '"' => some '"'
  | '\\' => some '\\'
  | '/' => some '/'
  | 'b' => some '\x08'
  | 'f' => some '\x0c'
  | 'n' => some '\n'
  | 'r' => some '\r'
  | 't' => some '\t'
  | _ => none

/-- A string after its opening quote, and the text after its closing quote. Control characters
must be escaped. -/
def scan? : List Char → Option (List TextPart × List Char)
  | [] => none
  | '"' :: rest => some ([], rest)
  | '\\' :: 'u' :: a :: b :: c :: d :: rest => do
    let code ← unitValue? a b c d
    let (parts, rest) ← scan? rest
    some (.unit code :: parts, rest)
  | '\\' :: c :: rest => do
    let c ← shortEscape? c
    let (parts, rest) ← scan? rest
    some (.char c :: parts, rest)
  | c :: rest => do
    if c.toNat < 0x20 || c = '\\' then none
    let (parts, rest) ← scan? rest
    some (.char c :: parts, rest)

def isHighSurrogate (code : Nat) : Bool := decide (0xD800 ≤ code ∧ code < 0xDC00)

def isLowSurrogate (code : Nat) : Bool := decide (0xDC00 ≤ code ∧ code < 0xE000)

/-- The characters of a string. A high surrogate must be followed by a low one, and they form one
character; no other surrogate is a character. -/
def decode? : List TextPart → Option (List Char)
  | [] => some []
  | .char c :: rest => (decode? rest).map (c :: ·)
  | .unit code :: rest =>
    if isHighSurrogate code then
      match rest with
      | .unit low :: rest =>
        if isLowSurrogate low then
          (decode? rest).map (Char.ofNat (0x10000 + (code - 0xD800) * 0x400 + (low - 0xDC00)) :: ·)
        else none
      | _ => none
    else if isLowSurrogate code then none
    else (decode? rest).map (Char.ofNat code :: ·)

end TextPart

namespace Lexeme

def isBlank (c : Char) : Bool := c = ' ' || c = '\t' || c = '\n' || c = '\r'

def next? : List Char → Option (Lexeme × List Char)
  | '[' :: rest => some (.openArray, rest)
  | ']' :: rest => some (.closeArray, rest)
  | '\x7b' :: rest => some (.openObject, rest)
  | '\x7d' :: rest => some (.closeObject, rest)
  | ',' :: rest => some (.comma, rest)
  | ':' :: rest => some (.colon, rest)
  | '"' :: rest => (TextPart.scan? rest).map fun (parts, rest) => (.text parts, rest)
  | 'n' :: 'u' :: 'l' :: 'l' :: rest => some (.null, rest)
  | 't' :: 'r' :: 'u' :: 'e' :: rest => some (.bool true, rest)
  | 'f' :: 'a' :: 'l' :: 's' :: 'e' :: rest => some (.bool false, rest)
  | cs => (Numeral.scan? cs).map fun (n, rest) => (.number n, rest)

/-- All lexemes of a text. Every lexeme takes a character, so the length of the text is fuel
enough. -/
def scanWith? : Nat → List Char → Option (List Lexeme)
  | fuel, cs =>
    match fuel, cs.dropWhile isBlank with
    | _, [] => some []
    | 0, _ => none
    | fuel + 1, cs => do
      let (lexeme, rest) ← next? cs
      (scanWith? fuel rest).map (lexeme :: ·)

def scan? (text : String) : Option (List Lexeme) := scanWith? text.toList.length text.toList

end Lexeme

end Json

end FixtureBench
