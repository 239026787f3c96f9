import FixtureBench.Tree

/-!
# Compact text of plain documents

`Json.render` writes a document without spaces. In strings the quote, the backslash and the
control characters are escaped; every other character stands for itself.
-/

namespace FixtureBench

namespace Json

def hexDigit (n : Nat) : Char := Nat.digitChar n

def escapeChar (c : Char) : List Char :=
  match c with
  | '"' => ['\\', '"']
  | '\\' => ['\\', '\\']
  | '\x08' => ['\\', 'b']
  | '\t' => ['\\', 't']
  | '\n' => ['\\', 'n']
  | '\x0c' => ['\\', 'f']
  | '\r' => ['\\', 'r']
  | c =>
    if c.toNat < 0x20 then
      ['\\', 'u', '0', '0', hexDigit (c.toNat / 16), hexDigit (c.toNat % 16)]
    else [c]

def quote (s : String) : String := "\"" ++ String.ofList (s.toList.flatMap escapeChar) ++ "\""

mutual

def render : Json → String
  | .null => "null"
  | .bool b => if b then "true" else "false"
  | .num n => n.render
  | .str s => quote s
  | .arr items => "[" ++ ",".intercalate (renderItems items) ++ "]"
  | .obj ⟨entries⟩ => "\x7b" ++ ",".intercalate (renderEntries entries) ++ "\x7d"
  | .leaf e => nomatch e

def renderItems : List Json → List String
  | [] => []
  | t :: rest => render t :: renderItems rest

def renderEntries : List (String × Json) → List String
  | [] => []
  | (key, t) :: rest => (quote key ++ ":" ++ render t) :: renderEntries rest

end

end Json

end FixtureBench
