import FixtureBench.Text.Unprinted

/-!
# Strings for inspection

A string is shown between quotes so that every character of it can be told: quotes and backslashes
are escaped, and characters without a glyph of their own are given by name or by code point.
-/

namespace FixtureBench

namespace Text

def inspectChar (c : Char) : List Char :=
  match c with
  | '\x00' => ['\\', '0']
  | '\t' => ['\\', 't']
  | '\r' => ['\\', 'r']
  | '\n' => ['\\', 'n']
  | '"' => ['\\', '"']
  | '\\' => ['\\', '\\']
  | c =>
    if isUnprinted c then ['\\', 'u', '\x7b'] ++ Nat.toDigits 16 c.toNat ++ ['\x7d'] else [c]

def inspect (s : String) : String := "\"" ++ String.ofList (s.toList.flatMap inspectChar) ++ "\""

end Text

end FixtureBench
