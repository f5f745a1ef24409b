import MiniC.Text.Hidden

/-!
# Escaped text

The form of a text inside an outline: between double quotes, with the quote, the backslash and
every character that would not show on its own written as an escape.
-/

namespace MiniC

/-- One character of an escaped text. A hidden character without an escape of its own is written
by its code point in hexadecimal. -/
def escapeChar (c : Char) : List Char :=
  if c = '"' then ['\\', '"']
  else if c = '\\' then ['\\', '\\']
  else if c = '\n' then ['\\', 'n']
  else if c = '\r' then ['\\', 'r']
  else if c = '\t' then ['\\', 't']
  else if c.toNat = 0 then ['\\', '0']
  else if isHidden c then ['\\', 'u', '\x7b'] ++ Nat.toDigits 16 c.toNat ++ ['\x7d']
  else [c]

/-- The escaped form of `text`. -/
def escaped (text : String) : String :=
  String.ofList ('"' :: text.toList.flatMap escapeChar ++ ['"'])

end MiniC
