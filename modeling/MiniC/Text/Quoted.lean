/-!
# Quoted text

A text as a JavaScript string: between double quotes, with the quote, the backslash and every
control character below the space written as an escape. All else stands for itself.
-/

namespace MiniC

/-- One character of a quoted text. -/
def quoteChar (c : Char) : List Char :=
  if c = '"' then ['\\', '"']
  else if c = '\\' then ['\\', '\\']
  else if c = '\n' then ['\\', 'n']
  else if c = '\r' then ['\\', 'r']
  else if c = '\t' then ['\\', 't']
  else if c = '\x08' then ['\\', 'b']
  else if c = '\x0c' then ['\\', 'f']
  else if c.toNat < 0x20 then
    ['\\', 'u', '0', '0', Nat.digitChar (c.toNat / 16), Nat.digitChar (c.toNat % 16)]
  else [c]

/-- What stands between the quotes. -/
def quoteBody (cs : List Char) : List Char := cs.flatMap quoteChar

/-- The JavaScript string of `text`. -/
def quoted (text : String) : String :=
  String.ofList ('"' :: quoteBody text.toList ++ ['"'])

end MiniC
