/-!
# Lines of a text

A line ends at a newline, which takes a carriage return right before it along. A text that ends
with a newline has no empty last line.
-/

namespace MiniC

/-- The lines of `cs` without their ends. -/
def cutLines : List Char → List (List Char)
  | [] => []
  | '\r' :: '\n' :: cs => [] :: cutLines cs
  | '\n' :: cs => [] :: cutLines cs
  | c :: cs =>
    match cutLines cs with
    | [] => [[c]]
    | l :: ls => (c :: l) :: ls

/-- The lines of `text` without their ends. -/
def lines (text : String) : List String :=
  (cutLines text.toList).map String.ofList

end MiniC
