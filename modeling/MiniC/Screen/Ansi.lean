import MiniC.Screen.Picture

/-!
# Screens as terminal text

A screen as text with escape sequences for colours and bold.
-/

namespace MiniC

namespace Ansi

def escape (code : String) : String := "\x1b[" ++ code

/-- The code of a colour; `base` is 30 for the foreground and 40 for the background. -/
def colorCode (base : Nat) : Color → String
  | .reset => toString (base + 9)
  | .black => toString base
  | .white => toString (base + 7)
  | .rgb red green blue =>
    toString (base + 8) ++ ";2;" ++ toString red.toNat ++ ";" ++ toString green.toNat ++ ";" ++
      toString blue.toNat

/-- Cells that all look like the first one. -/
def run : List Cell → String
  | [] => ""
  | c :: cs =>
    let look := (if c.bold then "1;" else "22;") ++ colorCode 30 c.fg ++ ";" ++ colorCode 40 c.bg
    escape (look ++ "m") ++ String.ofList ((c :: cs).map Cell.char)

/-- Clears the terminal and writes the screen row by row. -/
def render (s : Screen) : String :=
  let rows := s.map fun row => String.join ((Screen.runs row).map run) ++ escape "0m"
  escape "2J" ++ escape "H" ++ "\n".intercalate rows

end Ansi

end MiniC
