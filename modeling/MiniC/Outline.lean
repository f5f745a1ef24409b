import MiniC.Text.Line

/-!
# Outlines

An outline shows a value as nested records, tuples and lists, over several lines
(`Outline.render`) or on one (`Outline.inline`).
-/

namespace MiniC

inductive Outline
  | atom (text : String)
  | record (name : String) (fields : List (String × Outline))
  | tuple (name : String) (items : List Outline)
  | list (items : List Outline)
  deriving Inhabited

namespace Outline

mutual

/-- The lines of an outline. `lead` stands before it on its first line, `tail` after it on its
last. -/
def lines (depth : Nat) (lead tail : String) : Outline → List Line
  | .atom text => [⟨depth, lead ++ text ++ tail⟩]
  | .record name fields =>
    ⟨depth, lead ++ name ++ " \x7b"⟩ :: fieldLines (depth + 1) fields ++ [⟨depth, "\x7d" ++ tail⟩]
  | .tuple name items =>
    ⟨depth, lead ++ name ++ "("⟩ :: itemLines (depth + 1) items ++ [⟨depth, ")" ++ tail⟩]
  | .list [] => [⟨depth, lead ++ "[]" ++ tail⟩]
  | .list (item :: items) =>
    ⟨depth, lead ++ "["⟩ :: (item.lines (depth + 1) "" "," ++ itemLines (depth + 1) items) ++
      [⟨depth, "]" ++ tail⟩]

def fieldLines (depth : Nat) : List (String × Outline) → List Line
  | [] => []
  | (name, value) :: fields => value.lines depth (name ++ ": ") "," ++ fieldLines depth fields

def itemLines (depth : Nat) : List Outline → List Line
  | [] => []
  | item :: items => item.lines depth "" "," ++ itemLines depth items

end

/-- The outline over several lines. -/
def render (o : Outline) : String := Line.renderAll (o.lines 0 "" "")

mutual

/-- The outline on one line. -/
def inline : Outline → String
  | .atom text => text
  | .record name fields => name ++ " \x7b " ++ ", ".intercalate (inlineFields fields) ++ " \x7d"
  | .tuple name items => name ++ "(" ++ ", ".intercalate (inlineItems items) ++ ")"
  | .list items => "[" ++ ", ".intercalate (inlineItems items) ++ "]"

def inlineFields : List (String × Outline) → List String
  | [] => []
  | (name, value) :: fields => (name ++ ": " ++ value.inline) :: inlineFields fields

def inlineItems : List Outline → List String
  | [] => []
  | item :: items => item.inline :: inlineItems items

end

end Outline

end MiniC
