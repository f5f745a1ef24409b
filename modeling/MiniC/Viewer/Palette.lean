import MiniC.Screen.Style

/-!
# The viewer's colours, by role
-/

namespace MiniC

namespace Palette

def text : Color := .rgb 205 214 244

/-- Brackets. -/
def bracket : Color := .rgb 137 180 250

/-- Comments, line numbers, borders without focus. -/
def comment : Color := .rgb 108 112 134

def success : Color := .rgb 166 227 161

def error : Color := .rgb 243 139 168

def keyword : Color := .rgb 203 166 247

def string : Color := .rgb 166 227 161

def number : Color := .rgb 250 179 135

def focus : Color := .rgb 249 226 175

/-- The background of the status bar. -/
def bar : Color := .rgb 49 50 68

/-- Names in front of a bracket. -/
def function : Color := .rgb 137 180 250

/-- The word `int`. -/
def type : Color := .rgb 148 226 213

/-- The border of a pane. -/
def border (focused : Bool) : Style :=
  if focused then (Style.ofFg focus).inBold else .ofFg comment

end Palette

end MiniC
