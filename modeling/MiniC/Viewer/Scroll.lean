/-!
# Scroll offsets

An offset is the number of lines above the first one shown. It is a 64-bit number: scrolling down
stops at its limit, and a draw then brings it back to the lines there are.
-/

namespace MiniC

namespace Scroll

/-- The largest offset, 2^64 - 1. -/
def limit : Nat := 0xffffffffffffffff

/-- The rows inside a pane of this height; at least one line is always taken as visible. -/
def visible (height : Nat) : Nat := max 1 (height - 2)

/-- The offset nearest to `offset` at which `total` lines fill `shown` rows, where they can. -/
def clamp (offset total shown : Nat) : Nat := min offset (total - shown)

/-- The offset that puts a line, counted from 1, into the middle of `height` rows. -/
def center (line height : Nat) : Nat := line - 1 - height / 2

def down (offset step : Nat) : Nat := min (offset + step) limit

def up (offset step : Nat) : Nat := offset - step

end Scroll

end MiniC
