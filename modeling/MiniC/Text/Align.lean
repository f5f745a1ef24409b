/-!
# Right-aligned columns
-/

namespace MiniC

/-- Puts as many spaces in front of `text` as bring it to `width`; a longer text stays as it is. -/
def alignRight (width : Nat) (text : String) : String :=
  String.ofList (List.replicate (width - text.length) ' ') ++ text

end MiniC
