/-!
# Why a file cannot be read or written
-/

namespace MiniC

inductive FileError
  | missing
  /-- The path is that of a folder. -/
  | isFolder
  /-- The path goes through something that is no folder. -/
  | notFolder
  /-- The path, or a name in it, is too long. -/
  | longName
  /-- The bytes are no UTF-8 text. -/
  | notText
  /-- Any other reason, in the system's words. -/
  | other (reason : String)
  deriving DecidableEq, Repr

def FileError.message : FileError → String
  | .missing => "No such file or directory (os error 2)"
  | .isFolder => "Is a directory (os error 21)"
  | .notFolder => "Not a directory (os error 20)"
  | .longName => "File name too long (os error 36)"
  | .notText => "stream did not contain valid UTF-8"
  | .other reason => reason

/-- The text that bytes spell. -/
def decodeText (bytes : ByteArray) : Except FileError String :=
  match String.fromUTF8? bytes with
  | some text => .ok text
  | none => .error .notText

end MiniC
