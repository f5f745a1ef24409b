import MiniC.FileError

/-!
# A folder among files

Files by the names that lead to them from the root; these and the names that lead to the folder
decide which folders there are. A path is walked step by step from the folder, or from the root if
it starts with a slash. Every step but the last one has to end in a folder, and a slash at the end
of a path is a step of its own. Nothing lies above the root.
-/

namespace MiniC

structure Folder where
  /-- The names that lead from the root to the folder. -/
  home : List String
  files : List (List String × ByteArray)

namespace Folder

/-- A step of a path. -/
inductive Step
  | stay
  | up
  | enter (name : String)
  deriving DecidableEq, Repr

namespace Step

def ofText : String → Step
  | "" => .stay
  | "." => .stay
  | ".." => .up
  | name => .enter name

/-- Does the step enter something with a name? -/
def isEntry : Step → Bool
  | .enter _ => true
  | _ => false

end Step

/-- A folder below the root with these files and no others, their paths being written with names
only. -/
def ofFiles (files : List (String × ByteArray)) : Folder :=
  let home := ["work"]
  ⟨home, files.map fun file =>
    (home ++ (file.1.splitOn "/").filter (Step.isEntry <| Step.ofText ·), file.2)⟩

/-- Is there a folder at the end of these names? -/
def hasFolder (folder : Folder) (place : List String) : Bool :=
  place.isPrefixOf folder.home ||
    folder.files.any fun file => place.isPrefixOf file.1 && place ≠ file.1

def find? (folder : Folder) (place : List String) : Option ByteArray :=
  (folder.files.find? (·.1 = place)).map Prod.snd

/-- The largest number of bytes of a name. -/
def maxName : Nat := 255

/-- The largest number of bytes of a path. -/
def maxPath : Nat := 4095

/-- Where the steps lead to from the folder `place`. The last name need not be there. -/
def walk (folder : Folder) (place : List String) : List Step → Except FileError (List String)
  | [] => .ok place
  | .stay :: steps => folder.walk place steps
  | .up :: steps => folder.walk place.dropLast steps
  | .enter name :: steps =>
    let next := place ++ [name]
    if name.utf8ByteSize > maxName then .error .longName
    else if steps.isEmpty then .ok next
    else if folder.hasFolder next then folder.walk next steps
    else if (folder.find? next).isSome then .error .notFolder
    else .error .missing

/-- Where the pieces of a path between its slashes lead to. -/
def locate (folder : Folder) (pieces : List String) : Except FileError (List String) :=
  match pieces with
  | [""] => .error .missing
  | "" :: pieces => folder.walk [] (pieces.map Step.ofText)
  | pieces => folder.walk folder.home (pieces.map Step.ofText)

def pieces (path : String) : Except FileError (List String) :=
  if path.utf8ByteSize > maxPath then .error .longName else .ok (path.splitOn "/")

/-- The bytes of a file. -/
def read (folder : Folder) (path : String) : Except FileError ByteArray := do
  let place ← folder.locate (← pieces path)
  match folder.find? place with
  | some bytes => .ok bytes
  | none => if folder.hasFolder place then .error .isFolder else .error .missing

def readText (folder : Folder) (path : String) : Except FileError String := do
  decodeText (← folder.read path)

/-- Where a file is to be written. A name with a slash behind it is that of a folder, whether there
is one or not. -/
def target (folder : Folder) (path : String) : Except FileError (List String) := do
  let pieces ← pieces path
  match pieces.reverse.dropWhile (· = "") with
  | [] => folder.locate pieces
  | last :: front =>
    if pieces.getLast? = some "" && (Step.ofText last).isEntry then do
      let _ ← folder.locate (front.reverse ++ ["."])
      .error .isFolder
    else folder.locate pieces

/-- The folder with the file at `path` replaced, or a new one made in a folder that is there. -/
def write (folder : Folder) (path : String) (bytes : ByteArray) : Except FileError Folder := do
  let place ← folder.target path
  if folder.hasFolder place then .error .isFolder
  else return { folder with files := (place, bytes) :: folder.files.filter (·.1 ≠ place) }

end Folder

end MiniC
