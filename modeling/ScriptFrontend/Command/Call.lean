import ScriptFrontend.Command.Arguments
import ScriptFrontend.Command.Run

/-!
# Command/Call — calling the command

A call has a command line and a folder.  One that asks for no run puts nothing out; it ends with the
status 0 if it asks for help and with 2 if it makes no sense.
-/

namespace ScriptFrontend

/-- The status of a command line that makes no sense. -/
def refusedStatus : Nat := 2

/-- **What a call leaves behind**, and whether the records of its steps are shown. -/
def call (words : List String) (folder : Folder) : Report × Bool :=
  match requestOf words with
  | .run task verbose => (task.runGuarded folder, verbose)
  | .help => ({ ending := .status 0, folder }, false)
  | .refuse => ({ ending := .status refusedStatus, folder }, false)

end ScriptFrontend
