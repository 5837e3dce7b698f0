import ProjectHub.Hub.Error
import ProjectHub.Settings.Basic

/-!
# The log of a process

A process has one log. The first set-up holds as long as the process does, and
any later one is refused, whatever it asks for.
-/

namespace ProjectHub.Hub

/-- Sets up the log of a process that has none yet. -/
def installLog (installed : Option Settings.Log) (log : Settings.Log) :
    Except Error Settings.Log :=
  match installed with
  | some _ => .error .logInstalled
  | none => .ok log

end ProjectHub.Hub
