import GateLevel.Command.Arguments
import GateLevel.Command.Files
import GateLevel.Settings

/-! The command with its own readers, and its runs on files in memory. -/

namespace GateLevel.Command

def readers : Readers := ⟨usage, Request.ofArguments, Settings.read?⟩

def runOn (files : Files) (arguments : List String) : Exit × Session :=
  (run Session.system readers arguments).run ⟨files, ""⟩

end GateLevel.Command
