import Renaming.Failure
import Renaming.Text.Words

/-!
The command that checks the renamed sources after a run, and what comes of it.
-/

namespace Renaming

/-- A command to run after the renaming. -/
structure Check where
  /-- The program, followed by its arguments. -/
  command : List String
  /-- The directory to run it in. -/
  cwd : Option String := none
  /-- The time after which it is stopped, in milliseconds. -/
  timeout : Nat
  deriving DecidableEq, Repr

namespace Check

/-- The time after which a command is stopped unless one is given, in seconds. -/
def defaultTimeout : Nat := 120

/-- The failure for a command without a program. -/
def emptyCommand : Failure :=
  (Cause.badArgument "verify" "verification command is empty" : Cause)

/-- The check that a command line describes. -/
def ofLine (line : String) (cwd : Option String) (seconds : Option Nat) : Except Failure Check :=
  let command := Text.words line
  if command.isEmpty then .error emptyCommand
  else if seconds = some 0 then
    .error (Cause.badArgument "verify_timeout" "timeout must be at least one second" : Cause)
  else .ok { command, cwd, timeout := 1000 * seconds.getD defaultTimeout }

/-- The command of a check on one line. -/
def shown (c : Check) : String := " ".intercalate c.command

end Check

/-- How a command ended. -/
structure Ending where
  /-- The exit code, unless it was stopped. -/
  exitCode : Option Int
  timedOut : Bool
  /-- How long it ran, in milliseconds. -/
  duration : Nat := 0
  deriving DecidableEq, Repr

/-- Whether a command ended well. -/
def Ending.succeeded (e : Ending) : Bool := !e.timedOut && e.exitCode == some 0

/-- A check that was carried out. -/
structure Verification where
  command : String
  ending : Ending
  deriving DecidableEq, Repr

end Renaming
