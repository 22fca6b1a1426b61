/-! What can go wrong in a command or in a table of fixed size, and the wording of each cause. -/

namespace DeviceShell

/-- How an argument failed to be what its command takes. -/
inductive Misuse where
  | missing
  | invalid
  | outOfRange
  deriving DecidableEq, Repr

def Misuse.remark : Misuse → String
  | .missing => "missing argument"
  | .invalid => "invalid argument"
  | .outOfRange => "out of range"

/-- A command, the arguments it takes, and how the given ones were wrong. -/
structure UsageError where
  command : String
  usage : String
  misuse : Misuse
  deriving DecidableEq, Repr

/-- Everything that a command or a table can report. None of it ends the session. -/
inductive Failure where
  | usage (error : UsageError)
  | exhausted (what : String)
  | config (what : String)
  deriving DecidableEq, Repr

namespace Failure

def sinkTableFull : Failure := .exhausted "log sink table"

def commandTableFull : Failure := .exhausted "command table"

/-- A process has one log hub, and it is already in place. -/
def hubInstalled : Failure := .config "a logger is already installed"

def message : Failure → String
  | .usage e => "usage: " ++ e.command ++ " " ++ e.usage ++ " (" ++ e.misuse.remark ++ ")"
  | .exhausted what => "exhausted: " ++ what
  | .config what => "config: " ++ what

end Failure

/-- Why a command gives no answer at all. -/
inductive Halt where
  /-- A text had to be set in a field wider than a field can be. -/
  | fieldTooWide
  /-- The command runs until it is interrupted, and nothing interrupts it. -/
  | endless
  deriving DecidableEq, Repr

end DeviceShell
