import DeviceShell.Log.Record

/-! What the shell and its helpers themselves say to the log. -/

namespace DeviceShell.Log

inductive Notice where
  | dispatching (name : String)
  | unknownCommand (name : String)
  | relayClosed (relayed dropped : UInt64)
  | lineNotText
  | queueFull
  | inputFailed (reason : String)
  | debugSwitched (on : Bool)
  | heapTracking (mode : String)
  deriving DecidableEq, Repr

namespace Notice

def level : Notice → Level
  | .dispatching _ | .unknownCommand _ | .relayClosed _ _ | .lineNotText => .debug
  | .queueFull | .inputFailed _ => .warn
  | .debugSwitched _ | .heapTracking _ => .info

def target : Notice → String
  | .dispatching _ | .unknownCommand _ => "devcli::app::service"
  | .relayClosed _ _ => "devcli::relay::session"
  | .lineNotText | .queueFull | .inputFailed _ => "devcli::input"
  | .debugSwitched _ | .heapTracking _ => "devcli::adapters::settings"

/-- The message, in pieces: fixed wording and inserted values alternate. -/
def message : Notice → List String
  | .dispatching name => ["dispatch `", name, "`"]
  | .unknownCommand name => ["unknown command `", name, "`"]
  | .relayClosed relayed dropped =>
    ["log relay closed: ", Text.decimal relayed.toNat, " bytes relayed, ",
     Text.decimal dropped.toNat, " dropped"]
  | .lineNotText => ["dropping non-UTF-8 input line"]
  | .queueFull => ["input queue full; line dropped"]
  | .inputFailed reason => ["input stream error (", reason, "); closing session"]
  | .debugSwitched on => ["system debug ", if on then "on" else "off"]
  | .heapTracking mode => ["heap tracking ", mode]

def emission (notice : Notice) : Emission := ⟨notice.level, notice.target, notice.message⟩

end Notice

end DeviceShell.Log
