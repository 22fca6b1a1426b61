import DeviceShell.Log.Station

/-! The way into the log for those who do not know the hub: five severities, and no level that was
never chosen. -/

namespace DeviceShell.Log

inductive Severity where
  | error
  | warn
  | info
  | debug
  | trace
  deriving DecidableEq, Repr

def Severity.level : Severity → Level
  | .error => .error
  | .warn => .warn
  | .info => .info
  | .debug => .debug
  | .trace => .trace

def Station.log (severity : Severity) (target : String) (message : List String) (s : Station) :
    Station :=
  s.emit ⟨severity.level, target, message⟩

end DeviceShell.Log
