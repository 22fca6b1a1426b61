import DeviceShell.History
import DeviceShell.Log.Calls
import DeviceShell.Shared

/-! A relay session as a client of the log. -/

namespace DeviceShell.Relay

/-- The device of a session, and what the session itself has asked of the log, in order. -/
structure Client where
  shared : Shared
  asked : History Log.Station.Call := {}
  deriving DecidableEq, Repr

namespace Client

def ask (call : Log.Station.Call) (c : Client) : Client where
  shared := { c.shared with log := c.shared.log.call call }
  asked := c.asked.push call

def addSink (c : Client) : Except Failure Log.SinkId × Client :=
  (c.shared.log.addSink.1, c.ask .addSink)

/-- Set the level, if there is one to be set. -/
def impose (level : Option Log.Level) (c : Client) : Client :=
  match level with
  | some level => c.ask (.setLevel level)
  | none => c

end Client

end DeviceShell.Relay
