import DeviceShell.Log.Facade

/-! What callers ask of a log, one call after the other. -/

namespace DeviceShell.Log.Station

/-- What callers ask of a log, and what becomes of its clock. -/
inductive Call where
  | addSink
  | removeSink (id : SinkId)
  | setLevel (level : Level)
  | setClock (clock : UInt64)
  | emit (e : Emission)
  | log (severity : Severity) (target : String) (message : List String)
  deriving DecidableEq, Repr

/-- The log after a call. -/
def call (s : Station) : Call → Station
  | .addSink => s.addSink.2
  | .removeSink id => (s.removeSink id).2
  | .setLevel level => s.setLevel level
  | .setClock clock => s.setClock clock
  | .emit e => s.emit e
  | .log severity target message => s.log severity target message

/-- The log after calls, the first one first. -/
def callAll (s : Station) (calls : List Call) : Station := calls.foldl call s

end DeviceShell.Log.Station
