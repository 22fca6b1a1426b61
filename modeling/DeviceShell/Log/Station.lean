import DeviceShell.History
import DeviceShell.Log.Hub
import DeviceShell.Log.Notice

/-! The hub at work: with the clock that stamps its records and the journal of what it delivered. -/

namespace DeviceShell.Log

/-- A hub, the milliseconds since start, and every delivery so far. -/
structure Station where
  hub : Hub := {}
  clock : UInt64 := 0
  journal : History Delivery := {}
  deriving DecidableEq, Repr

namespace Station

/-- What saying something now would deliver. -/
def deliveries (e : Emission) (s : Station) : List Delivery := s.hub.deliveries e s.clock

def emit (e : Emission) (s : Station) : Station :=
  { s with journal := s.journal.append (s.deliveries e) }

def announce (notice : Notice) (s : Station) : Station := s.emit notice.emission

def setLevel (level : Level) (s : Station) : Station := { s with hub := s.hub.setLevel level }

def setClock (clock : UInt64) (s : Station) : Station := { s with clock := clock }

def addSink (s : Station) : Except Failure SinkId × Station :=
  let (result, hub) := s.hub.addSink
  (result, { s with hub := hub })

def removeSink (id : SinkId) (s : Station) : Bool × Station :=
  let (found, hub) := s.hub.removeSink id
  (found, { s with hub := hub })

/-- The records a sink has received after the first deliveries, oldest first. -/
def receivedSince (deliveries : Nat) (id : SinkId) (s : Station) : List String :=
  ((s.journal.toList.drop deliveries).filter fun d => d.sink = id).map (·.record)

end Station

end DeviceShell.Log
