import DeviceShell.Failure
import DeviceShell.Log.Record

/-! The log hub: a threshold and a short table of sinks, all of which get every record that the
threshold lets through. -/

namespace DeviceShell.Log

structure SinkId where
  number : UInt32
  deriving DecidableEq, Repr

structure Delivery where
  sink : SinkId
  record : String
  deriving DecidableEq, Repr

/-- The threshold, the identity for the next registration, and the sinks in order of
registration. -/
structure Hub where
  level : Level := .unset
  nextId : SinkId := ⟨1⟩
  sinks : List SinkId := []
  deriving DecidableEq, Repr

namespace Hub

def capacity : Nat := 4

/-- Register a sink. An attempt on a full table fails, but uses up an identity too. -/
def addSink (hub : Hub) : Except Failure SinkId × Hub :=
  let id := hub.nextId
  let spent := { hub with nextId := ⟨id.number + 1⟩ }
  if hub.sinks.length < capacity then (.ok id, { spent with sinks := hub.sinks ++ [id] })
  else (.error .sinkTableFull, spent)

/-- Remove a sink, and say whether it was there. The others keep their order. -/
def removeSink (id : SinkId) (hub : Hub) : Bool × Hub :=
  (hub.sinks.contains id, { hub with sinks := hub.sinks.erase id })

def setLevel (level : Level) (hub : Hub) : Hub := { hub with level := level }

/-- One record for each sink, in order of registration, if the threshold allows it. -/
def deliveries (e : Emission) (clock : UInt64) (hub : Hub) : List Delivery :=
  if hub.level.allows e.level then
    let record := e.record clock
    hub.sinks.map fun id => ⟨id, record⟩
  else []

end Hub

end DeviceShell.Log
