import DeviceShell.Shared

/-! What the rest of the device does while a relay session runs, by the points at which the
session lets it in. -/

namespace DeviceShell.Relay

/-- What happens at one flush of the console. -/
structure Moment where
  actions : List Action := []
  /-- The session is not stopped here, even if nothing is queued. -/
  heldOpen : Bool := false
  deriving DecidableEq, Repr

/-- The moments at the console flushes, the actions during reads that find nothing queued, and
whether somebody interrupts the session once a flush leaves nothing queued. -/
structure Script where
  flushes : List Moment := []
  waits : List (List Action) := []
  stopsWhenDrained : Bool := true
  deriving DecidableEq, Repr

def Script.size (s : Script) : Nat := s.flushes.length + s.waits.length

end DeviceShell.Relay
