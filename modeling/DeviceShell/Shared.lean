import DeviceShell.Interrupts
import DeviceShell.Log.Station

/-! The part of the device that a running command shares with the input reader and the other
tasks, and what those may do to it meanwhile. -/

namespace DeviceShell

structure Shared where
  log : Log.Station := {}
  interrupts : Interrupts
  deriving DecidableEq, Repr

inductive Action where
  | emit (e : Log.Emission)
  | setLevel (level : Log.Level)
  | setClock (clock : UInt64)
  | raise
  | input (byte : UInt8)
  deriving DecidableEq, Repr

namespace Shared

def announce (notice : Log.Notice) (s : Shared) : Shared := { s with log := s.log.announce notice }

def raise (s : Shared) : Shared := { s with interrupts := s.interrupts.raise }

def deliveries (s : Shared) : Action → List Log.Delivery
  | .emit e => s.log.deliveries e
  | _ => []

def act (s : Shared) : Action → Shared
  | .emit e => { s with log := s.log.emit e }
  | .setLevel level => { s with log := s.log.setLevel level }
  | .setClock clock => { s with log := s.log.setClock clock }
  | .raise => s.raise
  | .input byte => { s with interrupts := (s.interrupts.take byte).2 }

def actAll (s : Shared) (actions : List Action) : Shared := actions.foldl act s

end Shared

end DeviceShell
