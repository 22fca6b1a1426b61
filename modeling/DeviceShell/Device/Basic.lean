import DeviceShell.Device.Facts
import DeviceShell.Device.Flags
import DeviceShell.Monitor.Snapshot
import DeviceShell.Shared

/-! The device as a command finds it. -/

namespace DeviceShell

/-- What commands can read and change. Thread samples are given out in turn, the last one again and
again. -/
structure Device where
  shared : Shared
  flags : Flags := {}
  facts : Facts := {}
  heap : Monitor.Heap := {}
  samples : List Monitor.Threads := []
  sampled : Nat := 0

namespace Device

def clock (d : Device) : UInt64 := d.shared.log.clock

/-- The next thread sample; without any there are no threads. -/
def nextSample (d : Device) : Monitor.Threads :=
  d.samples.getD (min d.sampled (d.samples.length - 1)) {}

def advance (d : Device) : Device := { d with sampled := d.sampled + 1 }

def announce (notice : Log.Notice) (d : Device) : Device :=
  { d with shared := d.shared.announce notice }

def actAll (actions : List Action) (d : Device) : Device :=
  { d with shared := d.shared.actAll actions }

def disarm (d : Device) : Device :=
  { d with shared := { d.shared with interrupts := d.shared.interrupts.disarm } }

def arm (d : Device) : Token × Device :=
  let (token, interrupts) := d.shared.interrupts.arm
  (token, { d with shared := { d.shared with interrupts := interrupts } })

def flip (switch : Switch) (d : Device) : Device :=
  { d with flags := switch.apply d.flags }.announce switch.notice

def isCancelled (token : Token) (d : Device) : Bool := d.shared.interrupts.isCancelled token

end Device

end DeviceShell
