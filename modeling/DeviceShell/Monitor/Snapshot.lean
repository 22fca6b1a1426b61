import DeviceShell.Text.Fit

/-! What the scheduler and the allocator say at one point in time. -/

namespace DeviceShell.Monitor

inductive Activity where
  | running
  | ready
  | blocked
  | suspended
  | deleted
  | unknown
  deriving DecidableEq, Repr

def Activity.all : List Activity := [.running, .ready, .blocked, .suspended, .deleted, .unknown]

def Activity.label : Activity → String
  | .running => "Running"
  | .ready => "Ready"
  | .blocked => "Blocked"
  | .suspended => "Suspended"
  | .deleted => "Deleted"
  | .unknown => "Unknown"

/-- Bytes kept of a name. -/
def nameLimit : Nat := 24

/-- One thread. Its ticks are those since the snapshot before. -/
structure Thread where
  app : String
  name : String
  activity : Activity
  priority : UInt8
  stackAddress : UInt32 := 0
  stackSize : UInt32 := 0
  stackMinFree : UInt32 := 0
  heap : UInt32 := 0
  ticks : UInt64 := 0
  deriving DecidableEq, Repr

/-- A thread with nothing measured yet. Names are cut to what is kept of them. -/
def Thread.new (app name : String) (activity : Activity) (priority : UInt8) : Thread :=
  { app := Text.fit nameLimit app
    name := Text.fit nameLimit name
    activity := activity
    priority := priority }

/-- The threads in the order of the scheduler, the ticks since the snapshot before, and how many of
those went to interrupts. -/
structure Threads where
  rows : List Thread := []
  totalTicks : UInt64 := 0
  isrTicks : UInt64 := 0
  deriving DecidableEq, Repr

namespace Threads

def capacity : Nat := 48

def push (thread : Thread) (s : Threads) : Threads :=
  if s.rows.length < capacity then { s with rows := s.rows ++ [thread] } else s

end Threads

structure Heap where
  total : UInt64 := 0
  free : UInt64 := 0
  minimumFree : UInt64 := 0
  maxFreeBlock : UInt64 := 0
  deriving DecidableEq, Repr

/-- Bytes in use; none if more is free than there is. -/
def Heap.used (h : Heap) : UInt64 := if h.total < h.free then 0 else h.total - h.free

end DeviceShell.Monitor
