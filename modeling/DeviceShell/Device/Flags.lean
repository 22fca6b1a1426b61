import DeviceShell.Log.Notice

/-! The device-wide flags. -/

namespace DeviceShell

/-- Whose allocations are tracked. -/
inductive HeapTracking where
  | none
  | main
  deriving DecidableEq, Repr

def HeapTracking.label : HeapTracking → String
  | .none => "None"
  | .main => "Main"

structure Flags where
  debug : Bool := false
  heapTracking : HeapTracking := .none
  appRunning : Bool := false
  deriving DecidableEq, Repr

/-- A change that a user can make to the flags. -/
inductive Switch where
  | debug (on : Bool)
  | heapTracking (mode : HeapTracking)
  deriving DecidableEq, Repr

namespace Switch

def apply (f : Flags) : Switch → Flags
  | .debug on => { f with debug := on }
  | .heapTracking mode => { f with heapTracking := mode }

def notice : Switch → Log.Notice
  | .debug on => .debugSwitched on
  | .heapTracking mode => .heapTracking mode.label

def confirmation : Switch → String
  | .debug false => "Debug disabled."
  | .debug true => "Debug enabled."
  | .heapTracking .none => "Heap tracking disabled"
  | .heapTracking .main => "Heap tracking enabled for application main thread"

end Switch

end DeviceShell
