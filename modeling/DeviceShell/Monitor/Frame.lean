import DeviceShell.Monitor.Share
import DeviceShell.Monitor.Snapshot
import DeviceShell.Terminal.Escape
import DeviceShell.Text.Align

/-! The thread monitor's screen: two lines of summary, a header, and a row for each thread. -/

namespace DeviceShell.Monitor

open Text

structure Frame where
  threads : Threads
  heap : Heap
  uptimeMillis : UInt64
  deriving DecidableEq, Repr

/-- A screen line starts at the left edge and leaves nothing behind to its right. -/
def screenLine (text : String) : String := "\r" ++ text ++ Escape.clearLineEnd ++ "\r\n"

/-- The columns before the stack address. -/
def leftColumns (app name activity priority : String) : String :=
  alignLeft 17 app ++ " " ++ alignLeft 20 name ++ " " ++ alignLeft 10 activity ++ " " ++
    alignRight 5 priority

/-- The columns after the stack address, up to the share of the processor. -/
def rightColumns (stack stackMin heap : String) : String :=
  alignRight 6 stack ++ " " ++ alignRight 10 stackMin ++ " " ++ alignRight 7 heap ++ " "

def header : String :=
  leftColumns "AppID" "Name" "State" "Prio" ++ " " ++ alignRight 12 "Stack start" ++ " " ++
    rightColumns "Stack" "Stack Min" "Heap" ++ alignRight 5 "CPU"

def address (a : UInt32) : String := "0x" ++ String.ofList (hexadecimal 8 a.toNat)

namespace Thread

/-- The row of a thread, given the ticks that its share is a share of. -/
def row (totalTicks : UInt64) (t : Thread) : String :=
  leftColumns t.app t.name t.activity.label (decimal t.priority.toNat) ++ "   " ++
    address t.stackAddress ++ " " ++
    rightColumns (decimal t.stackSize.toNat) (decimal t.stackMinFree.toNat)
      (decimal t.heap.toNat) ++
    displayTenths { place := .right, width := 5 } (permille t.ticks totalTicks)

end Thread

namespace Frame

def threadSummary (f : Frame) : String :=
  "Threads: " ++ decimal f.threads.rows.length ++ ", ISR Time: " ++
    displayTenths {} (permille f.threads.isrTicks f.threads.totalTicks) ++ "%, Uptime: " ++
    uptimeOfMillis f.uptimeMillis

def heapSummary (f : Frame) : String :=
  "Heap: total " ++ decimal f.heap.total.toNat ++ ", free " ++ decimal f.heap.free.toNat ++
    ", minimum " ++ decimal f.heap.minimumFree.toNat ++ ", max block " ++
    decimal f.heap.maxFreeBlock.toNat

def rows (f : Frame) : List String := f.threads.rows.map (Thread.row f.threads.totalTicks)

def render (f : Frame) : String :=
  screenLine f.threadSummary ++ screenLine f.heapSummary ++ "\r\n" ++ screenLine header ++
    String.join (f.rows.map screenLine)

end Frame

end DeviceShell.Monitor
