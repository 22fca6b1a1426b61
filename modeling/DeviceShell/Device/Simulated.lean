import DeviceShell.Monitor.Snapshot

/-! A made-up scheduler and allocator whose figures follow the clock, for trying the shell out
without a device. -/

namespace DeviceShell.Simulated

open Monitor

/-- A task, and its share of all ticks in tenths of a percent. -/
structure Task where
  name : String
  activity : Activity
  priority : UInt8
  share : UInt64
  deriving DecidableEq, Repr

def tasks : List Task :=
  [⟨"main", .running, 5, 90⟩,
   ⟨"stdin", .blocked, 4, 10⟩,
   ⟨"heartbeat", .blocked, 3, 20⟩,
   ⟨"timer", .blocked, 22, 30⟩,
   ⟨"idle", .ready, 0, 830⟩]

/-- The counters of the sample before: one for each task number, and the one of all ticks. -/
structure Scheduler where
  counters : List (UInt32 × UInt64) := []
  total : UInt64 := 0
  deriving DecidableEq, Repr

/-- What is left of a counter when another is taken off it; nothing if that is more. -/
def difference (now before : UInt64) : UInt64 := if now < before then 0 else now - before

namespace Scheduler

/-- Ticks of a task since the sample before. -/
def since (number : UInt32) (now : UInt64) (s : Scheduler) : UInt64 :=
  difference now (((s.counters.find? fun c => c.1 = number).map (·.2)).getD 0)

/-- All ticks at a time: one for each microsecond. -/
def ticks (clock : UInt64) : UInt64 := clock * 1000

def counter (clock : UInt64) (task : Task) : UInt64 := ticks clock / 1000 * task.share

def row (clock : UInt64) (s : Scheduler) (number : UInt32) (task : Task) : Thread :=
  { Thread.new "system" task.name task.activity task.priority with
    stackAddress := 0x3FC80000 + number * 4096
    stackSize := 4096
    stackMinFree := 4096 - 512 * number
    heap := 256 * number
    ticks := s.since number (counter clock task) }

/-- The tasks with their numbers, from one on. -/
def numbered : List (UInt32 × Task) :=
  tasks.zipIdx.map fun (task, i) => (UInt32.ofNat (i + 1), task)

def sample (clock : UInt64) (s : Scheduler) : Threads × Scheduler :=
  let total := difference (ticks clock) s.total
  let start : Threads := { totalTicks := total, isrTicks := total / 50 }
  (numbered.foldl (fun threads (number, task) => threads.push (s.row clock number task)) start,
    { counters := numbered.map fun (number, task) => (number, counter clock task)
      total := ticks clock })

end Scheduler

/-- The allocator: the least that was free at any sample. -/
structure Allocator where
  minimumFree : UInt64 := 0xFFFFFFFFFFFFFFFF
  deriving DecidableEq, Repr

namespace Allocator

def total : UInt64 := 320 * 1024

def free (clock : UInt64) : UInt64 := total - 96 * 1024 - clock / 100 % 4096

def sample (clock : UInt64) (a : Allocator) : Heap × Allocator :=
  let least := min a.minimumFree (free clock)
  ({ total := total, free := free clock, minimumFree := least, maxFreeBlock := free clock / 2 },
    { minimumFree := least })

end Allocator

end DeviceShell.Simulated
