import DeviceShell.Command.Columns
import DeviceShell.Text.Bytes

/-! The command table: names in order, each with what it runs. -/

namespace DeviceShell.Command

inductive Task where
  | help
  | log
  | top
  | free
  | uptime
  /-- Device properties; all of them, or those of a group that the argument names. -/
  | info (all : Bool)
  | sysctl
  | source
  | clear
  | neofetch
  deriving DecidableEq, Repr

/-- A name, whether the listing leaves it out, whether it may run while an application is open, and
what it runs. -/
structure Entry where
  name : String
  hidden : Bool := false
  parallelSafe : Bool := false
  task : Task
  deriving DecidableEq, Repr

/-- Names are ordered by their bytes. -/
def precedes (a b : String) : Bool := decide (Text.encode a < Text.encode b)

structure Table where
  entries : List Entry := []
  deriving DecidableEq, Repr

namespace Table

def capacity : Nat := 32

/-- Where a name stands among entries, or in front of how many of them it would have to come. -/
inductive Slot where
  | taken (index : Nat)
  | vacant (index : Nat)
  deriving DecidableEq, Repr

def Slot.shift (count : Nat) : Slot → Slot
  | .taken index => .taken (index + count)
  | .vacant index => .vacant (index + count)

/-- Look for a name by halving: it is in the middle, or else in the half before or behind it. -/
def search (name : String) (entries : List Entry) : Slot :=
  match _h : entries.drop (entries.length / 2) with
  | [] => .vacant 0
  | e :: behind =>
    if e.name = name then .taken (entries.length / 2)
    else if precedes name e.name then search name (entries.take (entries.length / 2))
    else (search name behind).shift (entries.length / 2 + 1)
termination_by entries.length
decreasing_by
  all_goals
    have := congrArg List.length _h
    simp only [List.length_drop, List.length_cons, List.length_take] at this ⊢
    omega

def get? (name : String) (t : Table) : Option Entry :=
  match search name t.entries with
  | .taken index => t.entries[index]?
  | .vacant _ => none

/-- Register an entry in place of any that has its name. A name that is new needs room. -/
def add (entry : Entry) (t : Table) : Except Failure Table :=
  match search entry.name t.entries with
  | .taken index => .ok { entries := t.entries.set index entry }
  | .vacant index =>
    if t.entries.length < capacity then .ok { entries := t.entries.insertIdx index entry }
    else .error .commandTableFull

def remove (name : String) (t : Table) : Bool × Table :=
  match search name t.entries with
  | .taken index => (true, { entries := t.entries.eraseIdx index })
  | .vacant _ => (false, t)

def size (t : Table) : Nat := t.entries.length

/-- The labels of the listing, hidden ones too. -/
def labels (t : Table) : List Label := t.entries.map fun e => ⟨e.name, e.hidden⟩

def builtins : List Entry :=
  [⟨"!", false, true, .info true⟩,
   ⟨"info", false, true, .info false⟩,
   ⟨"device_info", false, true, .info true⟩,
   ⟨"source", false, true, .source⟩,
   ⟨"src", false, true, .source⟩,
   ⟨"neofetch", true, true, .neofetch⟩,
   ⟨"?", false, true, .help⟩,
   ⟨"help", false, true, .help⟩,
   ⟨"uptime", false, false, .uptime⟩,
   ⟨"log", false, true, .log⟩,
   ⟨"l", false, true, .log⟩,
   ⟨"sysctl", false, false, .sysctl⟩,
   ⟨"top", false, true, .top⟩,
   ⟨"free", false, true, .free⟩,
   ⟨"clear", false, true, .clear⟩,
   ⟨"cls", false, true, .clear⟩]

/-- Add entries in turn; those that find no room are left out. -/
def addAll (entries : List Entry) (t : Table) : Table :=
  entries.foldl (fun t e => (t.add e).toOption.getD t) t

def standard : Table := addAll builtins {}

end Table

end DeviceShell.Command
