import DeviceShell.Command.Table
import DeviceShell.Device.Facts
import DeviceShell.Device.Flags
import DeviceShell.Monitor.Share
import DeviceShell.Monitor.Snapshot
import DeviceShell.Terminal.Escape
import DeviceShell.Text.Blank

/-! The commands that answer at once. -/

namespace DeviceShell.Command

/-- The listing of commands, and the name that was not found, if the listing is shown for one. -/
def help (columns : Columns) (table : Table) (missing : String) : Except Halt String := do
  let listing ← columns.render table.labels
  let name := Text.trim missing
  let remark := if name.isEmpty then "" else "\r\n`" ++ name ++ "` command not found"
  return "Commands available:" ++ listing ++ remark

def uptime (clock : UInt64) : String := "Uptime: " ++ Monitor.uptimeOfMillis clock

def free (heap : Monitor.Heap) : String :=
  "Free heap size: " ++ Text.decimal heap.free.toNat ++ "\r\n" ++
  "Total heap size: " ++ Text.decimal heap.total.toNat ++ "\r\n" ++
  "Minimum heap size: " ++ Text.decimal heap.minimumFree.toNat ++ "\r\n" ++
  "Maximum heap block: " ++ Text.decimal heap.maxFreeBlock.toNat ++ "\r\n"

def source (url : String) : String :=
  if url.isEmpty then "Source location not configured" else url

def clear : String := Escape.clearScreen ++ Escape.cursorHome

def infoError (misuse : Misuse) : Failure := .usage ⟨"info", "<device|power>", misuse⟩

/-- The group of properties that an argument names. -/
def scopeOfArgs (args : String) : Except Failure Scope :=
  let name := Text.trim args
  if name = "device" then .ok .device
  else if name = "power" then .ok .power
  else if name.isEmpty then .error (infoError .missing)
  else .error (infoError .invalid)

def properties (facts : Facts) (scope : Scope) : String :=
  String.join ((facts.properties scope).map fun (key, value) =>
    Text.alignLeft 30 key ++ ": " ++ value ++ "\r\n")

/-- Device properties, all of them or those of the group that the argument names. -/
def info (facts : Facts) (all : Bool) (args : String) : Except Failure String :=
  if all then .ok (properties facts .all)
  else (scopeOfArgs args).map (properties facts)

def sysctlUsage : String :=
  "Usage:\r\n" ++
  "sysctl <cmd> <args>\r\n" ++
  "Cmd list:\r\n" ++
  "\tdebug <0|1>\t - Enable or disable system debug\r\n" ++
  "\theap_track <none|main>\t - Set heap allocation tracking mode\r\n"

/-- The change that an argument of `sysctl` asks for. Without a known sub-command it asks for the
usage text. -/
def switchOfArgs (args : String) : Except Failure (Option Switch) :=
  let (group, value) := Text.splitWord args
  if group = "debug" then
    if value = "0" then .ok (some (.debug false))
    else if value = "1" then .ok (some (.debug true))
    else .error (.usage ⟨"sysctl debug", "<1|0>", .invalid⟩)
  else if group = "heap_track" then
    if value = "none" then .ok (some (.heapTracking .none))
    else if value = "main" then .ok (some (.heapTracking .main))
    else .error (.usage ⟨"sysctl heap_track", "<none|main>", .invalid⟩)
  else .ok none

end DeviceShell.Command
