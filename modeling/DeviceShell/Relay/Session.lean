import DeviceShell.Relay.Drain
import DeviceShell.Text.Blank

/-! The relay session: show the device's log on the console until interrupted, at a level of its
own if one is asked for, and leave the log as it was found. -/

namespace DeviceShell.Relay

inductive Stage where
  | idle
  | levelOverridden
  | relaying
  | draining
  | restoring
  | closed
  deriving DecidableEq, Repr

/-- What a session did: the stages it entered in order, the reads it made, the bytes it showed, the
bytes that its ring had no room for, and the level it set back. -/
structure Report where
  visited : List Stage := []
  reads : UInt32 := 0
  relayed : UInt64 := 0
  dropped : UInt64 := 0
  restored : Option Log.Level := none
  deriving DecidableEq, Repr

namespace Report

def stageLimit : Nat := 6

def enter (stage : Stage) (r : Report) : Report :=
  if r.visited.length < stageLimit then { r with visited := r.visited ++ [stage] } else r

end Report

inductive Request where
  | keepLevel
  | override (level : Log.Level)
  | help
  deriving DecidableEq, Repr

/-- Nothing keeps the level, the name of a level overrides it, and all else asks for help. -/
def Request.ofArgs (args : String) : Request :=
  let name := Text.trim args
  if name.isEmpty then .keepLevel
  else
    match Log.Level.ofName? name with
    | some level => .override level
    | none => .help

def Request.level? : Request → Option Log.Level
  | .override level => some level
  | _ => none

def levelHelp : List String :=
  ["<log> — start logging using the current level from the system settings\r\n",
   "<log error> — only critical errors and other important messages\r\n",
   "<log warn> — non-critical errors and warnings including <log error>\r\n",
   "<log info> — non-critical information including <log warn>\r\n",
   "<log default> — the default system log level (equivalent to <log info>)\r\n",
   "<log debug> — debug information including <log info> (may impact system performance)\r\n",
   "<log trace> — system traces including <log debug> (may impact system performance)\r\n"]

def levelLine (level : Log.Level) : String := "Current log level: " ++ level.name ++ "\r\n"

def banner : String := "Use <log ?> to list available log levels\r\nPress CTRL+C to stop...\r\n"

/-- How a session ends, and what it leaves. -/
structure Ended extends Client where
  result : Except Failure Report
  console : Console

section Session

variable (π : Type) [Pipe π] [Pipe.Lawful π ringSize]

/-- The loop is over: stop listening, then set the level back, then say so to the log. -/
def close {π : Type} [Pipe π] (previous : Option Log.Level) (report : Report) (d : Drain π) :
    Ended :=
  let restored := (d.ask (.removeSink d.sink)).impose previous
  let report := (((report.enter .draining).enter .restoring).enter .closed)
  { restored.ask (.emit (Log.Notice.relayClosed d.relayed d.ring.dropped).emission) with
    result := .ok { report with
      reads := d.reads
      relayed := d.relayed
      dropped := d.ring.dropped
      restored := previous }
    console := d.console }

/-- A session that has registered its sink and let the others in for the first time; with a full
sink table it ends there. -/
def register (chunk : Nat) (level : Option Log.Level) (script : Script) (token : Token)
    (shared : Shared) (console : Console) : Except Ended (Drain π) :=
  let client := ({ shared := shared } : Client).impose level
  let console := console.write (levelLine client.shared.log.hub.level)
  match client.addSink with
  | (.error failure, client) =>
    let previous := level.map fun _ => shared.log.hub.level
    .error { client.impose previous with result := .error failure, console := console }
  | (.ok sink, client) =>
    let drain : Drain π :=
      { client with
        sink := sink
        token := token
        chunk := chunk
        script := script
        console := console.write banner }
    .ok drain.flush

/-- A session that listens, from the level on which it was asked to. -/
def listen (chunk : Nat) (level : Option Log.Level) (script : Script) (token : Token)
    (shared : Shared) (console : Console) : Except Halt Ended :=
  let report := ({} : Report).enter .idle
  let report := if level.isSome then report.enter .levelOverridden else report
  let report := report.enter .relaying
  match register π chunk level script token shared console with
  | .error ended => .ok ended
  | .ok drain =>
    match drain.run with
    | none => .error .endless
    | some done => .ok (close (level.map fun _ => shared.log.hub.level) report done)

/-- A session. Only a full sink table is an error, and then the level is set back too. -/
def run (chunk : Nat) (args : String) (script : Script) (token : Token) (shared : Shared)
    (console : Console) : Except Halt Ended :=
  match Request.ofArgs args with
  | .help =>
    .ok {
      shared := shared
      result := .ok ((({} : Report).enter .idle).enter .closed)
      console := levelHelp.foldl (fun c line => c.write line) console }
  | request => listen π chunk request.level? script token shared console

end Session

end DeviceShell.Relay
