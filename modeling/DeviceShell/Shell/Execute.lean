import DeviceShell.Command.Answers
import DeviceShell.Command.Card
import DeviceShell.Command.Rejection
import DeviceShell.Config.Basic
import DeviceShell.Device.Basic
import DeviceShell.Monitor.Frame
import DeviceShell.Monitor.Redraw
import DeviceShell.Relay.Circle
import DeviceShell.Relay.Session

/-! The shell: a line is looked up in the command table and carried out. No failure of a command
ends the session. -/

namespace DeviceShell

structure Shell where
  table : Command.Table := .standard
  config : Config := {}

inductive Dispatch where
  | empty
  | ran (name : String)
  | notFound
  | refused (name : String)
  deriving DecidableEq, Repr

/-- What other parties do while a line is carried out: during a relay session, and during each pause
of a redraw. -/
structure Meanwhile where
  relay : Relay.Script := {}
  pauses : List (List Action) := []
  deriving DecidableEq, Repr

/-- What a command did: its failure if it failed, the device and the console after it, and the
pauses it made. -/
structure Effect where
  failure : Option Failure := none
  device : Device
  console : Console
  pauses : List UInt32 := []

structure Execution where
  dispatch : Dispatch
  device : Device
  console : Console
  pauses : List UInt32 := []

namespace Shell

/-- Printed in place of a command that has to wait until no application is open. -/
def refusal : String := "This command cannot be run while an application is open."

def columns (shell : Shell) : Command.Columns :=
  .ofCount shell.config.helpColumns.toNat shell.config.helpWidth.toNat

def prompt (shell : Shell) (console : Console) : Console :=
  (console.write ("\r\n" ++ shell.config.prompt.text)).flush

def view (token : Token) : Monitor.View Device where
  frame device :=
    (Monitor.Frame.render ⟨device.nextSample, device.heap, device.clock⟩, device.advance)
  isCancelled device := device.isCancelled token

def log (shell : Shell) (args : String) (script : Relay.Script) (token : Token) (device : Device)
    (console : Console) : Except Halt Effect :=
  (Relay.run (Relay.Circle Relay.ringSize) shell.config.relayChunk.toNat args script token
    device.shared console).map fun ended =>
    { failure := match ended.result with
        | .ok _ => none
        | .error failure => some failure
      device := { device with shared := ended.shared }
      console := ended.console }

def top (shell : Shell) (args : String) (pauses : List (List Action)) (token : Token)
    (device : Device) (console : Console) : Except Halt Effect :=
  match Monitor.Mode.ofArgs args shell.config.topInterval with
  | .error failure => .ok { failure := some failure, device := device, console := console }
  | .ok mode =>
    (Monitor.redraw (view token) mode (pauses.map Device.actAll) device console).map fun drawn =>
      { device := drawn.subject, console := drawn.console, pauses := drawn.pauses.toList }

def sysctl (args : String) (device : Device) (console : Console) : Effect :=
  match Command.switchOfArgs args with
  | .error failure => { failure := some failure, device := device, console := console }
  | .ok none => { device := device, console := console.write Command.sysctlUsage }
  | .ok (some switch) =>
    { device := device.flip switch, console := console.write switch.confirmation }

def info (all : Bool) (args : String) (device : Device) (console : Console) : Effect :=
  match Command.info device.facts all args with
  | .error failure => { failure := some failure, device := device, console := console }
  | .ok text => { device := device, console := console.write text }

def perform (shell : Shell) (task : Command.Task) (args : String) (meanwhile : Meanwhile)
    (token : Token) (device : Device) (console : Console) : Except Halt Effect :=
  match task with
  | .help =>
    (Command.help shell.columns shell.table args).map fun text =>
      { device := device, console := console.write text }
  | .log => shell.log args meanwhile.relay token device console
  | .top => shell.top args meanwhile.pauses token device console
  | .free => .ok { device := device, console := console.write (Command.free device.heap) }
  | .uptime => .ok { device := device, console := console.write (Command.uptime device.clock) }
  | .info all => .ok (info all args device console)
  | .sysctl => .ok (sysctl args device console)
  | .source =>
    .ok { device := device
          console := console.write (Command.source shell.config.sourceUrl.text) }
  | .clear => .ok { device := device, console := console.write Command.clear }
  | .neofetch =>
    .ok { device := device
          console := console.write (Command.Card.render device.facts device.heap device.clock) }

/-- A command has ended: its failure is shown, and interrupts go to nobody. -/
def conclude (entry : Command.Entry) (args : String) (effect : Effect) : Execution :=
  let shown := match effect.failure with
    | some failure => effect.console.write (failure.rejection args)
    | none => effect.console
  { dispatch := .ran entry.name
    device := effect.device.disarm
    console := shown.flush
    pauses := effect.pauses }

/-- Run a command with a token of its own. -/
def launch (shell : Shell) (entry : Command.Entry) (args : String) (meanwhile : Meanwhile)
    (device : Device) (console : Console) : Except Halt Execution :=
  let (token, armed) := (device.announce (.dispatching entry.name)).arm
  (shell.perform entry.task args meanwhile token armed console).map (conclude entry args)

def execute (shell : Shell) (line : String) (meanwhile : Meanwhile) (device : Device)
    (console : Console) : Except Halt Execution :=
  let (name, args) := Text.splitWord line
  if name.isEmpty then .ok { dispatch := .empty, device := device, console := console }
  else
    let fresh := console.write "\r\n"
    match shell.table.get? name with
    | none =>
      (Command.help shell.columns shell.table name).map fun text =>
        { dispatch := .notFound
          device := device.announce (.unknownCommand name)
          console := fresh.write text }
    | some entry =>
      if !entry.parallelSafe && device.flags.appRunning then
        .ok { dispatch := .refused entry.name, device := device, console := fresh.write refusal }
      else shell.launch entry args meanwhile device fresh

end Shell

end DeviceShell
