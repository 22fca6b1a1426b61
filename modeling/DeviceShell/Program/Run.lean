import DeviceShell.Config.Document
import DeviceShell.Device.Simulated
import DeviceShell.Input.Channel
import DeviceShell.Input.Reader
import DeviceShell.Program.Folder
import DeviceShell.Shell.Execute

/-! The program from its arguments to its exit: it loads a configuration, then talks over its
standard streams until the input ends. -/

namespace DeviceShell.Program

inductive StartFault where
  | reading (path : String) (fault : ReadFault)
  | parsing (path : String) (failure : Failure)

/-- The report of a fault: what was tried, and the cause. -/
def StartFault.report (fault : StartFault) : String :=
  let (step, path, cause) := match fault with
    | .reading path fault => ("reading", path, fault.text)
    | .parsing path failure => ("parsing", path, failure.message)
  "Error: " ++ step ++ " config " ++ path ++ "\n\nCaused by:\n    " ++ cause ++ "\n"

def configOfFile (path : String) (contents : Except ReadFault Bytes) : Except StartFault Config :=
  match contents with
  | .error fault => .error (.reading path fault)
  | .ok bytes =>
    match Text.decode? bytes with
    | none => .error (.reading path .notText)
    | some text =>
      match Config.ofJson .standard text with
      | .error failure => .error (.parsing path failure)
      | .ok config => .ok config

/-- The device that is simulated where there is none. -/
def simulatedDevice (config : Config) : Device :=
  { shared := { interrupts := { byte := config.interruptByte } }
    facts := Facts.board "devcli" "sim-x86_64" "linux" 1
    heap := (Simulated.Allocator.sample 0 {}).1
    samples := [(Simulated.Scheduler.sample 0 {}).1] }

/-- Nobody does anything while a line is carried out. -/
def nobody : Meanwhile := { relay := { stopsWhenDrained := false } }

structure Talk where
  device : Device
  console : Console := {}

/-- Take events in turn until the input is closed. Each line is carried out, and answered with a new
prompt at the end. -/
def Talk.run (shell : Shell) : List Input.Event → Talk → Except Halt Talk
  | [], talk | .closed :: _, talk => .ok talk
  | .line line :: later, talk => do
    let done ← shell.execute line nobody talk.device talk.console
    Talk.run shell later { device := done.device, console := shell.prompt done.console }

structure Outcome where
  exit : UInt32
  output : Bytes
  errors : String
  deriving DecidableEq, Repr

/-- Run on a configuration. The whole input is there from the start, so the reader has been through
it before the first line is carried out, and nothing is left to interrupt a command. -/
def converse (config : Config) (input : Bytes) : Except Halt Outcome := do
  let shell : Shell := { config := config }
  let device := simulatedDevice config
  let reader := ({ typing := { shared := device.shared } } : Input.Reader Input.Channel).run
    ((Input.Read.atOnce input).map .read)
  let talk ← Talk.run shell (Input.Mailbox.contents reader.channel)
    { device := { device with shared := reader.typing.shared }, console := shell.prompt {} }
  return { exit := 0, output := talk.console.output, errors := "" }

/-- Run on what was loaded. A program that cannot load its configuration prints nothing but the
report. -/
def start (config : Except StartFault Config) (input : Bytes) : Except Halt Outcome :=
  match config with
  | .error fault => .ok { exit := 1, output := [], errors := fault.report }
  | .ok config => converse config input

/-- Run with arguments in a folder. The first argument names the configuration file. -/
def run (folder : Folder) (args : List String) (input : Bytes) : Except Halt Outcome :=
  match args with
  | [] => converse {} input
  | path :: _ => start (configOfFile path (folder.read path)) input

end DeviceShell.Program
