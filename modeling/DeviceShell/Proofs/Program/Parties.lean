import DeviceShell.Proofs.Input.Lines
import DeviceShell.Proofs.Shell.Looping
import Mathlib.Logic.Relation

/-! The program as two parties, the reader of the input and the session, whose steps come in any
order. Other tasks use the log in between. -/
namespace DeviceShell.Program

open Input (Mailbox)

/-- How far the reader is: some bytes of its last read are left, and reads are still to come; or the
input is over; or it has also cancelled the running command; or it has also told the session. -/
inductive Reading where
  | feeding (bytes : Bytes) (later : List Input.Read)
  | over
  | cancelled
  | told

/-- How far the session is. -/
inductive Serving where
  | idle
  | holding (line : String)
  | running (entry : Command.Entry) (args : String) (token : Token)
  | left

/-- Both parties. What the session shares with the reader is with the reader; `rest` is out of date
there. -/
structure Parties (χ : Type) [Mailbox χ] where
  reading : Reading
  reader : Input.Reader χ
  serving : Serving := .idle
  rest : Device
  console : Console

namespace Parties

variable {χ : Type} [Mailbox χ]

/-- The device as the session finds it. -/
def device (s : Parties χ) : Device := { s.rest with shared := s.reader.typing.shared }

/-- The session, or another task, changes what it shares with the reader. -/
def share (shared : Shared) (s : Parties χ) : Parties χ :=
  { s with reader := { s.reader with typing := { s.reader.typing with shared := shared } } }

/-- The session has changed the device and the console, and goes on. -/
def serve (serving : Serving) (device : Device) (console : Console) (s : Parties χ) : Parties χ :=
  { s.share device.shared with serving := serving, rest := device, console := console }

/-- The session has taken an event. -/
def receive (serving : Serving) (channel : χ) (s : Parties χ) : Parties χ :=
  { s with serving := serving, reader := { s.reader with channel := channel } }

/-- A step of the reader. -/
inductive Reads : Parties χ → Parties χ → Prop
  | byte {s : Parties χ} {b : UInt8} {bytes : Bytes} {later : List Input.Read} :
      s.reading = .feeding (b :: bytes) later →
      Reads s { s with reading := .feeding bytes later, reader := s.reader.feed b }
  | data {s : Parties χ} {bytes : Bytes} {later : List Input.Read} {given : bytes ≠ []} :
      s.reading = .feeding [] (.data bytes given :: later) →
      Reads s { s with reading := .feeding bytes later }
  | wouldBlock {s : Parties χ} {later : List Input.Read} :
      s.reading = .feeding [] (.wouldBlock :: later) →
      Reads s { s with reading := .feeding [] later, reader := s.reader.pause }
  | interrupted {s : Parties χ} {later : List Input.Read} :
      s.reading = .feeding [] (.interrupted :: later) →
      Reads s { s with reading := .feeding [] later }
  | failed {s : Parties χ} {reason : String} {later : List Input.Read} :
      s.reading = .feeding [] (.failed reason :: later) →
      Reads s { s with reading := .over, reader := s.reader.lament reason }
  | finish {s : Parties χ} :
      s.reading = .feeding [] [] → Reads s { s with reading := .over }
  | cancel {s : Parties χ} :
      s.reading = .over → Reads s { s with reading := .cancelled, reader := s.reader.interrupt }
  | hangUp {s : Parties χ} :
      s.reading = .cancelled → Reads s { s with reading := .told, reader := s.reader.hangUp }

/-- A step of the session. A command has its effect in one step, at its end, and it comes to an end
as soon as nobody has to do anything for it. -/
inductive Serves (shell : Shell) : Parties χ → Parties χ → Prop
  | take {s : Parties χ} {line : String} {channel : χ} :
      s.serving = .idle → Mailbox.receive s.reader.channel = (some (.line line), channel) →
      Serves shell s (s.receive (.holding line) channel)
  | leave {s : Parties χ} {channel : χ} :
      s.serving = .idle → Mailbox.receive s.reader.channel = (some .closed, channel) →
      Serves shell s (s.receive .left channel)
  | answer {s : Parties χ} {line : String} {done : Execution} :
      s.serving = .holding line → shell.starting line s.device = none →
      shell.execute line nobody s.device s.console = .ok done →
      Serves shell s (s.serve .idle done.device (shell.prompt done.console))
  | launch {s : Parties χ} {line : String} {entry : Command.Entry} {args : String} :
      s.serving = .holding line → shell.starting line s.device = some (entry, args) →
      Serves shell s (s.serve (.running entry args (Shell.armed entry s.device).1)
        (Shell.armed entry s.device).2 (s.console.write "\r\n"))
  | conclude {s : Parties χ} {entry : Command.Entry} {args : String} {token : Token}
      {effect : Effect} :
      s.serving = .running entry args token →
      shell.perform entry.task args nobody token s.device s.console = .ok effect →
      Serves shell s (s.serve .idle (Shell.conclude entry args effect).device
        (shell.prompt (Shell.conclude entry args effect).console))

/-- What any task may do: use the log. -/
def Logs : Action → Prop
  | .emit _ | .setLevel _ | .setClock _ => True
  | .raise | .input _ => False

/-- A step of the program. -/
inductive Step (shell : Shell) : Parties χ → Parties χ → Prop
  | reads {s t : Parties χ} : Reads s t → Step shell s t
  | serves {s t : Parties χ} : Serves shell s t → Step shell s t
  | logs {s : Parties χ} {action : Action} : Logs action →
      Step shell s (s.share (s.reader.typing.shared.act action))

/-- Any number of steps. -/
abbrev Steps (shell : Shell) : Parties χ → Parties χ → Prop := Relation.ReflTransGen (Step shell)

/-- The start, on a device that has been given a shell and an input. -/
def start (χ : Type) [Mailbox χ] (shell : Shell) (device : Device) (input : List Input.Read) :
    Parties χ where
  reading := .feeding [] input
  reader := { typing := { shared := device.shared } }
  rest := device
  console := shell.prompt {}

/-- The reader is through, and the session has a command that goes on until its token is raised. -/
structure Stranded (shell : Shell) (s : Parties χ) : Prop where
  told : s.reading = .told
  sent : Mailbox.waiting s.reader.channel = none
  runs : ∃ entry args token, s.serving = .running entry args token ∧
    shell.Lasts entry.task args s.device ∧ s.device.isCancelled token = false

variable {shell : Shell} {s t : Parties χ}

/-- The lines that the input has yet to complete. -/
def coming (s : Parties χ) : List String :=
  match s.reading with
  | .feeding bytes later => s.reader.typing.lines (bytes ++ Input.bytesOf later)
  | _ => []

theorem coming_of_feeding {bytes : Bytes} {later : List Input.Read}
    (feeding : s.reading = .feeding bytes later) :
    s.coming = s.reader.typing.lines (bytes ++ Input.bytesOf later) := by
  rw [coming, feeding]

theorem coming_congr (reading : t.reading = s.reading)
    (alike : s.reader.typing.Alike t.reader.typing) : t.coming = s.coming := by
  unfold coming
  rw [reading]
  split
  · exact Input.Typing.lines_congr alike _
  · rfl

section Alike

theorem Reads.alike (step : Reads s t) : s.device.Alike t.device := by
  cases step with
  | byte => exact ⟨(s.reader.alike_feed _).2, rfl⟩
  | cancel => exact ⟨⟨rfl, Shared.byte_raise _⟩, rfl⟩
  | failed => exact ⟨⟨rfl, rfl⟩, rfl⟩
  | data => exact .refl _
  | wouldBlock => exact .refl _
  | interrupted => exact .refl _
  | finish => exact .refl _
  | hangUp => exact .refl _

theorem Serves.alike (step : Serves shell s t) : s.device.Alike t.device := by
  cases step with
  | take => exact .refl _
  | leave => exact .refl _
  | answer holding idle executed => exact (Shell.execute_ok executed).2
  | launch => exact Shell.alike_armed _ _
  | @conclude entry args _ effect running performed =>
    exact (Shell.perform_ok performed).2.trans (Shell.alike_conclude entry args effect)

theorem Step.alike (step : Step shell s t) : s.device.Alike t.device := by
  cases step with
  | reads step => exact step.alike
  | serves step => exact step.alike
  | logs uses => exact ⟨Shared.alike_act _ _, rfl⟩

theorem Steps.alike (steps : Steps shell s t) : s.device.Alike t.device := by
  induction steps with
  | refl => exact .refl _
  | tail _ step ih => exact ih.trans step.alike

end Alike

end Parties

end DeviceShell.Program
