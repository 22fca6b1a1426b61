import DeviceShell.Input.Mailbox
import DeviceShell.Input.Typing

/-! The input reader: it reads the input stream to its end, cancels the running command there, and
queues the lines for the session. -/

namespace DeviceShell.Input

/-- What a read gives. The end of the input, which is a read without data, is none of these: it is
where the turns end. -/
inductive Read where
  | data (bytes : Bytes) (given : bytes ≠ [] := by decide)
  | wouldBlock
  | interrupted
  | failed (reason : String)
  deriving DecidableEq, Repr

/-- The reads of an input that is all there from the start. -/
def Read.atOnce (bytes : Bytes) : List Read :=
  if given : bytes ≠ [] then [.data bytes given] else []

/-- A read, or the session taking events while the reader waits for its next read. -/
inductive Turn where
  | read (result : Read)
  | take (count : Nat)
  deriving DecidableEq, Repr

/-- Milliseconds between two looks at an input that has nothing to offer. -/
def pollInterval : UInt32 := 10

/-- The reader, its channel, what the session took, and the pauses the reader made. -/
structure Reader (χ : Type) [Mailbox χ] where
  typing : Typing
  channel : χ := Mailbox.empty
  taken : History (Option Event) := {}
  pauses : History UInt32 := {}

namespace Reader

variable {χ : Type} [Mailbox χ]

/-- Queue a line. It is dropped, with a warning, if there is no room: the reader has to stay free
for the next interrupt byte. -/
def deliver (line : String) (r : Reader χ) : Reader χ :=
  match Mailbox.trySend (.line line) r.channel with
  | (true, channel) => { r with channel := channel }
  | (false, _) =>
    { r with typing := { r.typing with shared := r.typing.shared.announce .queueFull } }

def feed (r : Reader χ) (byte : UInt8) : Reader χ :=
  match r.typing.feed byte with
  | (some line, typing) => { r with typing := typing }.deliver line
  | (none, typing) => { r with typing := typing }

def interrupt (r : Reader χ) : Reader χ :=
  { r with typing := { r.typing with shared := r.typing.shared.raise } }

def hangUp (r : Reader χ) : Reader χ := { r with channel := Mailbox.send .closed r.channel }

/-- The input is over: cancel the running command, then tell the session. -/
def close (r : Reader χ) : Reader χ := r.interrupt.hangUp

def lament (reason : String) (r : Reader χ) : Reader χ :=
  { r with typing := { r.typing with shared := r.typing.shared.announce (.inputFailed reason) } }

def pause (r : Reader χ) : Reader χ := { r with pauses := r.pauses.push pollInterval }

def yieldEvents (count : Nat) (r : Reader χ) : Reader χ :=
  let (events, channel) := Mailbox.receiveMany count r.channel
  { r with channel := channel, taken := r.taken.append events }

/-- Everything until the input is over. Nothing after a failed read is looked at. -/
def run (r : Reader χ) : List Turn → Reader χ
  | [] => r.close
  | .take count :: later => (r.yieldEvents count).run later
  | .read (.data bytes _) :: later => (bytes.foldl feed r).run later
  | .read .wouldBlock :: later => r.pause.run later
  | .read .interrupted :: later => r.run later
  | .read (.failed reason) :: _ => (r.lament reason).close

end Reader

end DeviceShell.Input
