import DeviceShell.History
import DeviceShell.Text.Bytes

/-! The session's output stream as a value: the segments pushed to the terminal so far, and what
has been written since. -/

namespace DeviceShell

/-- Flushed segments, and the bytes not flushed yet. -/
structure Console where
  flushed : History Bytes := {}
  tail : Bytes := []
  deriving DecidableEq, Repr

namespace Console

def writeBytes (bytes : Bytes) (c : Console) : Console := { c with tail := c.tail ++ bytes }

def write (text : String) (c : Console) : Console := c.writeBytes (Text.encode text)

/-- Push what has been written to the terminal. -/
def flush (c : Console) : Console := { flushed := c.flushed.push c.tail }

/-- Everything written, flushed or not. -/
def output (c : Console) : Bytes := c.flushed.toList.flatten ++ c.tail

@[simp] theorem output_writeBytes (bytes : Bytes) (c : Console) :
    (c.writeBytes bytes).output = c.output ++ bytes := by
  simp [output, writeBytes]

@[simp] theorem output_flush (c : Console) : c.flush.output = c.output := by
  simp [output, flush]

end Console

end DeviceShell
