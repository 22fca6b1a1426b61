import DeviceShell.Failure
import DeviceShell.Text.Fit

/-! The shell's configuration, and what makes one usable. -/

namespace DeviceShell

def usualPrompt : Text.Bounded 16 := ⟨">: ", by decide⟩

def noAddress : Text.Bounded 96 := ⟨"", by decide⟩

structure Config where
  /-- Longest wait of one read of the relay, in milliseconds. -/
  relayTimeout : UInt32 := 50
  /-- Bytes that the relay shows at a time. -/
  relayChunk : UInt64 := 64
  /-- Milliseconds between two frames of the monitor, if its user names none. -/
  topInterval : UInt32 := 1000
  helpColumns : UInt64 := 3
  helpWidth : UInt64 := 30
  /-- The input byte that cancels a running command. -/
  interruptByte : UInt8 := 3
  prompt : Text.Bounded 16 := usualPrompt
  sourceUrl : Text.Bounded 96 := noAddress

namespace Config

/-- A configuration that would stall or break the session, by what is wrong with it. -/
inductive Flaw where
  | noTimeout
  | noChunk
  | noColumns
  | noWidth
  | lineEndInterrupts
  deriving DecidableEq, Repr

def Flaw.text : Flaw → String
  | .noTimeout => "relay_read_timeout_ms must be > 0"
  | .noChunk => "relay_chunk_size must be > 0"
  | .noColumns => "help_columns must be > 0"
  | .noWidth => "help_column_width must be > 0"
  | .lineEndInterrupts => "interrupt_byte must not be a line terminator"

def flaw? (c : Config) : Option Flaw :=
  if c.relayTimeout = 0 then some .noTimeout
  else if c.relayChunk = 0 then some .noChunk
  else if c.helpColumns = 0 then some .noColumns
  else if c.helpWidth = 0 then some .noWidth
  else if c.interruptByte = 0x0D ∨ c.interruptByte = 0x0A then some .lineEndInterrupts
  else none

def validate (c : Config) : Except Failure Config :=
  match c.flaw? with
  | some flaw => .error (.config flaw.text)
  | none => .ok c

end Config

end DeviceShell
