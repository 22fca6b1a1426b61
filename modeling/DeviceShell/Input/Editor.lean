import DeviceShell.Text.Bytes

/-! The line editor: bytes typed at the console become lines. -/

namespace DeviceShell.Input

/-- Bytes that a line can hold; more are ignored. -/
def lineCapacity : Nat := 128

structure Editor where
  pending : Bytes := []
  deriving DecidableEq, Repr

/-- What an input byte does to the unfinished line. -/
inductive Key where
  | finish
  | erase
  | insert (byte : UInt8)
  | ignored
  deriving DecidableEq, Repr

/-- Bytes of printable characters are inserted, and a tab as a space. Backspace and delete erase,
a line feed finishes, and other control bytes are ignored. -/
def Key.ofByte (byte : UInt8) : Key :=
  if byte = 0x0A then .finish
  else if byte = 0x08 ∨ byte = 0x7F then .erase
  else if byte = 0x09 then .insert 0x20
  else if 0x20 ≤ byte then .insert byte
  else .ignored

inductive Line where
  | text (text : String)
  /-- The bytes were not well-formed text. -/
  | garbled
  deriving DecidableEq, Repr

def Line.ofBytes (bytes : Bytes) : Line :=
  match Text.decode? bytes with
  | some line => .text line
  | none => .garbled

namespace Editor

/-- Take a byte that is not the interrupt byte. -/
def feed (byte : UInt8) (e : Editor) : Option Line × Editor :=
  match Key.ofByte byte with
  | .finish => (some (.ofBytes e.pending), {})
  | .erase => (none, { pending := e.pending.dropLast })
  | .insert b =>
    (none, if e.pending.length < lineCapacity then { pending := e.pending ++ [b] } else e)
  | .ignored => (none, e)

def discard (_ : Editor) : Editor := {}

end Editor

end DeviceShell.Input
