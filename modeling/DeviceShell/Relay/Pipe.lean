import DeviceShell.Text.Bytes

/-! What the relay asks of the pipe that keeps its bytes: calls that move what they can in one
piece, which may be less than there is to move. -/

namespace DeviceShell.Relay

/-- A byte pipe. `contents` are the bytes in it, oldest first; a write says how many bytes it took,
and a read hands bytes out. -/
class Pipe (π : Type) where
  empty : π
  contents : π → Bytes
  pending : π → Nat
  tryWrite : Bytes → π → Nat × π
  tryRead : Nat → π → Bytes × π

/-- A pipe that holds at most `capacity` bytes and keeps their order. A write takes bytes off the
front of what it is given, at least one of them unless the pipe is full, and a read hands out the
oldest bytes, at least one of them unless the pipe is empty. -/
class Pipe.Lawful (π : Type) (capacity : outParam Nat) [Pipe π] : Prop where
  contents_empty : contents (Pipe.empty : π) = []
  pending_eq (p : π) : pending p = (contents p).length
  length_contents_le (p : π) : (contents p).length ≤ capacity
  tryWrite_le (bytes : Bytes) (p : π) : (tryWrite bytes p).1 ≤ bytes.length
  tryWrite_pos (bytes : Bytes) (p : π) :
    bytes ≠ [] → (contents p).length < capacity → 0 < (tryWrite bytes p).1
  contents_tryWrite (bytes : Bytes) (p : π) :
    contents (tryWrite bytes p).2 = contents p ++ bytes.take (tryWrite bytes p).1
  length_tryRead_le (room : Nat) (p : π) : (tryRead room p).1.length ≤ room
  tryRead_ne_nil (room : Nat) (p : π) : room ≠ 0 → contents p ≠ [] → (tryRead room p).1 ≠ []
  contents_tryRead (room : Nat) (p : π) :
    (tryRead room p).1 ++ contents (tryRead room p).2 = contents p

end DeviceShell.Relay
