import DeviceShell.Input.Editor
import DeviceShell.Shared

/-! Input bytes on their way: the interrupt byte goes to the running command, the rest to the line
editor. -/

namespace DeviceShell.Input

structure Typing where
  shared : Shared
  editor : Editor := {}
  deriving DecidableEq, Repr

namespace Typing

/-- Take one input byte. The interrupt byte discards the unfinished line; a garbled line is noted
in the log and delivered to nobody. -/
def feed (byte : UInt8) (t : Typing) : Option String × Typing :=
  match t.shared.interrupts.take byte with
  | (true, interrupts) =>
    (none, { shared := { t.shared with interrupts := interrupts }, editor := t.editor.discard })
  | (false, _) =>
    match t.editor.feed byte with
    | (none, editor) => (none, { t with editor := editor })
    | (some (.text line), editor) => (some line, { t with editor := editor })
    | (some .garbled, editor) =>
      (none, { shared := t.shared.announce .lineNotText, editor := editor })

def feedAll : Bytes → Typing → List String × Typing
  | [], t => ([], t)
  | b :: bs, t =>
    match t.feed b with
    | (none, t) => feedAll bs t
    | (some line, t) =>
      let (lines, t) := feedAll bs t
      (line :: lines, t)

end Typing

end DeviceShell.Input
