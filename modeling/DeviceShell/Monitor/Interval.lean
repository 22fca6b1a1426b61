import DeviceShell.Failure
import DeviceShell.Text.Blank
import DeviceShell.Text.Numeral

/-! How often the thread monitor redraws. -/

namespace DeviceShell.Monitor

/-- Show one frame, or redraw after every so many milliseconds. -/
inductive Mode where
  | once
  | every (interval : UInt32)
  deriving DecidableEq, Repr

def Mode.ofInterval (interval : UInt32) : Mode := if interval = 0 then .once else .every interval

def Mode.redraws : Mode → Bool
  | .once => false
  | .every _ => true

def intervalError (misuse : Misuse) : Failure := .usage ⟨"top", "[interval_ms]", misuse⟩

/-- The mode that an argument asks for; without one the default interval decides. A number outside
64 bits is not taken for a number, one outside 32 bits is out of range. -/
def Mode.ofArgs (args : String) (preset : UInt32) : Except Failure Mode :=
  let text := Text.trim args
  if text.isEmpty then .ok (ofInterval preset)
  else
    match Text.signed64? text.toList with
    | none => .error (intervalError .invalid)
    | some value =>
      if 0 ≤ value ∧ value < UInt32.size then .ok (ofInterval (UInt32.ofNat value.toNat))
      else .error (intervalError .outOfRange)

end DeviceShell.Monitor
