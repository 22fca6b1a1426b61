/-! Cancelling a running command. A token carries a flag that is raised at most once; the latch
passes the interrupt byte on to the token that is armed. -/

namespace DeviceShell

/-- A handle on a flag. Copies of a token share its flag. -/
structure Token where
  flag : Nat
  deriving DecidableEq, Repr

/-- The interrupt byte, every flag made so far, and the token of the command that runs. -/
structure Interrupts where
  byte : UInt8
  flags : List Bool := []
  armed : Option Token := none
  deriving DecidableEq, Repr

namespace Interrupts

def newToken (i : Interrupts) : Token × Interrupts :=
  (⟨i.flags.length⟩, { i with flags := i.flags ++ [false] })

def cancel (token : Token) (i : Interrupts) : Interrupts :=
  { i with flags := i.flags.set token.flag true }

def isCancelled (token : Token) (i : Interrupts) : Bool := i.flags.getD token.flag false

/-- Make a token for the next command and route interrupts to it. -/
def arm (i : Interrupts) : Token × Interrupts :=
  let (token, i) := i.newToken
  (token, { i with armed := some token })

def disarm (i : Interrupts) : Interrupts := { i with armed := none }

def isArmed (i : Interrupts) : Bool := i.armed.isSome

/-- Cancel the armed token; an interrupt that finds none is lost. -/
def raise (i : Interrupts) : Interrupts :=
  match i.armed with
  | some token => i.cancel token
  | none => i

/-- Take an input byte, and say whether it was the interrupt byte, which is not input. -/
def take (byte : UInt8) (i : Interrupts) : Bool × Interrupts :=
  if byte = i.byte then (true, i.raise) else (false, i)

theorem isCancelled_cancel_of_isCancelled {a b : Token} {i : Interrupts}
    (h : i.isCancelled a = true) : (i.cancel b).isCancelled a = true := by
  simp only [isCancelled, cancel, List.getD_eq_getElem?_getD] at h ⊢
  by_cases same : b.flag = a.flag <;> by_cases inside : a.flag < i.flags.length <;>
    simp_all

end Interrupts

end DeviceShell
