import DeviceShell.Monitor.Interval
import DeviceShell.Terminal.Console
import DeviceShell.Terminal.Escape

/-! Drawing a changing subject again and again in place, until told to stop. -/

namespace DeviceShell.Monitor

/-- Something to look at. Looking may change it, hence the second component. -/
structure View (σ : Type) where
  frame : σ → String × σ
  isCancelled : σ → Bool

/-- What a finished redraw did, and what it leaves. -/
structure Drawn (σ : Type) where
  frames : UInt32 := 0
  cancelled : Bool := false
  pauses : History UInt32 := {}
  subject : σ
  console : Console

namespace Drawn

variable {σ : Type}

/-- Look once more, and draw what is seen after the cursor has been put in place. -/
def draw (view : View σ) (lead : String) (d : Drawn σ) : Drawn σ :=
  { d with
    frames := d.frames + 1
    subject := (view.frame d.subject).2
    console := ((d.console.write lead).write (view.frame d.subject).1).flush }

def pause (interval : UInt32) (change : σ → σ) (d : Drawn σ) : Drawn σ :=
  { d with pauses := d.pauses.push interval, subject := change d.subject }

/-- Draw and pause until cancelled. The changes are those during the pauses, in turn; there is no
end to a redraw that is never cancelled. -/
def every (view : View σ) (interval : UInt32) : List (σ → σ) → Drawn σ → Except Halt (Drawn σ)
  | changes, d =>
    if view.isCancelled d.subject then .ok { d with cancelled := true }
    else
      match changes with
      | [] => .error .endless
      | change :: later =>
        every view interval later ((d.draw view Escape.cursorOrigin).pause interval change)

end Drawn

/-- Show a view in a mode. A redraw empties the screen first, hides the cursor while it runs, and
shows it again at the end. One frame is drawn where the cursor is, cancelled or not. -/
def redraw {σ : Type} (view : View σ) (mode : Mode) (changes : List (σ → σ)) (subject : σ)
    (console : Console) : Except Halt (Drawn σ) :=
  match mode with
  | .once => .ok (({ subject := subject, console := console } : Drawn σ).draw view "")
  | .every interval =>
    let console := (console.write Escape.clearScreen).write Escape.hideCursor
    (Drawn.every view interval changes { subject := subject, console := console }).map fun d =>
      { d with console := (d.console.write Escape.showCursor).flush }

end DeviceShell.Monitor
