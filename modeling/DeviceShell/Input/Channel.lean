import DeviceShell.Input.Mailbox

/-! The bounded channel, a queue as a list. -/

namespace DeviceShell.Input

structure Channel where
  queue : List Event := []
  waiting : Option Event := none
  deriving DecidableEq, Repr

namespace Channel

def trySend (event : Event) (c : Channel) : Bool × Channel :=
  if c.queue.length < Mailbox.depth then (true, { c with queue := c.queue ++ [event] })
  else (false, c)

/-- Queue an event, waiting for room if there is none. -/
def send (event : Event) (c : Channel) : Channel :=
  if c.queue.length < Mailbox.depth then { c with queue := c.queue ++ [event] }
  else { c with waiting := some event }

/-- Take the oldest event, which makes room for a sender that waits. -/
def receive (c : Channel) : Option Event × Channel :=
  match c.queue with
  | [] => (none, c)
  | event :: later => (some event, { queue := later ++ c.waiting.toList, waiting := none })

instance : Mailbox Channel where
  empty := {}
  queue := queue
  waiting := waiting
  trySend := trySend
  send := send
  receive := receive

instance : Mailbox.Lawful Channel Mailbox.depth where
  queue_empty := rfl
  waiting_empty := rfl
  trySend_fst event c := by
    by_cases room : c.queue.length < Mailbox.depth <;>
      simp [Mailbox.trySend, Mailbox.queue, trySend, room]
  queue_trySend event c room := congrArg (queue ∘ Prod.snd) (if_pos room)
  waiting_trySend event c room := congrArg (waiting ∘ Prod.snd) (if_pos room)
  queue_send event c := by
    by_cases room : c.queue.length < Mailbox.depth <;>
      simp [Mailbox.send, Mailbox.queue, send, room]
  waiting_send event c ready := by
    change c.waiting = none at ready
    by_cases room : c.queue.length < Mailbox.depth <;>
      simp [Mailbox.send, Mailbox.queue, Mailbox.waiting, send, room, ready]
  receive_nil c none := by
    change c.queue = [] at none
    simp only [Mailbox.receive, receive, none]
  receive_cons event later c queued := by
    change c.queue = event :: later at queued
    simp only [Mailbox.receive, receive, queued]
  queue_receive event later c queued := by
    change c.queue = event :: later at queued
    simp only [Mailbox.receive, Mailbox.queue, Mailbox.waiting, receive, queued]
  waiting_receive event later c queued := by
    change c.queue = event :: later at queued
    simp only [Mailbox.receive, Mailbox.waiting, receive, queued]

end Channel

end DeviceShell.Input
