/-! What the reader and the session ask of the queue between them. -/

namespace DeviceShell.Input

inductive Event where
  | line (text : String)
  | closed
  deriving DecidableEq, Repr

/-- A queue of events. `queue` are those not taken yet, oldest first, and `waiting` is the event of
a sender that waits for room. -/
class Mailbox (χ : Type) where
  empty : χ
  queue : χ → List Event
  waiting : χ → Option Event
  trySend : Event → χ → Bool × χ
  send : Event → χ → χ
  receive : χ → Option Event × χ

/-- A queue with a number of places that keeps the order of its events. What is tried gets a place
at once or is turned away. What is sent waits for a place, and takes it when the oldest event is
taken. -/
class Mailbox.Lawful (χ : Type) (depth : outParam Nat) [Mailbox χ] : Prop where
  queue_empty : queue (Mailbox.empty : χ) = []
  waiting_empty : waiting (Mailbox.empty : χ) = none
  trySend_fst (event : Event) (c : χ) :
    (trySend event c).1 = decide ((queue c).length < depth)
  queue_trySend (event : Event) (c : χ) :
    (queue c).length < depth → queue (trySend event c).2 = queue c ++ [event]
  waiting_trySend (event : Event) (c : χ) :
    (queue c).length < depth → waiting (trySend event c).2 = waiting c
  queue_send (event : Event) (c : χ) :
    queue (send event c) = if (queue c).length < depth then queue c ++ [event] else queue c
  waiting_send (event : Event) (c : χ) : waiting c = none →
    waiting (send event c) = if (queue c).length < depth then none else some event
  receive_nil (c : χ) : queue c = [] → receive c = (none, c)
  receive_cons (event : Event) (later : List Event) (c : χ) :
    queue c = event :: later → (receive c).1 = some event
  queue_receive (event : Event) (later : List Event) (c : χ) :
    queue c = event :: later → queue (receive c).2 = later ++ (waiting c).toList
  waiting_receive (event : Event) (later : List Event) (c : χ) :
    queue c = event :: later → waiting (receive c).2 = none

namespace Mailbox

/-- Places of the queue between the reader and the session. -/
def depth : Nat := 4

variable {χ : Type} [Mailbox χ]

def receiveMany : Nat → χ → List (Option Event) × χ
  | 0, c => ([], c)
  | count + 1, c =>
    let (event, c) := receive c
    let (events, c) := receiveMany count c
    (event :: events, c)

/-- Everything there is to take. -/
def contents (c : χ) : List Event := queue c ++ (waiting c).toList

end Mailbox

end DeviceShell.Input
