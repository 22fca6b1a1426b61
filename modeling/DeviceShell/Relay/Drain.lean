import DeviceShell.Relay.Client
import DeviceShell.Relay.Ring
import DeviceShell.Relay.Script
import DeviceShell.Terminal.Console

/-! The loop of a relay session: records arrive in the ring, the loop carries them to the console
in chunks, until the session's token is cancelled. -/

namespace DeviceShell.Relay

def ringSize : Nat := 2048

/-- No read takes more bytes than this. -/
def maxChunk : Nat := 256

def chunkSize (asked : Nat) : Nat := max 1 (min asked maxChunk)

theorem chunkSize_pos (asked : Nat) : 0 < chunkSize asked := by
  unfold chunkSize
  omega

/-- A record that has arrived: how many bytes were queued then, and how many of its own bytes were
accepted. -/
structure Intake where
  record : String
  queued : Nat
  accepted : Nat
  deriving DecidableEq, Repr

/-- The part of the record that was accepted. -/
def Intake.part (i : Intake) : Bytes := (Text.encode i.record).take i.accepted

/-- The ring of a session, and the records that have arrived at it. -/
structure Inbox (π : Type) [Pipe π] where
  ring : Ring π := {}
  intakes : History Intake := {}

/-- Queue a record as far as it fits. -/
def Inbox.accept {π : Type} [Pipe π] (inbox : Inbox π) (record : String) : Inbox π :=
  let (accepted, ring) := inbox.ring.write (Text.encode record)
  { ring := ring, intakes := inbox.intakes.push ⟨record, inbox.ring.pending, accepted⟩ }

/-- A session in its loop. Its inbox takes what the hub delivers to `sink`, and `outside` is what
the others have done since the session listens. -/
structure Drain (π : Type) [Pipe π] extends Client, Inbox π where
  sink : Log.SinkId
  token : Token
  chunk : Nat
  script : Script
  console : Console
  reads : UInt32 := 0
  relayed : UInt64 := 0
  outside : History Action := {}

namespace Drain

variable {π : Type} [Pipe π]

/-- Another party acts; what that delivers to the session's sink is queued as far as it fits. -/
def act (d : Drain π) (action : Action) : Drain π :=
  let arriving := (d.shared.deliveries action).filter fun delivery => delivery.sink = d.sink
  { d with
    toInbox := arriving.foldl (fun inbox delivery => inbox.accept delivery.record) d.toInbox
    shared := d.shared.act action
    outside := d.outside.push action }

def actAll (d : Drain π) (actions : List Action) : Drain π := actions.foldl act d

/-- Interrupt the session if nothing is queued and the script says so. -/
def settle (heldOpen : Bool) (d : Drain π) : Drain π :=
  if d.script.stopsWhenDrained && !heldOpen && d.ring.pending = 0 then d.act .raise else d

def visit (moment : Moment) (d : Drain π) : Drain π :=
  (d.actAll moment.actions).settle moment.heldOpen

def flush (d : Drain π) : Drain π :=
  match d.script.flushes with
  | [] => { d with console := d.console.flush }.visit {}
  | moment :: later =>
    { d with
      console := d.console.flush
      script := { d.script with flushes := later } }.visit moment

def display (bytes : Bytes) (d : Drain π) : Drain π :=
  if bytes.isEmpty then d
  else
    { d with
      console := d.console.writeBytes bytes
      relayed := d.relayed + UInt64.ofNat bytes.length }.flush

def receive (d : Drain π) : Drain π :=
  { d with
    ring := (d.ring.read (chunkSize d.chunk)).2
    reads := d.reads + 1 }.display (d.ring.read (chunkSize d.chunk)).1

/-- One read. If nothing is queued it lets the others in first, and there is none when they have
nothing left to do: that read and all later ones would find nothing. -/
def step (d : Drain π) : Option (Drain π) :=
  if d.ring.pending = 0 then
    match d.script.waits with
    | [] => none
    | actions :: later =>
      some ({ d with script := { d.script with waits := later } }.actAll actions).receive
  else some d.receive

def isCancelled (d : Drain π) : Bool := d.shared.interrupts.isCancelled d.token

@[simp] theorem script_actAll (d : Drain π) (actions : List Action) :
    (d.actAll actions).script = d.script := by
  induction actions generalizing d with
  | nil => rfl
  | cons a as ih => exact (ih (d.act a)).trans rfl

@[simp] theorem script_settle (heldOpen : Bool) (d : Drain π) :
    (d.settle heldOpen).script = d.script := by
  unfold settle
  split <;> rfl

@[simp] theorem ring_settle (heldOpen : Bool) (d : Drain π) :
    (d.settle heldOpen).ring = d.ring := by
  unfold settle
  split <;> rfl

/-- A flush uses up a moment, or else leaves the ring alone. -/
theorem flush_progress (d : Drain π) :
    d.flush.script.size < d.script.size ∨
      d.flush.script.size = d.script.size ∧ d.flush.ring = d.ring := by
  unfold flush
  split
  · right
    simp [visit, actAll]
  · rename_i moment later h
    left
    simp [visit, Script.size, h]

theorem display_progress (bytes : Bytes) (d : Drain π) :
    (d.display bytes).script.size < d.script.size ∨
      (d.display bytes).script.size = d.script.size ∧ (d.display bytes).ring = d.ring := by
  unfold display
  split
  · exact .inr ⟨rfl, rfl⟩
  · exact flush_progress _

/-- A read uses up a moment, or else leaves less in a ring that holds something. -/
theorem receive_progress [Pipe.Lawful π ringSize] (d : Drain π) :
    d.receive.script.size < d.script.size ∨
      d.receive.script.size = d.script.size ∧
        (d.ring.pending ≠ 0 → d.receive.ring.pending < d.ring.pending) := by
  have balance := d.ring.pending_read (chunkSize d.chunk)
  have length := d.ring.length_read (chunkSize d.chunk)
  have room := chunkSize_pos d.chunk
  rcases display_progress (d.ring.read (chunkSize d.chunk)).1 { d with
    ring := (d.ring.read (chunkSize d.chunk)).2, reads := d.reads + 1 } with h | ⟨h, same⟩
  · exact .inl h
  · refine .inr ⟨h, fun full => ?_⟩
    unfold receive
    rw [same]
    dsimp only
    omega

/-- Each read uses up a moment or a wait, or else leaves less in the ring. -/
theorem step_progress [Pipe.Lawful π ringSize] {d e : Drain π} (h : d.step = some e) :
    e.script.size < d.script.size ∨
      e.script.size = d.script.size ∧ e.ring.pending < d.ring.pending := by
  unfold step at h
  split at h
  · split at h
    · contradiction
    · rename_i actions later waits
      cases h
      left
      rcases receive_progress
        (({ d with script := { d.script with waits := later } } : Drain π).actAll actions)
        with h | ⟨h, _⟩
      all_goals
        simp only [script_actAll, Script.size, waits, List.length_cons] at h ⊢
        omega
  · rename_i full
    cases h
    rcases d.receive_progress with h | ⟨h, h'⟩
    · exact .inl h
    · exact .inr ⟨h, h' full⟩

/-- Read and show until the session is cancelled; none if that never happens. -/
def run [Pipe.Lawful π ringSize] (d : Drain π) : Option (Drain π) :=
  if d.isCancelled then some d
  else
    match _h : d.step with
    | none => none
    | some e => e.run
termination_by (d.script.size, d.ring.pending)
decreasing_by
  rcases step_progress _h with h | ⟨h, h'⟩
  · exact Prod.Lex.left _ _ h
  · rw [h]
    exact Prod.Lex.right _ h'

end Drain

end DeviceShell.Relay
