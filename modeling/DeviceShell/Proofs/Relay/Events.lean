import DeviceShell.Proofs.Relay.Course

/-! What happens while a session is in its loop, in order: the reads it completes, and between them
what others do at a flush or inside a read that finds nothing queued. A session that is cancelled at
a flush is over there; inside a read, it completes that read. -/
namespace DeviceShell.Relay

/-- Where a session lets others act. -/
inductive Place where
  | flush
  | read
  deriving DecidableEq, Repr

section Events

variable {π : Type} [Pipe π]

/-- Another party acts on a session. -/
structure Beat (π : Type) [Pipe π] where
  place : Place
  before : Drain π
  action : Action

/-- The action is the one that cancels the session. -/
def Beat.Raises (b : Beat π) : Prop :=
  b.before.isCancelled = false ∧ (b.before.act b.action).isCancelled = true

inductive Event (π : Type) [Pipe π] where
  | act (beat : Beat π)
  /-- A read is over and has taken these bytes, none if it found nothing. -/
  | read (bytes : Bytes)

def Event.isRead : Event π → Bool
  | .act _ => false
  | .read _ => true

def Event.action? : Event π → Option Action
  | .act beat => some beat.action
  | .read _ => none

/-- The number of reads that events complete. -/
def readCount (events : List (Event π)) : Nat := events.countP Event.isRead

def actionsOf (events : List (Event π)) : List Action := events.filterMap Event.action?

theorem readCount_append (first second : List (Event π)) :
    readCount (first ++ second) = readCount first + readCount second :=
  List.countP_append

theorem actionsOf_append (first second : List (Event π)) :
    actionsOf (first ++ second) = actionsOf first ++ actionsOf second :=
  List.filterMap_append ..

theorem readCount_read (bytes : Bytes) (later : List (Event π)) :
    readCount (.read bytes :: later) = readCount later + 1 :=
  List.countP_cons_of_pos rfl

end Events

theorem append_split {α : Type} {front back earlier later : List α} {a : α}
    (split : front ++ back = earlier ++ a :: later) :
    (∃ rest, front = earlier ++ a :: rest ∧ later = rest ++ back) ∨
      ∃ rest, earlier = front ++ rest ∧ back = rest ++ a :: later := by
  rcases List.append_eq_append_iff.mp split with ⟨rest, first, second⟩ | ⟨rest, first, second⟩
  · exact .inr ⟨rest, first, second⟩
  · cases rest with
    | nil =>
      refine .inr ⟨[], ?_, second.symm⟩
      rw [first, List.append_nil, List.append_nil]
    | cons b rest =>
      obtain ⟨rfl, rfl⟩ := List.cons.inj second
      exact .inl ⟨rest, first, rfl⟩

namespace Drain

variable {π : Type} [Pipe π]

/-- Actions at one place, one after the other. -/
def acts (place : Place) : Drain π → List Action → List (Event π)
  | _, [] => []
  | d, action :: later => .act ⟨place, d, action⟩ :: acts place (d.act action) later

/-- At a flush: what was written has been pushed to the terminal. -/
def flushing (d : Drain π) : Drain π :=
  { d with console := d.console.flush, script := d.script.passed }

/-- What others do at a flush. Whoever waits for the session to run dry interrupts it there. -/
def flushActions (d : Drain π) : List Action :=
  let moment := d.script.flushes.headD {}
  let acted := d.flushing.actAll moment.actions
  moment.actions ++
    if acted.script.stopsWhenDrained && !moment.heldOpen && acted.ring.pending = 0 then [.raise]
    else []

/-- Inside the next read, which waits for something if nothing is queued. -/
def reading (d : Drain π) : Drain π :=
  if d.ring.pending = 0 then { d with script := { d.script with waits := d.script.waits.tail } }
  else d

def readActions (d : Drain π) : List Action :=
  if d.ring.pending = 0 then d.script.waits.headD [] else []

/-- A read whose bytes have been written, but not pushed to the terminal yet. -/
def written (d : Drain π) : Drain π :=
  { d.idled with
    console := d.console.writeBytes d.nextChunk
    relayed := d.relayed + UInt64.ofNat d.nextChunk.length }

def flushEvents (d : Drain π) : List (Event π) := acts .flush d.flushing d.flushActions

/-- The end of a read, and the flush of what it has taken. -/
def receiveEvents (d : Drain π) : List (Event π) :=
  .read d.nextChunk :: if d.nextChunk = [] then [] else d.written.flushEvents

/-- One round of the loop. -/
def stepEvents (d : Drain π) : List (Event π) :=
  acts .read d.reading d.readActions ++ (d.reading.actAll d.readActions).receiveEvents

/-- Every round that `run` takes. -/
def events [Pipe.Lawful π ringSize] (d : Drain π) : List (Event π) :=
  if d.isCancelled then []
  else
    match _h : d.step with
    | none => []
    | some e => d.stepEvents ++ e.events
termination_by (d.script.size, d.ring.pending)
decreasing_by
  rcases step_progress _h with h | ⟨h, h'⟩
  · exact Prod.Lex.left _ _ h
  · rw [h]
    exact Prod.Lex.right _ h'

variable {d e : Drain π} {place : Place} {actions : List Action} {earlier later : List (Event π)}
  {beat : Beat π}

theorem actAll_append (d : Drain π) (first second : List Action) :
    d.actAll (first ++ second) = (d.actAll first).actAll second := List.foldl_append

theorem flush_eq_actAll (d : Drain π) : d.flush = d.flushing.actAll d.flushActions := by
  have settled : d.flush = (d.flushing.actAll (d.script.flushes.headD {}).actions).settle
      (d.script.flushes.headD {}).heldOpen := flush_eq d
  rw [settled, settle, flushActions, actAll_append]
  split <;> rfl

/-- There is a next read if something is queued or somebody is still to act. -/
theorem step_of_coming (coming : d.ring.pending = 0 → d.script.waits ≠ []) :
    d.step = some (d.reading.actAll d.readActions).receive := by
  unfold step reading readActions
  split
  · rename_i dry
    split
    · rename_i nothing
      exact absurd nothing (coming dry)
    · rename_i actions later waits
      rw [waits]
      rfl
  · rfl

theorem step_eq (next : d.step = some e) : e = (d.reading.actAll d.readActions).receive := by
  have coming : d.ring.pending = 0 → d.script.waits ≠ [] := by
    intro dry nothing
    rw [step, if_pos dry, nothing] at next
    cases next
  rw [step_of_coming coming] at next
  exact (Option.some.inj next).symm

theorem receive_of_chunk (something : d.nextChunk ≠ []) : d.receive = d.written.flush := by
  rw [receive_of_ne_nil something, flush_eq]
  rfl

theorem events_of_isCancelled [Pipe.Lawful π ringSize] (cancelled : d.isCancelled = true) :
    d.events = [] := by
  rw [events, if_pos cancelled]

theorem events_of_step [Pipe.Lawful π ringSize] (running : d.isCancelled = false)
    (next : d.step = some e) :
    d.events = d.stepEvents ++ e.events := by
  rw [events, if_neg (by simp [running])]
  split
  · rename_i stuck
    rw [stuck] at next
    cases next
  · rename_i found
    rw [found] at next
    cases next
    rfl

section Cancelling

/-- Nothing in the loop takes back that a session is cancelled. -/
theorem kept_isCancelled : Kept fun d : Drain π => d.isCancelled = true where
  act {d} action cancelled := by
    have raised : d.shared.interrupts.raise.isCancelled d.token = true := by
      unfold Interrupts.raise
      split
      · exact Interrupts.isCancelled_cancel_of_isCancelled cancelled
      · exact cancelled
    cases action with
    | raise => exact raised
    | input byte =>
      simp only [isCancelled, act, Shared.act, Interrupts.take]
      split
      · exact raised
      · exact cancelled
    | emit e => exact cancelled
    | setLevel level => exact cancelled
    | setClock clock => exact cancelled
  script _ cancelled := cancelled
  idled cancelled _ := cancelled
  showed cancelled _ := cancelled

@[simp] theorem console_actAll (d : Drain π) (actions : List Action) :
    (d.actAll actions).console = d.console := by
  induction actions generalizing d with
  | nil => rfl
  | cons action later ih => exact ih (d.act action)

@[simp] theorem readCount_acts (place : Place) (d : Drain π) (actions : List Action) :
    readCount (acts place d actions) = 0 := by
  induction actions generalizing d with
  | nil => rfl
  | cons action later ih => exact ih (d.act action)

@[simp] theorem readCount_receiveEvents (d : Drain π) : readCount d.receiveEvents = 1 := by
  rw [receiveEvents, readCount_read]
  split
  · rfl
  · exact congrArg (· + 1) (readCount_acts ..)

/-- The session is cancelled once one of the actions at a place cancels it. -/
theorem acts_raised (split : acts place d actions = earlier ++ .act beat :: later)
    (raises : beat.Raises) :
    (d.actAll actions).isCancelled = true ∧ beat.place = place ∧
      beat.before.console = d.console ∧ readCount later = 0 := by
  induction actions generalizing d earlier with
  | nil => cases earlier <;> cases split
  | cons action rest ih =>
    cases earlier with
    | nil =>
      obtain ⟨first, rfl⟩ := List.cons.inj split
      cases first
      exact ⟨kept_isCancelled.actAll rest raises.2, rfl, rfl, readCount_acts ..⟩
    | cons first earlier => exact ih (List.cons.inj split).2

theorem flush_raised (split : d.flushEvents = earlier ++ .act beat :: later)
    (raises : beat.Raises) :
    d.flush.isCancelled = true ∧ beat.place = .flush ∧ d.flush.console = beat.before.console ∧
      readCount later = 0 := by
  obtain ⟨cancelled, place, console, none_left⟩ := acts_raised split raises
  rw [flush_eq_actAll]
  exact ⟨cancelled, place, (console_actAll _ _).trans console.symm, none_left⟩

/-- What is left of a session when an action cancels it. -/
structure Stops (beat : Beat π) (later : List (Event π)) (done : Drain π) : Prop where
  flush : beat.place = .flush → readCount later = 0 ∧ done.console = beat.before.console
  read : beat.place = .read → readCount later = 1

theorem step_raised (next : d.step = some e) (split : d.stepEvents = earlier ++ .act beat :: later)
    (raises : beat.Raises) : e.isCancelled = true ∧ Stops beat later e := by
  rw [step_eq next]
  rcases append_split split with ⟨rest, inside, rfl⟩ | ⟨rest, rfl, inside⟩
  · obtain ⟨cancelled, place, -, none_left⟩ := acts_raised inside raises
    refine ⟨kept_isCancelled.receive cancelled, fun flush => ?_, fun _ => ?_⟩
    · cases place.symm.trans flush
    · rw [readCount_append, none_left, readCount_receiveEvents]
  · generalize d.reading.actAll d.readActions = d at inside ⊢
    unfold receiveEvents at inside
    cases rest with
    | nil => cases inside
    | cons first rest =>
      obtain ⟨-, inside⟩ := List.cons.inj inside
      split at inside
      · cases rest <;> cases inside
      · rename_i something
        obtain ⟨cancelled, place, console, none_left⟩ := flush_raised inside raises
        rw [receive_of_chunk something]
        refine ⟨cancelled, fun _ => ⟨none_left, console⟩, fun read => ?_⟩
        cases place.symm.trans read

/-- A loop in which an action cancels the session is left: at once if that was at a flush, and with
the read that was under way if it was inside one. -/
theorem run_raised [Pipe.Lawful π ringSize] (split : d.events = earlier ++ .act beat :: later)
    (raises : beat.Raises) :
    ∃ done, d.run = some done ∧ Stops beat later done := by
  fun_induction events d generalizing earlier with
  | case1 d cancelled => cases earlier <;> cases split
  | case2 d running stuck => cases earlier <;> cases split
  | case3 d running e next ih =>
    rw [run_of_step (Bool.eq_false_iff.mpr running) next]
    -- The action is in this round, which is the last one then, or in a later one.
    rcases append_split split with ⟨rest, inside, rfl⟩ | ⟨rest, rfl, inside⟩
    · obtain ⟨cancelled, stops⟩ := step_raised next inside raises
      refine ⟨e, run_of_isCancelled cancelled, ?_⟩
      rwa [events_of_isCancelled cancelled, List.append_nil]
    · exact ih inside

end Cancelling

section Counting

@[simp] theorem reads_actAll (d : Drain π) (actions : List Action) :
    (d.actAll actions).reads = d.reads := by
  induction actions generalizing d with
  | nil => rfl
  | cons action later ih => exact ih (d.act action)

@[simp] theorem outside_actAll (d : Drain π) (actions : List Action) :
    (d.actAll actions).outside.toList = d.outside.toList ++ actions := by
  induction actions generalizing d with
  | nil => exact (List.append_nil _).symm
  | cons action later ih =>
    refine (ih (d.act action)).trans ?_
    simp [act]

@[simp] theorem actionsOf_acts (place : Place) (d : Drain π) (actions : List Action) :
    actionsOf (acts place d actions) = actions := by
  induction actions generalizing d with
  | nil => rfl
  | cons action later ih => exact congrArg _ (ih (d.act action))

theorem reads_receive (d : Drain π) : d.receive.reads = d.reads + 1 := by
  by_cases chunk : d.nextChunk = []
  · rw [receive_of_nil chunk]
    rfl
  · rw [receive_of_chunk chunk, flush_eq_actAll, reads_actAll]
    rfl

theorem outside_receive (d : Drain π) :
    d.receive.outside.toList = d.outside.toList ++ actionsOf d.receiveEvents := by
  have skipped (later : List (Event π)) : actionsOf (.read d.nextChunk :: later) =
    actionsOf later := rfl
  rw [receiveEvents, skipped]
  split
  · rename_i nothing
    rw [receive_of_nil nothing]
    exact (List.append_nil _).symm
  · rename_i something
    rw [receive_of_chunk something, flush_eq_actAll, outside_actAll, flushEvents, actionsOf_acts]
    rfl

theorem step_counts (next : d.step = some e) :
    e.reads = d.reads + 1 ∧ e.outside.toList = d.outside.toList ++ actionsOf d.stepEvents ∧
      readCount d.stepEvents = 1 := by
  have before : d.reading.reads = d.reads ∧ d.reading.outside = d.outside := by
    unfold reading
    split <;> exact ⟨rfl, rfl⟩
  rw [step_eq next, reads_receive, outside_receive, reads_actAll, outside_actAll, before.1, before.2]
  refine ⟨rfl, ?_, ?_⟩
  · rw [stepEvents, actionsOf_append, actionsOf_acts, List.append_assoc]
  · rw [stepEvents, readCount_append, readCount_acts, readCount_receiveEvents]

/-- What a loop counts, and what others did meanwhile, is in its events. -/
theorem run_counts [Pipe.Lawful π ringSize] (left : d.run = some e) :
    e.reads = d.reads + UInt32.ofNat (readCount d.events) ∧
      e.outside.toList = d.outside.toList ++ actionsOf d.events := by
  fun_induction Drain.run d with
  | case1 d cancelled =>
    cases left
    rw [events_of_isCancelled cancelled]
    exact ⟨(UInt32.add_zero _).symm, (List.append_nil _).symm⟩
  | case2 d running stuck => contradiction
  | case3 d running next step ih =>
    obtain ⟨reads, outside⟩ := ih left
    obtain ⟨one, acted, single⟩ := step_counts step
    rw [events_of_step (Bool.eq_false_iff.mpr running) step, readCount_append, single, reads, one,
      outside, acted]
    constructor
    · rw [UInt32.ofNat_add, UInt32.add_assoc]
      rfl
    · rw [actionsOf_append, List.append_assoc]

end Counting

end Drain

end DeviceShell.Relay
