import DeviceShell.Proofs.Relay.Chunks
import DeviceShell.Proofs.Relay.Interrupting

/-! When a session runs dry. Cancelled while nothing is queued it leaves nothing behind, and whoever
waits for that moment gets to cancel it. -/
namespace DeviceShell.Relay

namespace Drain

variable {π : Type} [Pipe π] {d e done : Drain π} {actions : List Action}

/-- An action at a place is met in the state that those before it leave. -/
theorem of_mem_acts {place : Place} {beat : Beat π} (member : .act beat ∈ acts place d actions) :
    beat.place = place ∧ ∃ earlier later, actions = earlier ++ beat.action :: later ∧
      beat.before = d.actAll earlier := by
  induction actions generalizing d with
  | nil => cases member
  | cons action rest ih =>
    rcases List.mem_cons.mp member with first | inside
    · cases first
      exact ⟨rfl, [], rest, rfl, rfl⟩
    · obtain ⟨place, earlier, later, rfl, before⟩ := ih inside
      exact ⟨place, action :: earlier, later, rfl, before⟩

/-- Each of a list of actions is met in the state that those before it leave. -/
theorem mem_acts {place : Place} {earlier later : List Action} {action : Action} :
    .act ⟨place, d.actAll earlier, action⟩ ∈ acts place d (earlier ++ action :: later) := by
  induction earlier generalizing d with
  | nil => exact List.mem_cons_self
  | cons first rest ih => exact List.mem_cons_of_mem _ ih

/-- Whoever cancels a session that has nothing queued leaves it so, if nothing is said after
that. -/
theorem pending_actAll {place : Place} (running : d.isCancelled = false)
    (cancelled : (d.actAll actions).isCancelled = true)
    (dry : ∀ beat, .act beat ∈ acts place d actions → beat.Raises → beat.before.ring.pending = 0)
    (told : ∀ beat e, .act beat ∈ acts place d actions → beat.action = .emit e →
      beat.before.isCancelled = false) :
    (d.actAll actions).ring.pending = 0 := by
  induction actions generalizing d with
  | nil => cases running.symm.trans cancelled
  | cons action later ih =>
    cases now : (d.act action).isCancelled with
    | false =>
      exact ih now cancelled (fun beat member => dry beat (List.mem_cons_of_mem _ member))
        fun beat e member => told beat e (List.mem_cons_of_mem _ member)
    | true =>
      have silent : Silent (action :: later) := by
        intro e member
        rcases List.mem_cons.mp member with rfl | after
        · exact Bool.noConfusion (running.symm.trans now)
        · obtain ⟨front, back, rfl⟩ := List.append_of_mem after
          have spoken := told _ e (List.mem_cons_of_mem _ mem_acts) rfl
          exact Bool.noConfusion (spoken.symm.trans (kept_isCancelled.actAll front now))
      rw [ring_actAll_of_silent silent]
      exact dry ⟨place, d, action⟩ List.mem_cons_self ⟨running, now⟩

theorem pending_idled_le [Pipe.Lawful π ringSize] (d : Drain π) :
    d.idled.ring.pending ≤ d.ring.pending := by
  have balance := d.ring.pending_read (chunkSize d.chunk)
  change (d.ring.read (chunkSize d.chunk)).2.pending ≤ _
  omega

theorem nextChunk_of_pending [Pipe.Lawful π ringSize] (dry : d.ring.pending = 0) :
    d.nextChunk = [] := by
  rw [Ring.pending_eq, List.length_eq_zero_iff] at dry
  rw [nextChunk_eq, dry, List.take_nil]

theorem not_told_of_silent {place : Place} (silent : Silent actions) {beat : Beat π}
    {e : Log.Emission}
    (member : .act beat ∈ acts place d actions) : beat.action ≠ .emit e := by
  intro speaks
  have inside : beat.action ∈ actionsOf (acts place d actions) :=
    List.mem_filterMap.mpr ⟨_, member, rfl⟩
  rw [actionsOf_acts, speaks] at inside
  exact silent e inside

/-- A round in which the session is cancelled leaves nothing queued, if nothing is queued then and
nothing is said. -/
theorem pending_of_step [Pipe.Lawful π ringSize] (running : d.isCancelled = false)
    (next : d.step = some e) (silent : Silent (actionsOf d.stepEvents))
    (dry : ∀ beat, .act beat ∈ d.stepEvents → beat.Raises → beat.before.ring.pending = 0)
    (cancelled : e.isCancelled = true) : e.ring.pending = 0 := by
  have reading : d.reading.isCancelled = false := by
    unfold Drain.reading
    split <;> exact running
  obtain rfl := step_eq next
  simp only [stepEvents, actionsOf_append, actionsOf_acts, Silent.append, List.mem_append] at silent dry
  generalize f_eq : d.reading.actAll d.readActions = f at silent dry cancelled ⊢
  cases inside : f.isCancelled with
  | true =>
    have queued : f.ring.pending = 0 := by
      rw [← f_eq] at inside ⊢
      exact pending_actAll reading inside (fun beat member => dry beat (.inl member))
        fun beat e member speaks => absurd speaks (not_told_of_silent silent.1 member)
    rw [receive_of_nil (nextChunk_of_pending queued)]
    exact Nat.eq_zero_of_le_zero (queued ▸ f.pending_idled_le)
  | false =>
    by_cases chunk : f.nextChunk = []
    · rw [receive_of_nil chunk] at cancelled
      cases inside.symm.trans cancelled
    · rw [receiveEvents, if_neg chunk] at silent dry
      rw [receive_of_chunk chunk, flush_eq_actAll] at cancelled ⊢
      have later : Silent f.written.flushActions := by
        have same : actionsOf (.read f.nextChunk :: f.written.flushEvents) = f.written.flushActions :=
          actionsOf_acts ..
        exact same ▸ silent.2
      exact pending_actAll inside cancelled
        (fun beat member => dry beat (.inr (List.mem_cons_of_mem _ member)))
        fun beat e member speaks => absurd speaks (not_told_of_silent later member)

/-- So does a whole run. -/
theorem pending_of_run [Pipe.Lawful π ringSize] (left : d.run = some done)
    (silent : Silent (actionsOf d.events))
    (dry : ∀ beat, .act beat ∈ d.events → beat.Raises → beat.before.ring.pending = 0)
    (before : d.isCancelled = true → d.ring.pending = 0) : done.ring.pending = 0 := by
  fun_induction Drain.run d with
  | case1 d cancelled =>
    cases left
    exact before cancelled
  | case2 d running stuck => contradiction
  | case3 d running next step ih =>
    have running := Bool.eq_false_iff.mpr running
    rw [events_of_step running step] at silent dry
    rw [actionsOf_append, Silent.append] at silent
    simp only [List.mem_append] at dry
    exact ih left silent.2 (fun beat member => dry beat (.inr member))
      (pending_of_step running step silent.1 fun beat member => dry beat (.inl member))

/-- Nothing is said in a loop where whatever is said comes before the first read and not inside
one. -/
theorem silent_events [Pipe.Lawful π ringSize]
    (told : ∀ earlier beat later e, d.events = earlier ++ .act beat :: later → beat.action = .emit e →
      readCount earlier = 0 ∧ beat.place = .flush) :
    Silent (actionsOf d.events) := by
  intro e member
  obtain ⟨event, inside, spoken⟩ := List.mem_filterMap.mp member
  cases event with
  | read bytes => cases spoken
  | act beat =>
    obtain ⟨earlier, later, split⟩ := List.append_of_mem inside
    obtain ⟨unread, flush⟩ := told earlier beat later e split (Option.some.inj spoken)
    rw [events] at split
    split at split
    · cases earlier <;> cases split
    · split at split
      · cases earlier <;> cases split
      · rw [stepEvents, List.append_assoc] at split
        rcases append_split split with ⟨rest, front, -⟩ | ⟨rest, rfl, back⟩
        · have reading : beat.place = .read :=
            (of_mem_acts (front ▸ List.mem_append_right _ List.mem_cons_self)).1
          cases reading.symm.trans flush
        · cases rest with
          | nil => cases back
          | cons first rest =>
            obtain ⟨rfl, -⟩ := List.cons.inj back
            rw [readCount_append, readCount_read] at unread
            omega

end Drain

/-- Nobody acts but to cancel a session that has nothing queued, and somebody does. -/
structure Watched {π : Type} [Pipe π] (events : List (Event π)) : Prop where
  raise : ∀ beat, .act beat ∈ events → beat.action = .raise ∧ beat.before.ring.pending = 0
  raises : ∃ beat, .act beat ∈ events ∧ beat.Raises

theorem Watched.cons_read {π : Type} [Pipe π] {events : List (Event π)} (watched : Watched events)
    (bytes : Bytes) : Watched (.read bytes :: events) where
  raise beat member := watched.raise beat ((List.mem_cons.mp member).resolve_left nofun)
  raises := by
    obtain ⟨beat, member, raises⟩ := watched.raises
    exact ⟨beat, List.mem_cons_of_mem _ member, raises⟩

namespace Drain

variable {π : Type} [Pipe π] {d : Drain π} {spoken : List Action}

/-- At a flush that leaves nothing queued the session is cancelled. -/
theorem flushActions_eq (moment : d.script.flushes.headD {} = { actions := spoken })
    (stops : d.script.stopsWhenDrained = true) :
    d.flushActions = spoken ++
      if (d.flushing.actAll spoken).ring.pending = 0 then [.raise] else [] := by
  have passed : d.flushing.script.stopsWhenDrained = true := stops
  simp only [flushActions, moment, script_actAll, passed, Bool.not_false, Bool.and_true,
    Bool.true_and, decide_eq_true_eq]

theorem acts_append (place : Place) (d : Drain π) (first second : List Action) :
    acts place d (first ++ second) = acts place d first ++ acts place (d.actAll first) second := by
  induction first generalizing d with
  | nil => rfl
  | cons action later ih => exact congrArg _ (ih (d.act action))

/-- Behind what is said at a flush comes the loop, or its end if nothing is queued. -/
theorem watched_flush [Pipe.Lawful π ringSize]
    (moment : d.script.flushes.headD {} = { actions := spoken })
    (stops : d.script.stopsWhenDrained = true)
    (heeds : (d.flushing.actAll spoken).shared.interrupts.Heeds (d.flushing.actAll spoken).token)
    (running : (d.flushing.actAll spoken).isCancelled = false)
    (later : (d.flushing.actAll spoken).ring.pending ≠ 0 →
      Watched (d.flushing.actAll spoken).events) :
    ∃ rest, d.flushEvents ++ d.flush.events =
      acts .flush d.flushing spoken ++ rest ∧ Watched rest := by
  rw [flush_eq_actAll, flushEvents, flushActions_eq moment stops]
  by_cases dry : (d.flushing.actAll spoken).ring.pending = 0
  · rw [if_pos dry, acts_append, actAll_append]
    have ended : ((d.flushing.actAll spoken).actAll [.raise]).isCancelled = true := heeds.raise
    rw [events_of_isCancelled ended, List.append_nil]
    refine ⟨_, rfl, fun beat member => ?_, _, List.mem_singleton_self _, running, ended⟩
    cases List.mem_singleton.mp member
    exact ⟨rfl, dry⟩
  · rw [if_neg dry, List.append_nil]
    exact ⟨_, rfl, later dry⟩

/-- A loop that nobody tells anything runs dry and is cancelled then. -/
theorem watched_events [Pipe.Lawful π ringSize] (alone : d.script = {})
    (heeds : d.shared.interrupts.Heeds d.token)
    (running : d.isCancelled = false) (queued : d.ring.pending ≠ 0) : Watched d.events := by
  fun_induction events d with
  | case1 d cancelled => cases running.symm.trans cancelled
  | case2 d _ stuck => cases (step_of_pending queued).symm.trans stuck
  | case3 d _ e next ih =>
    have something : d.nextChunk ≠ [] := by
      rw [nextChunk_eq, ne_eq, List.take_eq_nil_iff, ← List.length_eq_zero_iff, ← Ring.pending_eq]
      exact not_or.mpr ⟨(chunkSize_pos _).ne', queued⟩
    obtain rfl : d.receive = e := Option.some.inj ((step_of_pending queued).symm.trans next)
    have round : d.stepEvents = .read d.nextChunk :: d.written.flushEvents := by
      rw [stepEvents, reading, if_neg queued, readActions, if_neg queued]
      change d.receiveEvents = _
      rw [receiveEvents, if_neg something]
    have script : d.written.script = {} := alone
    have moment : d.written.script.flushes.headD {} = { actions := [] } := by rw [script]; rfl
    have stops : d.written.script.stopsWhenDrained = true := by rw [script]
    obtain ⟨rest, events, watched⟩ := watched_flush moment stops heeds running fun left => by
      have same : d.receive = d.written.flushing := by
        rw [receive_of_chunk something, flush_eq_actAll, flushActions_eq moment stops, if_neg left]
        rfl
      rw [same] at ih
      refine ih ?_ heeds running left
      change d.script.passed = {}
      rw [alone]
      rfl
    rw [round, receive_of_chunk something, List.cons_append, events]
    exact watched.cons_read _

end Drain

end DeviceShell.Relay
