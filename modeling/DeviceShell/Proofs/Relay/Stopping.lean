import DeviceShell.Proofs.Log.Delivery
import DeviceShell.Proofs.Log.Whole
import DeviceShell.Proofs.Relay.Ending
import DeviceShell.Proofs.Relay.Events
import DeviceShell.Proofs.Relay.Restoration

/-! How a session stops: with the read that is under way at most, and without its sink before
anything else is said. -/
namespace DeviceShell

/-- What an action asks of the log. -/
def Action.calls : Action → List Log.Station.Call
  | .emit e => [.emit e]
  | .setLevel level => [.setLevel level]
  | .setClock clock => [.setClock clock]
  | .raise | .input _ => []

theorem Shared.log_actAll (s : Shared) (actions : List Action) :
    (s.actAll actions).log = s.log.callAll (actions.flatMap Action.calls) := by
  induction actions generalizing s with
  | nil => rfl
  | cons action later ih =>
    refine (ih (s.act action)).trans ?_
    rw [List.flatMap_cons, Log.Station.callAll_append]
    cases action <;> rfl

/-- No action registers a sink. -/
theorem count_addSink_calls (actions : List Action) :
    (actions.flatMap Action.calls).count .addSink = 0 := by
  rw [List.count_eq_zero, List.mem_flatMap]
  rintro ⟨action, -, member⟩
  cases action <;> simp [Action.calls] at member

namespace Relay

/-- What a session asks of the log before it listens. -/
def openingCalls (level : Option Log.Level) : List Log.Station.Call :=
  level.toList.map .setLevel ++ [.addSink]

/-- What a session that leaves its loop asks of the log. -/
def closingCalls (sink : Log.SinkId) (report : Report) : List Log.Station.Call :=
  .removeSink sink :: report.restored.toList.map .setLevel ++
    [.emit (Log.Notice.relayClosed report.relayed report.dropped).emission]

section Ending

variable {π : Type} [Pipe π] (stages : List Stage) (previous : Option Log.Level) (done : Drain π)

theorem Drain.log_ended : (done.ended stages previous).shared.log =
    done.shared.log.callAll (closingCalls done.sink (done.report stages previous)) := by
  cases previous <;> rfl

theorem Drain.asked_ended : (done.ended stages previous).asked.toList =
    done.asked.toList ++ closingCalls done.sink (done.report stages previous) := by
  cases previous <;> simp [ended, restored, closingCalls, report, Client.impose, Client.ask]

end Ending

section Session

variable (π : Type) [Pipe π] [Pipe.Lawful π ringSize] (chunk : Nat) (args : String)
  (script : Script) (token : Token) (shared : Shared) (console : Console)

/-- The events of a session that listens, from the flush of its banner on. -/
def course : List (Event π) :=
  if shared.log.hub.sinks.length < Log.Hub.capacity then
    let start := opening π chunk (Request.ofArgs args).level? script token shared console
    start.flushEvents ++ start.flush.events
  else []

variable {π chunk args script token shared console} {asked : Nat}

/-- What a session and the others ask of the log until the session leaves its loop. -/
def listeningCalls (level : Option Log.Level) (outside : List Action) : List Log.Station.Call :=
  openingCalls level ++ outside.flatMap Action.calls

theorem log_left {level : Option Log.Level} {done : Drain π}
    (left : (opening π chunk level script token shared console).flush.run = some done) :
    done.shared.log = shared.log.callAll (listeningCalls level done.outside.toList) := by
  have opened : (opening π chunk level script token shared console).shared.log =
      shared.log.callAll (openingCalls level) := by
    cases level <;> rfl
  rw [(follows_of_run _ (by rfl) left).shared, Shared.log_actAll, opened,
    ← Log.Station.callAll_append, listeningCalls]

/-- A session takes up one identity, for its own sink. -/
theorem count_addSink_listeningCalls (level : Option Log.Level) (outside : List Action) :
    (listeningCalls level outside).count .addSink = 1 := by
  have opened : (openingCalls level).count .addSink = 1 := by
    cases level <;> rfl
  rw [listeningCalls, List.count_append, opened, count_addSink_calls]

/-- What a session has done when it is over, having left its loop as `done`. -/
structure Closed (asked : Nat) (level : Option Log.Level) (shared : Shared) (done : Drain π)
    (ended : Ended) (report : Report) : Prop where
  /-- It prints nothing more. -/
  console : ended.console = done.console
  /-- It has set the level it was asked for and registered its sink. Since it left its loop it has
  taken its sink out, then set the level back, then said what it did. -/
  order : ended.asked.toList = openingCalls level ++ closingCalls shared.log.hub.nextId report
  /-- Since then the log has been through nothing else. -/
  calls : ended.shared.log = done.shared.log.callAll (closingCalls shared.log.hub.nextId report)
  level : ended.shared.log.hub.level = report.restored.getD done.shared.log.hub.level
  /-- What it says goes to the sinks from before, if the level it set back allows that. -/
  said : ended.shared.log.journal.toList = done.shared.log.journal.toList ++
    if ended.shared.log.hub.level.allows .debug then
      shared.log.hub.sinks.map fun id => ⟨id,
        Text.decimal done.shared.log.clock.toNat ++ " [D][devcli::relay::session] log relay closed: " ++
          Text.decimal report.relayed.toNat ++ " bytes relayed, " ++
          Text.decimal report.dropped.toNat ++ " dropped\r\n"⟩
    else []
  own : shared.log.hub.nextId ∉ shared.log.hub.sinks
  /-- Its own sink gets none of that and nothing later. -/
  unheard : ∀ later, asked + 1 + later.count .addSink < UInt32.size →
    (ended.shared.log.callAll later).receivedSince 0 shared.log.hub.nextId =
      done.shared.log.receivedSince 0 shared.log.hub.nextId

/-- What is said once a sink is out of the table does not reach it. -/
theorem unheard_of_removed {log : Log.Station} {id : Log.SinkId} (tended : log.Tended asked)
    (spent : id.Spent asked) (calls : List Log.Station.Call)
    (few : asked + calls.count .addSink < UInt32.size) :
    (log.callAll (.removeSink id :: calls)).receivedSince 0 id = log.receivedSince 0 id := by
  have removed : (log.call (.removeSink id)).Tended asked :=
    tended.call (.removeSink id) (Nat.lt_of_le_of_lt (Nat.le_add_right _ _) few)
  have absent : id ∉ (log.call (.removeSink id)).hub.sinks := fun member =>
    (tended.ordered.mem_removeSink.mp member).1 rfl
  rw [Log.Station.callAll_cons, Log.Station.received_of_notMem removed spent absent calls few]
  rfl

theorem closed_of_left {request : Request} {stages : List Stage} {done : Drain π}
    (room : shared.log.hub.sinks.length < Log.Hub.capacity) (tended : shared.log.Tended asked)
    (few : asked + 1 < UInt32.size)
    (left : (opening π chunk request.level? script token shared console).flush.run = some done) :
    Closed asked request.level? shared done
      (done.ended stages (request.level?.map fun _ => shared.log.hub.level))
      (done.report stages (request.level?.map fun _ => shared.log.hub.level)) := by
  generalize eq : (request.level?.map fun _ => shared.log.hub.level) = previous
  have follows := follows_of_run _ (by rfl) left
  have sink : done.sink = shared.log.hub.nextId := follows.sink
  have fresh : shared.log.hub.nextId ∉ shared.log.hub.sinks :=
    tended.numbered.nextId_notMem (Nat.lt_of_succ_lt few)
  have sinks : (done.ended stages previous).shared.log.hub.sinks = shared.log.hub.sinks := by
    rw [sinks_ended _ _ room left, List.erase_append_right _ fresh, List.erase_cons_head,
      List.append_nil]
  have calls := Drain.log_ended stages previous done
  have order := Drain.asked_ended stages previous done
  rw [sink] at calls order
  rw [follows.asked, asked_opening] at order
  have listened : done.shared.log.Tended (asked + 1) := by
    have counted := count_addSink_listeningCalls request.level? done.outside.toList
    have tended := tended.callAll (listeningCalls request.level? done.outside.toList) (by rwa [counted])
    rwa [← log_left left, counted] at tended
  have spent : shared.log.hub.nextId.Spent (asked + 1) :=
    ⟨asked, Nat.lt_succ_self asked, tended.numbered.next⟩
  refine ⟨rfl, order, calls, Drain.level_restored previous done, ?_, fresh, fun later enough => ?_⟩
  · have journal : (done.restored previous).shared.log.journal = done.shared.log.journal ∧
        (done.restored previous).shared.log.clock = done.shared.log.clock := by
      cases previous <;> exact ⟨rfl, rfl⟩
    have announced : (done.ended stages previous).shared.log.journal.toList =
        (done.restored previous).shared.log.journal.toList ++
          (done.restored previous).shared.log.deliveries
          (Log.Notice.relayClosed done.relayed done.ring.dropped).emission :=
      History.toList_append _ _
    rw [announced, journal.1, Log.Station.deliveries, Log.Hub.deliveries, journal.2,
      Log.Notice.record_relayClosed, ← Drain.hub_ended stages, sinks]
    rfl
  · rw [calls, closingCalls, List.cons_append, ← Log.Station.callAll_append, List.cons_append]
    refine unheard_of_removed listened spent _ ?_
    have set : ((done.report stages previous).restored.toList.map
        Log.Station.Call.setLevel).count .addSink = 0 := by
      cases previous <;> rfl
    rw [List.count_append, List.count_append, set]
    simpa using enough

/-- The events of a session that returns a report are those that it counts. -/
theorem course_of_left {done : Drain π} (room : shared.log.hub.sinks.length < Log.Hub.capacity)
    (left : (opening π chunk (Request.ofArgs args).level? script token shared console).flush.run =
      some done) :
    done.reads = UInt32.ofNat (readCount (course π chunk args script token shared console)) ∧
      done.outside.toList = actionsOf (course π chunk args script token shared console) := by
  obtain ⟨reads, outside⟩ := Drain.run_counts left
  rw [Drain.flush_eq_actAll, Drain.reads_actAll] at reads
  rw [Drain.flush_eq_actAll, Drain.outside_actAll] at outside
  rw [course, if_pos room, readCount_append, actionsOf_append, Drain.flushEvents,
    Drain.readCount_acts, Drain.actionsOf_acts, Nat.zero_add, Drain.flush_eq_actAll]
  exact ⟨reads.trans (UInt32.zero_add _), outside⟩

/-- An action that cancels a session ends it. -/
theorem left_of_raised {earlier later : List (Event π)} {beat : Beat π}
    (split : course π chunk args script token shared console = earlier ++ .act beat :: later)
    (raises : beat.Raises) :
    shared.log.hub.sinks.length < Log.Hub.capacity ∧
      ∃ done, (opening π chunk (Request.ofArgs args).level? script token shared console).flush.run =
        some done ∧ Drain.Stops beat later done := by
  unfold course at split
  split at split
  · rename_i room
    refine ⟨room, ?_⟩
    rcases append_split split with ⟨rest, inside, rfl⟩ | ⟨rest, rfl, inside⟩
    · obtain ⟨cancelled, place, console, none_left⟩ := Drain.flush_raised inside raises
      refine ⟨_, Drain.run_of_isCancelled cancelled, fun _ => ⟨?_, console⟩, fun read => ?_⟩
      · rwa [Drain.events_of_isCancelled cancelled, List.append_nil]
      · cases place.symm.trans read
    · exact Drain.run_raised inside raises
  · cases earlier <;> cases split

theorem course_of_cancelled (cancelled : shared.interrupts.isCancelled token = true) :
    readCount (course π chunk args script token shared console) = 0 := by
  unfold course
  split
  · rw [readCount_append, Drain.flushEvents, Drain.readCount_acts, Drain.events_of_isCancelled]
    · rfl
    · refine Drain.kept_isCancelled.flush ?_
      change Interrupts.isCancelled token _ = true
      rwa [interrupts_opening]
  · rfl

theorem run_of_full (π : Type) [Pipe π] [Pipe.Lawful π ringSize]
    (accepted : Request.ofArgs args ≠ .help)
    (full : Log.Hub.capacity ≤ shared.log.hub.sinks.length) :
    ∃ ended, run π chunk args script token shared console = .ok ended ∧
      ended.result = .error .sinkTableFull := by
  obtain ⟨ended, refused, failed, -⟩ :=
    register_of_le π chunk (Request.ofArgs args).level? script token console full
  exact ⟨ended, by rw [run_of_accepted accepted, listen, refused], failed⟩

/-- A session that is cancelled from the start prints its banner and stops, if it finds room at
all. -/
theorem run_of_cancelled (accepted : Request.ofArgs args ≠ .help)
    (cancelled : shared.interrupts.isCancelled token = true) :
    ∃ ended, run π chunk args script token shared console = .ok ended ∧
      ∀ report, ended.result = .ok report → ended.console =
        (opening π chunk (Request.ofArgs args).level? script token shared console).console.flush := by
  rcases Nat.lt_or_ge shared.log.hub.sinks.length Log.Hub.capacity with room | full
  · generalize start : opening π chunk (Request.ofArgs args).level? script token shared console = d
    have opened : d.isCancelled = true := by
      rw [Drain.isCancelled, ← start, interrupts_opening]
      exact cancelled
    have left := Drain.run_of_isCancelled (Drain.kept_isCancelled.flush opened)
    have printed : d.flush.console = d.console.flush := by
      rw [Drain.flush_eq_actAll, Drain.console_actAll]
      rfl
    rw [← start] at left
    have returned := (run_of_accepted accepted).trans (listen_of_left accepted room left)
    rw [start] at returned
    exact ⟨_, returned, fun _ _ => printed⟩
  · obtain ⟨ended, returned, failed⟩ := run_of_full π accepted full
    refine ⟨ended, returned, fun report reported => ?_⟩
    rw [failed] at reported
    cases reported

/-- A session that an action cancels at a flush reads nothing more and prints nothing more;
cancelled inside a read, it completes that read. -/
theorem run_of_raised {earlier later : List (Event π)} {beat : Beat π}
    (accepted : Request.ofArgs args ≠ .help)
    (split : course π chunk args script token shared console = earlier ++ .act beat :: later)
    (raises : beat.Raises) :
    readCount (course π chunk args script token shared console) ≤ readCount earlier + 1 ∧
      ∃ ended report, run π chunk args script token shared console = .ok ended ∧
        ended.result = .ok report ∧
        (beat.place = .flush →
          readCount (course π chunk args script token shared console) = readCount earlier ∧
            ended.console = beat.before.console) := by
  obtain ⟨room, done, left, stops⟩ := left_of_raised split raises
  have total : readCount (course π chunk args script token shared console) =
      readCount earlier + readCount later := by
    rw [split, readCount_append]
    rfl
  have returned := (run_of_accepted accepted).trans (listen_of_left accepted room left)
  rw [total]
  refine ⟨?_, _, _, returned, rfl, fun flush => ?_⟩
  · cases place : beat.place with
    | flush =>
      rw [(stops.flush place).1]
      exact Nat.le_succ _
    | read => rw [stops.read place]
  · obtain ⟨none_left, printed⟩ := stops.flush flush
    rw [none_left]
    exact ⟨rfl, printed⟩

/-- A session that returns a report has left its loop, has counted its reads, and is closed. -/
theorem closed_of_run {ended : Ended} {report : Report} (accepted : Request.ofArgs args ≠ .help)
    (tended : shared.log.Tended asked) (few : asked + 1 < UInt32.size)
    (returned : run π chunk args script token shared console = .ok ended)
    (reported : ended.result = .ok report) :
    ∃ done, leaving π chunk args script token shared console = some done ∧
      report.reads = UInt32.ofNat (readCount (course π chunk args script token shared console)) ∧
      report.restored = ((Request.ofArgs args).level?.map fun _ => shared.log.hub.level) ∧
      actionsOf (course π chunk args script token shared console) =
        meanwhile π chunk args script token shared console ∧
      Closed asked (Request.ofArgs args).level? shared done ended report := by
  rcases run_cases returned with ⟨asked, -⟩ | ⟨-, -, -, failed, -⟩ |
    ⟨done, -, somewhere, room, left, rfl⟩
  · exact absurd asked accepted
  · cases failed.symm.trans reported
  · obtain rfl : done.report _ _ = report := Except.ok.inj reported
    obtain ⟨reads, outside⟩ := course_of_left room left
    refine ⟨done, somewhere, reads, ?_, ?_, closed_of_left room tended few left⟩
    · rw [Drain.report]
    · rw [meanwhile, somewhere]
      exact outside.symm

/-- A session that is cancelled when `k` reads are over makes one more at most, and none if that is
before its loop or at a flush; then it prints nothing more either. When it is over, its sink is out
of the log before the level is set back and its last record is said. -/
theorem run_stops (accepted : Request.ofArgs args ≠ .help) (tended : shared.log.Tended asked)
    (few : asked + 1 < UInt32.size) :
    let events := course π chunk args script token shared console
    let result := run π chunk args script token shared console
    (shared.interrupts.isCancelled token = true → readCount events = 0 ∧ ∃ ended, result = .ok ended ∧
      ∀ report, ended.result = .ok report → ended.console =
        (opening π chunk (Request.ofArgs args).level? script token shared console).console.flush) ∧
    (∀ earlier beat later, events = earlier ++ .act beat :: later → beat.Raises →
      readCount events ≤ readCount earlier + 1 ∧
      ∃ ended report, result = .ok ended ∧ ended.result = .ok report ∧
        (beat.place = .flush →
          readCount events = readCount earlier ∧ ended.console = beat.before.console)) ∧
    ∀ ended report, result = .ok ended → ended.result = .ok report →
      ∃ done, leaving π chunk args script token shared console = some done ∧
        report.reads = UInt32.ofNat (readCount events) ∧
        report.restored = ((Request.ofArgs args).level?.map fun _ => shared.log.hub.level) ∧
        actionsOf events = meanwhile π chunk args script token shared console ∧
        Closed asked (Request.ofArgs args).level? shared done ended report :=
  ⟨fun cancelled => ⟨course_of_cancelled cancelled, run_of_cancelled accepted cancelled⟩,
    fun _ _ _ split raises => run_of_raised accepted split raises,
    fun _ _ returned reported => closed_of_run accepted tended few returned reported⟩

/-- A session that is cancelled inside its first read, which takes a record that came just
before. -/
theorem run_stops_watched :
    let hello : Action := .emit ⟨.warn, "app", ["hello"]⟩
    let script : Script := { waits := [[hello, .raise]], stopsWhenDrained := false }
    Request.ofArgs "debug" ≠ .help ∧ watched.log.Tended 2 ∧ 2 + 1 < UInt32.size ∧
      ∃ earlier beat later,
        course (Circle ringSize) 64 "debug" script ⟨0⟩ watched {} = earlier ++ .act beat :: later ∧
        beat.Raises ∧ beat.place = .read ∧ readCount earlier = 0 ∧
        readCount (course (Circle ringSize) 64 "debug" script ⟨0⟩ watched {}) ≤ 1 ∧
        ∃ ended report, ∃ done : Drain (Circle ringSize),
          run (Circle ringSize) 64 "debug" script ⟨0⟩ watched {} = .ok ended ∧
          Closed 2 (some .debug) watched done ended report := by
  intro hello script
  have asked : Request.ofArgs "debug" = .override .debug := by decide +kernel
  have accepted : Request.ofArgs "debug" ≠ .help := by
    rw [asked]
    exact Request.noConfusion
  have tended : watched.log.Tended 2 := by
    refine ⟨⟨rfl, ?_⟩, ⟨by decide, by decide⟩, fun _ member => nomatch member⟩
    rintro id member
    rcases List.mem_cons.mp member with rfl | member
    · exact ⟨0, by decide, rfl⟩
    · obtain rfl := List.mem_singleton.mp member
      exact ⟨1, by decide, rfl⟩
  let start := opening (Circle ringSize) 64 (some .debug) script ⟨0⟩ watched {}
  have quiet : start.flushActions = [] := by decide +kernel
  have running : start.flush.isCancelled = false := by decide +kernel
  have coming : start.flush.ring.pending = 0 → start.flush.script.waits ≠ [] := by decide +kernel
  have inside : start.flush.readActions = [hello, .raise] := by decide +kernel
  let before := start.flush.reading
  let after := before.actAll [hello, .raise]
  have split : course (Circle ringSize) 64 "debug" script ⟨0⟩ watched {} =
      [.act ⟨.read, before, hello⟩] ++ .act ⟨.read, before.act hello, .raise⟩ ::
        (after.receiveEvents ++ after.receive.events) := by
    rw [course, if_pos (by decide), asked]
    change start.flushEvents ++ start.flush.events = _
    rw [Drain.flushEvents, quiet, Drain.events_of_step running (Drain.step_of_coming coming),
      Drain.stepEvents, inside]
    rfl
  have raises : Beat.Raises ⟨.read, before.act hello, .raise⟩ := by
    constructor <;> decide +kernel
  obtain ⟨-, stops, closes⟩ := @run_stops (Circle ringSize) _ _ 64 "debug" script ⟨0⟩ watched {} 2
    accepted tended (by decide)
  obtain ⟨reads, ended, report, returned, reported, -⟩ := stops _ _ _ split raises
  obtain ⟨done, -, -, -, -, closed⟩ := closes ended report returned reported
  exact ⟨accepted, tended, by decide, _, _, _, split, raises, rfl, rfl, reads, ended, report, done,
    returned, closed⟩

end Session

end Relay

end DeviceShell
