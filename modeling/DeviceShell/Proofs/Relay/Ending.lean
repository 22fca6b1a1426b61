import DeviceShell.Proofs.Relay.Course
import DeviceShell.Proofs.Relay.Outside

/-! The ways in which a session ends, and what it leaves. -/
namespace DeviceShell.Relay

/-- Every stage of a session that is not turned away, by what its argument asks for. -/
def Request.stages : Request → List Stage
  | .help => [.idle, .closed]
  | .keepLevel => [.idle, .relaying, .draining, .restoring, .closed]
  | .override _ => [.idle, .levelOverridden, .relaying, .draining, .restoring, .closed]

namespace Client

variable (level : Option Log.Level) (c : Client)

@[simp] theorem level_impose :
    (c.impose level).shared.log.hub.level = level.getD c.shared.log.hub.level := by
  cases level <;> rfl

@[simp] theorem sinks_impose :
    (c.impose level).shared.log.hub.sinks = c.shared.log.hub.sinks := by
  cases level <;> rfl

@[simp] theorem nextId_impose :
    (c.impose level).shared.log.hub.nextId = c.shared.log.hub.nextId := by
  cases level <;> rfl

@[simp] theorem interrupts_impose : (c.impose level).shared.interrupts = c.shared.interrupts := by
  cases level <;> rfl

@[simp] theorem clock_impose : (c.impose level).shared.log.clock = c.shared.log.clock := by
  cases level <;> rfl

theorem asked_impose :
    (c.impose level).asked.toList = c.asked.toList ++ level.toList.map .setLevel := by
  cases level <;> simp [impose, ask]

theorem addSink_of_lt {c : Client} (room : c.shared.log.hub.sinks.length < Log.Hub.capacity) :
    c.addSink.1 = .ok c.shared.log.hub.nextId ∧
      c.addSink.2.shared.log.hub.sinks = c.shared.log.hub.sinks ++ [c.shared.log.hub.nextId] :=
  Log.Hub.addSink_of_lt room

theorem addSink_of_le {c : Client} (full : Log.Hub.capacity ≤ c.shared.log.hub.sinks.length) :
    c.addSink.1 = .error .sinkTableFull ∧
      c.addSink.2.shared.log.hub.sinks = c.shared.log.hub.sinks := Log.Hub.addSink_of_le full

@[simp] theorem level_addSink : c.addSink.2.shared.log.hub.level = c.shared.log.hub.level :=
  c.shared.log.hub.level_addSink

@[simp] theorem clock_addSink : c.addSink.2.shared.log.clock = c.shared.log.clock := rfl

@[simp] theorem interrupts_addSink : c.addSink.2.shared.interrupts = c.shared.interrupts := rfl

end Client

section Registration

variable (π : Type) [Pipe π] (chunk : Nat) (level : Option Log.Level) (script : Script)
  (token : Token) (shared : Shared) (console : Console)

/-- The loop of a session before its first flush. -/
def opening : Drain π :=
  { (({ shared := shared } : Client).impose level).addSink.2 with
    sink := shared.log.hub.nextId
    token := token
    chunk := chunk
    script := script
    console := (console.write (levelLine (level.getD shared.log.hub.level))).write banner }

theorem sinks_opening (room : shared.log.hub.sinks.length < Log.Hub.capacity) :
    (opening π chunk level script token shared console).shared.log.hub.sinks =
      shared.log.hub.sinks ++ [shared.log.hub.nextId] := by
  have added := (Client.addSink_of_lt
    (c := ({ shared := shared } : Client).impose level) (by simpa using room)).2
  simpa [opening] using added

theorem clock_opening :
    (opening π chunk level script token shared console).shared.log.clock = shared.log.clock := by
  simp [opening]

theorem level_opening :
    (opening π chunk level script token shared console).shared.log.hub.level =
      level.getD shared.log.hub.level := by
  simp [opening]

theorem interrupts_opening :
    (opening π chunk level script token shared console).shared.interrupts = shared.interrupts := by
  simp [opening]

/-- Before it listens, a session sets the level it was asked for, if any, and registers its sink. -/
theorem asked_opening :
    (opening π chunk level script token shared console).asked.toList =
      level.toList.map .setLevel ++ [.addSink] := by
  change ((({ shared := shared } : Client).impose level).asked.push .addSink).toList = _
  rw [History.toList_push, Client.asked_impose]
  rfl

variable {shared}

theorem register_of_lt (room : shared.log.hub.sinks.length < Log.Hub.capacity) :
    register π chunk level script token shared console =
      .ok (opening π chunk level script token shared console).flush := by
  have added := (Client.addSink_of_lt
    (c := ({ shared := shared } : Client).impose level) (by simpa using room)).1
  unfold register opening
  dsimp only
  split
  · rename_i failure client eq
    rw [eq] at added
    contradiction
  · rename_i sink client eq
    rw [eq] at added ⊢
    cases added
    simp

theorem register_of_le (full : Log.Hub.capacity ≤ shared.log.hub.sinks.length) :
    ∃ ended, register π chunk level script token shared console = .error ended ∧
      ended.result = .error .sinkTableFull ∧
      ended.shared.log.hub.sinks = shared.log.hub.sinks ∧
      ended.shared.log.hub.level = shared.log.hub.level ∧
      ended.shared.interrupts = shared.interrupts := by
  obtain ⟨refused, same⟩ := Client.addSink_of_le
    (c := ({ shared := shared } : Client).impose level) (by simpa using full)
  have kept := (({ shared := shared } : Client).impose level).level_addSink
  have routes := (({ shared := shared } : Client).impose level).interrupts_addSink
  unfold register
  dsimp only
  split
  · rename_i failure client eq
    rw [eq] at refused same kept routes
    cases refused
    refine ⟨_, rfl, rfl, ?_, ?_, ?_⟩
    · simpa using same
    · cases level with
      | none => simpa using kept
      | some level => simp
    · simpa using routes
  · rename_i sink client eq
    rw [eq] at refused
    contradiction

end Registration

section Loop

variable {π : Type} [Pipe π]

/-- The loop `d` comes from `start` by what others did since, which is on record. -/
structure Drain.Follows (start d : Drain π) : Prop where
  sink : d.sink = start.sink
  shared : d.shared = start.shared.actAll d.outside.toList
  asked : d.asked = start.asked

theorem Drain.kept_follows (start : Drain π) : Drain.Kept (Drain.Follows start) where
  act action follows := ⟨follows.sink, by simp [Drain.act, follows.shared], follows.asked⟩
  script _ follows := ⟨follows.sink, follows.shared, follows.asked⟩
  idled follows _ := ⟨follows.sink, follows.shared, follows.asked⟩
  showed follows _ := ⟨follows.sink, follows.shared, follows.asked⟩

/-- The log after a session: without its sink, and at the level from before if there was one. -/
def Drain.restored (previous : Option Log.Level) (done : Drain π) : Client :=
  (done.ask (.removeSink done.sink)).impose previous

/-- What a session reports that entered certain stages and left its loop. -/
def Drain.report (stages : List Stage) (previous : Option Log.Level) (done : Drain π) : Report where
  visited := stages
  reads := done.reads
  relayed := done.relayed
  dropped := done.ring.dropped
  restored := previous

/-- How a session ends that entered certain stages and left its loop. -/
def Drain.ended (stages : List Stage) (previous : Option Log.Level) (done : Drain π) : Ended :=
  { (done.restored previous).ask
      (.emit (Log.Notice.relayClosed done.relayed done.ring.dropped).emission) with
    result := .ok (done.report stages previous)
    console := done.console }

theorem Drain.Follows.level {start d : Drain π} (follows : start.Follows d) :
    d.shared.log.hub.level = lastLevel start.shared.log.hub.level d.outside.toList := by
  rw [follows.shared, Shared.level_actAll]

theorem Drain.Follows.clock {start d : Drain π} (follows : start.Follows d) :
    d.shared.log.clock = lastClock start.shared.log.clock d.outside.toList := by
  rw [follows.shared, Shared.clock_actAll]

theorem Drain.Follows.sinks {start d : Drain π} (follows : start.Follows d) :
    d.shared.log.hub.sinks = start.shared.log.hub.sinks := by
  rw [follows.shared, Shared.sinks_actAll]

theorem Drain.hub_ended (stages : List Stage) (previous : Option Log.Level) (done : Drain π) :
    (done.ended stages previous).shared.log.hub = (done.restored previous).shared.log.hub := rfl

theorem Drain.interrupts_ended (stages : List Stage) (previous : Option Log.Level) (done : Drain π) :
    (done.ended stages previous).shared.interrupts = done.shared.interrupts := by
  cases previous <;> rfl

theorem Drain.sinks_restored (previous : Option Log.Level) (done : Drain π) :
    (done.restored previous).shared.log.hub.sinks = done.shared.log.hub.sinks.erase done.sink :=
  (done.ask (.removeSink done.sink)).sinks_impose previous

theorem Drain.level_restored (previous : Option Log.Level) (done : Drain π) :
    (done.restored previous).shared.log.hub.level = previous.getD done.shared.log.hub.level :=
  (done.ask (.removeSink done.sink)).level_impose previous

end Loop

section Session

variable (π : Type) [Pipe π] [Pipe.Lawful π ringSize] (chunk : Nat) (args : String)
  (script : Script) (token : Token) (shared : Shared) (console : Console)

/-- The loop of a session at the moment the session leaves it, if the session gets there. -/
def leaving : Option (Drain π) :=
  match Request.ofArgs args with
  | .help => none
  | request =>
    match register π chunk request.level? script token shared console with
    | .error _ => none
    | .ok drain => drain.run

/-- What the others do while a session listens. -/
def meanwhile : List Action :=
  (leaving π chunk args script token shared console).elim [] fun d => d.outside.toList

variable {π chunk args script token shared console} {ended : Ended}

theorem run_of_accepted (accepted : Request.ofArgs args ≠ .help) :
    run π chunk args script token shared console =
      listen π chunk (Request.ofArgs args).level? script token shared console := by
  unfold run
  split
  · exact absurd ‹_› accepted
  · rfl

theorem leaving_of_accepted (accepted : Request.ofArgs args ≠ .help) :
    leaving π chunk args script token shared console =
      match register π chunk (Request.ofArgs args).level? script token shared console with
      | .error _ => none
      | .ok drain => drain.run := by
  unfold leaving
  split
  · exact absurd ‹_› accepted
  · rfl

/-- A session that leaves its loop returns. -/
theorem listen_of_left {request : Request} {done : Drain π} (accepted : request ≠ .help)
    (room : shared.log.hub.sinks.length < Log.Hub.capacity)
    (left : (opening π chunk request.level? script token shared console).flush.run = some done) :
    listen π chunk request.level? script token shared console =
      .ok (done.ended request.stages (request.level?.map fun _ => shared.log.hub.level)) := by
  simp only [listen, register_of_lt _ _ _ _ _ _ room, left]
  cases request with
  | help => contradiction
  | keepLevel => rfl
  | override level => rfl

/-- A session that returns either was turned away by a full sink table or has left its loop. -/
private theorem listen_cases {request : Request} (accepted : request ≠ .help)
    (returned : listen π chunk request.level? script token shared console = .ok ended) :
    (Log.Hub.capacity ≤ shared.log.hub.sinks.length ∧
      register π chunk request.level? script token shared console = .error ended ∧
      ended.result = .error .sinkTableFull ∧
      ended.shared.log.hub.sinks = shared.log.hub.sinks ∧
      ended.shared.log.hub.level = shared.log.hub.level ∧
      ended.shared.interrupts = shared.interrupts) ∨
    ∃ done, shared.log.hub.sinks.length < Log.Hub.capacity ∧
      (opening π chunk request.level? script token shared console).flush.run = some done ∧
      ended = done.ended request.stages (request.level?.map fun _ => shared.log.hub.level) := by
  rcases Nat.lt_or_ge shared.log.hub.sinks.length Log.Hub.capacity with room | full
  · cases left : (opening π chunk request.level? script token shared console).flush.run with
    | none =>
      simp only [listen, register_of_lt _ _ _ _ _ _ room, left] at returned
      cases returned
    | some done =>
      rw [listen_of_left accepted room left] at returned
      cases returned
      exact .inr ⟨done, room, rfl, rfl⟩
  · obtain ⟨refused, registered, facts⟩ :=
      register_of_le π chunk request.level? script token console full
    simp only [listen, registered] at returned
    cases returned
    exact .inl ⟨full, registered, facts⟩

/-- The three ways in which a session returns: its argument asks for help, the sink table is full,
or its token is cancelled. -/
theorem run_cases (returned : run π chunk args script token shared console = .ok ended) :
    (Request.ofArgs args = .help ∧ leaving π chunk args script token shared console = none ∧
      ended = {
        shared := shared
        result := .ok { visited := Request.help.stages }
        console := levelHelp.foldl (fun c line => c.write line) console }) ∨
    (Request.ofArgs args ≠ .help ∧ leaving π chunk args script token shared console = none ∧
      Log.Hub.capacity ≤ shared.log.hub.sinks.length ∧ ended.result = .error .sinkTableFull ∧
      ended.shared.log.hub.sinks = shared.log.hub.sinks ∧
      ended.shared.log.hub.level = shared.log.hub.level ∧
      ended.shared.interrupts = shared.interrupts) ∨
    ∃ done, Request.ofArgs args ≠ .help ∧
      leaving π chunk args script token shared console = some done ∧
      shared.log.hub.sinks.length < Log.Hub.capacity ∧
      (opening π chunk (Request.ofArgs args).level? script token shared console).flush.run =
        some done ∧
      ended = done.ended (Request.ofArgs args).stages
        ((Request.ofArgs args).level?.map fun _ => shared.log.hub.level) := by
  by_cases asked : Request.ofArgs args = .help
  · rw [run, asked] at returned
    cases returned
    exact .inl ⟨asked, by rw [leaving, asked], rfl⟩
  · rw [run_of_accepted asked] at returned
    rcases listen_cases asked returned with ⟨full, registered, facts⟩ | ⟨done, room, left, eq⟩
    · exact .inr (.inl ⟨asked, by rw [leaving_of_accepted asked, registered], full, facts⟩)
    · have registered := register_of_lt π chunk (Request.ofArgs args).level? script token console
        room
      refine .inr (.inr ⟨done, asked, ?_, room, left, eq⟩)
      rw [leaving_of_accepted asked, registered]
      exact left

/-- The loop of a session comes from its opening. -/
theorem follows_of_run (start : Drain π) {done : Drain π} (quiet : start.outside = {})
    (left : start.flush.run = some done) : start.Follows done := by
  have opened : start.Follows { start with console := start.console.flush } :=
    ⟨rfl, by simp [quiet, Shared.actAll], rfl⟩
  exact (Drain.kept_follows start).run ((Drain.kept_follows start).flush opened) left

/-- A session that is stopped at its first flush reads nothing. -/
theorem run_of_stopped (accepted : Request.ofArgs args ≠ .help)
    (room : shared.log.hub.sinks.length < Log.Hub.capacity)
    (stopped : (opening π chunk (Request.ofArgs args).level? script token shared
      console).flush.isCancelled = true) :
    leaving π chunk args script token shared console =
        some (opening π chunk (Request.ofArgs args).level? script token shared console).flush ∧
      ∃ ended, run π chunk args script token shared console = .ok ended := by
  have left := Drain.run_of_isCancelled stopped
  constructor
  · rw [leaving_of_accepted accepted, register_of_lt _ _ _ _ _ _ room]
    exact left
  · rw [run_of_accepted accepted, listen_of_left accepted room left]
    exact ⟨_, rfl⟩

/-- A session that leaves its loop takes its own sink out again. -/
theorem sinks_ended {request : Request} {done : Drain π} (stages : List Stage)
    (previous : Option Log.Level) (room : shared.log.hub.sinks.length < Log.Hub.capacity)
    (left : (opening π chunk request.level? script token shared console).flush.run = some done) :
    (done.ended stages previous).shared.log.hub.sinks =
      (shared.log.hub.sinks ++ [shared.log.hub.nextId]).erase shared.log.hub.nextId := by
  have follows := follows_of_run _ (by rfl) left
  have sinks := follows.sinks
  rw [sinks_opening _ _ _ _ _ _ _ room] at sinks
  rw [Drain.hub_ended, Drain.sinks_restored, sinks, follows.sink]
  rfl

/-- A session that returns leaves the sinks that there were, if its own has a new identity. -/
theorem sinks_of_run (fresh : shared.log.hub.nextId ∉ shared.log.hub.sinks)
    (returned : run π chunk args script token shared console = .ok ended) :
    ended.shared.log.hub.sinks = shared.log.hub.sinks := by
  rcases run_cases returned with ⟨-, -, rfl⟩ | ⟨-, -, -, -, sinks, -⟩ | ⟨done, -, -, room, left, rfl⟩
  · rfl
  · exact sinks
  · rw [sinks_ended _ _ room left, List.erase_append_right _ fresh, List.erase_cons_head,
      List.append_nil]

/-- It leaves the level that there was, unless others set one. -/
theorem level_of_run
    (untouched : ∀ level, .setLevel level ∉ meanwhile π chunk args script token shared console)
    (returned : run π chunk args script token shared console = .ok ended) :
    ended.shared.log.hub.level = shared.log.hub.level := by
  rcases run_cases returned with ⟨-, -, rfl⟩ | ⟨-, -, -, -, -, level, -⟩ |
    ⟨done, -, somewhere, -, left, rfl⟩
  · rfl
  · exact level
  · have level := (follows_of_run _ (by rfl) left).level
    rw [meanwhile, somewhere, Option.elim_some] at untouched
    rw [level_opening, lastLevel_of_untouched untouched] at level
    rw [Drain.hub_ended, Drain.level_restored, level]
    cases (Request.ofArgs args).level? <;> rfl

theorem numbered_impose {asked : Nat} (client : Client)
    (numbered : client.shared.log.hub.Numbered asked) (level : Option Log.Level) :
    (client.impose level).shared.log.hub.Numbered asked := by
  cases level with
  | none => exact numbered
  | some level => exact numbered.setLevel level

private theorem numbered_of_listen {asked : Nat} {request : Request}
    (accepted : request ≠ .help) (numbered : shared.log.hub.Numbered asked)
    (returned : listen π chunk request.level? script token shared console = .ok ended) :
    ended.shared.log.hub.Numbered (asked + 1) := by
  have added : ((({ shared := shared } : Client).impose
      request.level?).addSink.2).shared.log.hub.Numbered (asked + 1) :=
    (numbered_impose { shared := shared } numbered request.level?).addSink
  rcases listen_cases accepted returned with ⟨-, refused, -⟩ | ⟨done, -, left, rfl⟩
  · unfold register at refused
    dsimp only at refused
    split at refused
    · rename_i failure client attempt
      rw [attempt] at added
      cases refused
      exact numbered_impose _ added _
    · cases refused
  · have opened : (opening π chunk request.level? script token shared
        console).shared.log.hub.Numbered (asked + 1) := added
    have listened := Shared.numbered_actAll opened done.outside.toList
    rw [← (follows_of_run _ (by rfl) left).shared] at listened
    have quit : (done.ask (.removeSink done.sink)).shared.log.hub.Numbered (asked + 1) :=
      listened.removeSink done.sink
    rw [Drain.hub_ended]
    exact numbered_impose _ quit _

/-- It uses up one identity at most. -/
theorem numbered_of_run {asked : Nat} (numbered : shared.log.hub.Numbered asked)
    (returned : run π chunk args script token shared console = .ok ended) :
    ∃ more ≤ 1, ended.shared.log.hub.Numbered (asked + more) := by
  by_cases accepted : Request.ofArgs args = .help
  · rw [run, accepted] at returned
    cases returned
    exact ⟨0, Nat.zero_le 1, numbered⟩
  · rw [run_of_accepted accepted] at returned
    exact ⟨1, Nat.le_refl 1, numbered_of_listen accepted numbered returned⟩

end Session

end DeviceShell.Relay
