import DeviceShell.Proofs.Relay.Ending
import DeviceShell.Proofs.Relay.Restoration
import Mathlib.Data.List.Forall2

/-! What a session shows is what the log said, less what its ring had no room for. -/
namespace DeviceShell.Relay

section Loop

variable {π : Type} [Pipe π]

/-- The session's sink is in the table once, behind `others`. -/
structure Drain.Listens (others : List Log.SinkId) (d : Drain π) : Prop where
  sinks : d.shared.log.hub.sinks = others ++ [d.sink]
  fresh : d.sink ∉ others

/-- The records that the log has made for a session since `start`. -/
def Drain.records (start d : Drain π) : List String :=
  heard start.shared.log.hub.level start.shared.log.clock d.outside.toList

/-- The account of a session that began at `start`: it pushed `segments` to the terminal since the
banner, its ring accepted what it had room for of the records that arrived, and `lost` bytes found
no room. -/
structure Drain.Account (start d : Drain π) (segments : List Bytes) (lost : Nat) : Prop where
  follows : start.Follows d
  chunk : d.chunk = start.chunk
  flushed : d.console.flushed.toList = start.console.flush.flushed.toList ++ segments
  tail : d.console.tail = []
  arrived : d.intakes.toList.map Intake.record = start.records d
  accepted : ∀ i ∈ d.intakes.toList,
    i.accepted = min (Text.encode i.record).length (ringSize - i.queued)
  flow : segments.flatten ++ d.ring.toList = d.intakes.toList.flatMap Intake.part
  relayed : d.relayed = UInt64.ofNat segments.flatten.length
  dropped : d.ring.dropped = UInt64.ofNat lost
  total : (d.intakes.toList.flatMap Intake.part).length + lost =
    ((start.records d).flatMap Text.encode).length
  sized : ∀ segment ∈ segments, 1 ≤ segment.length ∧ segment.length ≤ chunkSize start.chunk

namespace Drain

variable {start d : Drain π} {others : List Log.SinkId}

theorem Listens.of_follows (listens : start.Listens others) (follows : start.Follows d) :
    d.Listens others where
  sinks := by rw [follows.sinks, follows.sink, listens.sinks]
  fresh := by
    rw [follows.sink]
    exact listens.fresh

/-- What an action delivers to the session's sink is what is heard of it. -/
theorem arriving_eq (listens : d.Listens others) (action : Action) :
    ((d.shared.deliveries action).filter fun delivery => delivery.sink = d.sink) =
      (heard d.shared.log.hub.level d.shared.log.clock [action]).map fun record =>
        ⟨d.sink, record⟩ := by
  cases action with
  | emit e =>
    by_cases allowed : d.shared.log.hub.level.allows e.level
    · have nobody : others.filter (fun id => decide (id = d.sink)) = [] := by
        rw [List.filter_eq_nil_iff]
        intro id member same
        exact listens.fresh (of_decide_eq_true same ▸ member)
      simp [Shared.deliveries, Log.Station.deliveries, Log.Hub.deliveries, heard, allowed,
        listens.sinks, List.filter_map, Function.comp_def, nobody]
    · simp [Shared.deliveries, Log.Station.deliveries, Log.Hub.deliveries, heard, allowed]
  | setLevel new => rfl
  | setClock new => rfl
  | raise => rfl
  | input byte => rfl

/-- What arrives at an inbox is what is heard of an action. -/
theorem inbox_act (listens : d.Listens others) (action : Action) :
    (d.act action).toInbox =
      (heard d.shared.log.hub.level d.shared.log.clock [action]).foldl Inbox.accept d.toInbox := by
  simp only [act, arriving_eq listens, List.foldl_map]

theorem records_act (follows : start.Follows d) (action : Action) :
    start.records (d.act action) =
      start.records d ++ heard d.shared.log.hub.level d.shared.log.clock [action] := by
  simp only [records, act, History.toList_push, heard_append, follows.level, follows.clock]

theorem heard_single (level : Log.Level) (clock : UInt64) (action : Action) :
    heard level clock [action] = [] ∨ ∃ record, heard level clock [action] = [record] := by
  cases action with
  | emit e =>
    by_cases allowed : level.allows e.level
    · exact .inr ⟨e.record clock, by simp [heard, allowed]⟩
    · exact .inl (by simp [heard, allowed])
  | setLevel new => exact .inl rfl
  | setClock new => exact .inl rfl
  | raise => exact .inl rfl
  | input byte => exact .inl rfl

variable [Pipe.Lawful π ringSize]

/-- What accepting a record does to an inbox. -/
theorem Inbox.accept_eq (inbox : Inbox π) (record : String) :
    ∃ i : Intake, i.record = record ∧ i.queued = inbox.ring.pending ∧
      i.accepted = min (Text.encode record).length (ringSize - i.queued) ∧
      (inbox.accept record).intakes.toList = inbox.intakes.toList ++ [i] ∧
      (inbox.accept record).ring.toList = inbox.ring.toList ++ i.part ∧
      (inbox.accept record).ring.dropped =
        inbox.ring.dropped + UInt64.ofNat ((Text.encode record).length - i.accepted) := by
  have accepted := inbox.ring.accepted_write (Text.encode record)
  refine ⟨⟨record, inbox.ring.pending, (inbox.ring.write (Text.encode record)).1⟩, rfl, rfl, accepted,
    History.toList_push _ _, ?_, rfl⟩
  have same : (Text.encode record).take (min (Text.encode record).length
      (ringSize - inbox.ring.pending)) =
        (Text.encode record).take (ringSize - inbox.ring.pending) := by
    rw [List.take_eq_take_iff]
    omega
  change (inbox.ring.write (Text.encode record)).2.toList = _
  rw [Ring.toList_write, Intake.part, accepted, same]

theorem Account.act {segments : List Bytes} {lost : Nat} (listens : start.Listens others)
    (account : start.Account d segments lost) (action : Action) :
    ∃ lost, start.Account (d.act action) segments lost := by
  have follows := (kept_follows start).act action account.follows
  have inbox := inbox_act (listens.of_follows account.follows) action
  have records := records_act account.follows action
  rcases heard_single d.shared.log.hub.level d.shared.log.clock action with nothing | ⟨record, one⟩
  · rw [nothing] at inbox records
    rw [List.append_nil] at records
    have ring : (d.act action).ring = d.ring := congrArg Inbox.ring inbox
    have intakes : (d.act action).intakes = d.intakes := congrArg Inbox.intakes inbox
    exact ⟨lost, follows, account.chunk, account.flushed, account.tail,
      by rw [intakes, records, account.arrived], by rw [intakes]; exact account.accepted,
      by rw [ring, intakes, account.flow], account.relayed, by rw [ring, account.dropped],
      by rw [intakes, records, account.total], account.sized⟩
  · rw [one] at inbox records
    obtain ⟨i, rfl, -, accepted, intakes, held, dropped⟩ := Inbox.accept_eq d.toInbox record
    rw [List.foldl_cons, List.foldl_nil] at inbox
    rw [← inbox] at intakes held dropped
    have taken : i.part.length = i.accepted := by
      rw [Intake.part, List.length_take]
      omega
    refine ⟨lost + ((Text.encode i.record).length - i.accepted), follows, account.chunk,
      account.flushed, account.tail, ?_, ?_, ?_, account.relayed, ?_, ?_, account.sized⟩
    · rw [intakes, records, List.map_append, account.arrived]
      rfl
    · rw [intakes]
      intro j member
      rcases List.mem_append.mp member with earlier | last
      · exact account.accepted j earlier
      · rw [List.mem_singleton.mp last]
        exact accepted
    · rw [intakes, held, List.flatMap_append, ← account.flow, List.append_assoc,
        List.flatMap_singleton]
    · rw [dropped, account.dropped, UInt64.ofNat_add]
    · have total := account.total
      rw [intakes, records, List.flatMap_append, List.flatMap_append, List.length_append,
        List.length_append, ← total, List.flatMap_singleton, List.flatMap_singleton, taken]
      omega

/-- Whatever has arrived has been shown, is still in the ring, or found no room. -/
theorem Account.whole {segments : List Bytes} {lost : Nat}
    (account : start.Account d segments lost) :
    segments.flatten.length + d.ring.pending + lost =
      ((start.records d).flatMap Text.encode).length := by
  rw [← account.total, ← account.flow, List.length_append, Ring.pending_eq]

theorem nextChunk_eq (d : Drain π) : d.nextChunk = d.ring.toList.take (chunkSize d.chunk) :=
  (Ring.toList_read _ d.ring).1

theorem toList_idled (d : Drain π) :
    d.idled.ring.toList = d.ring.toList.drop (chunkSize d.chunk) :=
  (Ring.toList_read _ d.ring).2

theorem Account.idled {segments : List Bytes} {lost : Nat}
    (account : start.Account d segments lost) (nothing : d.nextChunk = []) :
    start.Account d.idled segments lost where
  follows := ⟨account.follows.sink, account.follows.shared, account.follows.asked⟩
  chunk := account.chunk
  flushed := account.flushed
  tail := account.tail
  flow := by
    have whole := List.take_append_drop (chunkSize d.chunk) d.ring.toList
    rw [← nextChunk_eq, nothing, List.nil_append] at whole
    rw [toList_idled, whole]
    exact account.flow
  arrived := account.arrived
  accepted := account.accepted
  relayed := account.relayed
  dropped := account.dropped
  total := account.total
  sized := account.sized

theorem Account.showed {segments : List Bytes} {lost : Nat}
    (account : start.Account d segments lost) (something : d.nextChunk ≠ []) :
    start.Account d.showed (segments ++ [d.nextChunk]) lost where
  follows := ⟨account.follows.sink, account.follows.shared, account.follows.asked⟩
  chunk := account.chunk
  flushed := by
    rw [flushed_showed, account.flushed, account.tail, List.nil_append, List.append_assoc]
  tail := rfl
  flow := by
    have rest : d.showed.ring.toList = d.ring.toList.drop (chunkSize d.chunk) := d.toList_idled
    rw [rest, List.flatten_append, List.flatten_singleton, List.append_assoc, nextChunk_eq,
      List.take_append_drop]
    exact account.flow
  arrived := account.arrived
  accepted := account.accepted
  relayed := by
    have grown : d.showed.relayed = d.relayed + UInt64.ofNat d.nextChunk.length := rfl
    rw [grown, account.relayed, ← UInt64.ofNat_add, List.flatten_append, List.flatten_singleton,
      List.length_append]
  dropped := account.dropped
  total := account.total
  sized := by
    intro segment member
    rcases List.mem_append.mp member with earlier | last
    · exact account.sized segment earlier
    · obtain rfl := List.mem_singleton.mp last
      refine ⟨List.length_pos_of_ne_nil something, ?_⟩
      rw [nextChunk_eq, account.chunk]
      exact List.length_take_le _ _

/-- Every change in the loop keeps an account. -/
theorem kept_account (listens : start.Listens others) :
    Drain.Kept fun d => ∃ segments lost, start.Account d segments lost where
  act action kept := by
    obtain ⟨segments, lost, account⟩ := kept
    exact ⟨segments, account.act listens action⟩
  script script kept := by
    obtain ⟨segments, lost, account⟩ := kept
    exact ⟨segments, lost, ⟨account.follows.sink, account.follows.shared, account.follows.asked⟩,
      account.chunk, account.flushed, account.tail, account.arrived, account.accepted, account.flow,
      account.relayed, account.dropped, account.total, account.sized⟩
  idled kept nothing := by
    obtain ⟨segments, lost, account⟩ := kept
    exact ⟨segments, lost, account.idled nothing⟩
  showed kept something := by
    obtain ⟨segments, lost, account⟩ := kept
    exact ⟨segments ++ [_], lost, account.showed something⟩

/-- At the first flush nothing has arrived. -/
theorem account_opened (quiet : start.outside = {}) (empty : start.toInbox = {})
    (unread : start.relayed = 0) :
    start.Account { start with console := start.console.flush } [] 0 where
  follows := ⟨rfl, by simp [quiet, Shared.actAll], rfl⟩
  chunk := rfl
  flushed := (List.append_nil _).symm
  tail := rfl
  arrived := by simp [records, quiet, heard, empty]
  accepted := by simp [empty]
  flow := by
    rw [empty]
    change Pipe.contents (Pipe.empty : π) = []
    exact Pipe.Lawful.contents_empty
  relayed := unread
  dropped := by rw [empty]; rfl
  total := by simp [records, quiet, heard, empty]
  sized := by simp

end Drain

end Loop

/-- What a session has shown that is over, having left its loop as `done`: of the `records` that the
log has made since it listens, what its ring had room for, in segments of a certain size. -/
structure Ended.Relays {π : Type} [Pipe π] (ended : Ended) (console : Console) (level : Log.Level)
    (size : Nat) (records : List String) (done : Drain π) (segments : List Bytes) (report : Report) :
    Prop where
  result : ended.result = .ok report
  flushed : ended.console.flushed.toList = console.flushed.toList ++
    (console.tail ++ Text.encode (levelLine level) ++ Text.encode banner) :: segments
  tail : ended.console.tail = []
  arrived : done.intakes.toList.map Intake.record = records
  /-- Of each record the ring has accepted as much as it had room for at that moment. -/
  accepted : ∀ i ∈ done.intakes.toList,
    i.accepted = min (Text.encode i.record).length (ringSize - i.queued)
  prefixes : List.Forall₂ (fun part record => part <+: Text.encode record)
    (done.intakes.toList.map Intake.part) records
  /-- What has not been shown is still in the ring, -/
  flow : segments.flatten ++ done.ring.toList = done.intakes.toList.flatMap Intake.part
  relayed : report.relayed = UInt64.ofNat segments.flatten.length
  /-- or else it has been counted as dropped. -/
  counted : report.relayed + UInt64.ofNat done.ring.pending + report.dropped =
    UInt64.ofNat (records.flatMap Text.encode).length
  whole : (records.flatMap Text.encode).length < UInt64.size →
    report.relayed.toNat + done.ring.pending + report.dropped.toNat =
      (records.flatMap Text.encode).length
  sized : ∀ segment ∈ segments, 1 ≤ segment.length ∧ segment.length ≤ size

section Session

variable (π : Type) [Pipe π] [Pipe.Lawful π ringSize] (chunk : Nat) (args : String)
  (script : Script) (token : Token) (shared : Shared) (console : Console)

/-- The records that the log makes while a session listens, each at the level of its moment. -/
def said : List String :=
  heard ((Request.ofArgs args).level?.getD shared.log.hub.level) shared.log.clock
    (meanwhile π chunk args script token shared console)

variable {π chunk args script token shared console} {ended : Ended}

/-- The account of a loop, read as what the session has shown when it is over. -/
theorem Drain.Account.relays {level : Option Log.Level} {done : Drain π} {segments : List Bytes}
    {lost : Nat}
    (account : (opening π chunk level script token shared console).Account done segments lost)
    (stages : List Stage) (previous : Option Log.Level) :
    (done.ended stages previous).Relays console (level.getD shared.log.hub.level) (chunkSize chunk)
      ((opening π chunk level script token shared console).records done) done segments
      (done.report stages previous) where
  result := rfl
  flushed := by
    refine account.flushed.trans ?_
    simp [opening, Console.flush, Console.write, Console.writeBytes]
  tail := account.tail
  arrived := account.arrived
  accepted := account.accepted
  prefixes := by
    rw [← account.arrived, List.forall₂_map_left_iff, List.forall₂_map_right_iff, List.forall₂_same]
    exact fun i _ => List.take_prefix _ _
  flow := account.flow
  relayed := account.relayed
  counted := by
    change done.relayed + _ + done.ring.dropped = _
    rw [account.relayed, account.dropped, ← UInt64.ofNat_add, ← UInt64.ofNat_add, account.whole]
  whole := by
    intro fits
    change done.relayed.toNat + _ + done.ring.dropped.toNat = _
    have whole := account.whole
    have shown : segments.flatten.length < UInt64.size := by omega
    have missed : lost < UInt64.size := by omega
    rw [account.relayed, account.dropped, UInt64.toNat_ofNat_of_lt' shown,
      UInt64.toNat_ofNat_of_lt' missed, whole]
  sized := account.sized

/-- A session that does not find the sink table full shows what the log says while it listens: of
each record, in order, the front that its ring has room for. What it has not shown when it leaves is
still in the ring or counted as dropped. So it is if its sink has a new identity, which it has if
the log has registered fewer than 2^32 sinks before. -/
theorem run_relays (accepted : Request.ofArgs args ≠ .help)
    (room : shared.log.hub.sinks.length < Log.Hub.capacity)
    (returned : run π chunk args script token shared console = .ok ended) :
    let level := (Request.ofArgs args).level?.getD shared.log.hub.level
    let relayed : Prop := ∃ done segments report,
      leaving π chunk args script token shared console = some done ∧
      ended.Relays console level (chunkSize chunk)
        (said π chunk args script token shared console) done segments report
    (shared.log.hub.nextId ∉ shared.log.hub.sinks → relayed) ∧
    ∀ level calls, shared.log.hub = ({ level := level } : Log.Hub).callAll calls →
      calls.count .addSink < UInt32.size → relayed := by
  intro level relayed
  have shows (fresh : shared.log.hub.nextId ∉ shared.log.hub.sinks) : relayed := by
    rcases run_cases returned with ⟨asked, -⟩ | ⟨-, -, full, -⟩ |
      ⟨done, -, somewhere, -, left, rfl⟩
    · exact absurd asked accepted
    · exact absurd room (Nat.not_lt.mpr full)
    · have listens : Drain.Listens shared.log.hub.sinks
          (opening π chunk (Request.ofArgs args).level? script token shared console) :=
        ⟨sinks_opening _ _ _ _ _ _ _ room, fresh⟩
      obtain ⟨segments, lost, account⟩ := (Drain.kept_account listens).run
        ((Drain.kept_account listens).flush ⟨[], 0, Drain.account_opened rfl rfl rfl⟩) left
      have heard_all :
          (opening π chunk (Request.ofArgs args).level? script token shared console).records done =
            said π chunk args script token shared console := by
        simp [Drain.records, said, meanwhile, somewhere, level_opening, clock_opening]
      have relays := account.relays (Request.ofArgs args).stages
        ((Request.ofArgs args).level?.map fun _ => shared.log.hub.level)
      rw [heard_all] at relays
      exact ⟨done, segments, _, somewhere, relays⟩
  exact ⟨shows, fun _ _ made few => shows (Log.Hub.nextId_notMem_callAll made few)⟩

/-- A session that hears one record, and is stopped when it has shown it. -/
theorem run_relays_watched :
    ∃ ended segments report,
      run (Circle ringSize) 64 "" { flushes := [{ actions := [.emit ⟨.warn, "app", ["hello"]⟩] }] } ⟨0⟩
          watched {} = .ok ended ∧
      ended.console.flushed.toList =
        (Text.encode (levelLine .warn) ++ Text.encode banner) :: segments ∧
      segments = [Text.encode "0 [W][app] hello\r\n"] ∧
      (∀ segment ∈ segments, 1 ≤ segment.length ∧ segment.length ≤ 64) ∧
      ended.result = .ok report ∧ report.relayed = 18 := by
  have asked : Request.ofArgs "" = .keepLevel := by decide +kernel
  have accepted : Request.ofArgs "" ≠ .help := by
    rw [asked]
    exact Request.noConfusion
  have returned : run (Circle ringSize) 64 ""
      { flushes := [{ actions := [.emit ⟨.warn, "app", ["hello"]⟩] }] } ⟨0⟩ watched {} = .ok _ :=
    (run_of_accepted accepted).trans (listen_of_left accepted (by decide)
      ((Drain.run_of_step (by decide +kernel) (Drain.step_of_pending (by decide +kernel))).trans
        (Drain.run_of_isCancelled (by decide +kernel))))
  obtain ⟨done, segments, report, -, relays⟩ :=
    (run_relays accepted (by decide) returned).1 (by decide)
  have shown := relays.flushed
  rw [asked] at shown
  have printed := shown.symm.trans (show _ = [Text.encode (levelLine .warn) ++ Text.encode banner,
    Text.encode "0 [W][app] hello\r\n"] by decide +kernel)
  have hello : segments = [Text.encode "0 [W][app] hello\r\n"] := (List.cons.inj printed).2
  refine ⟨_, segments, report, returned, shown, hello, relays.sized, relays.result, ?_⟩
  rw [relays.relayed, hello]
  decide +kernel

end Session

end DeviceShell.Relay
