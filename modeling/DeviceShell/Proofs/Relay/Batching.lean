import DeviceShell.Proofs.Relay.Drying

/-! Sessions that have been told everything before they first read. However many bytes such a
session takes at a time it shows the same ones, and only cuts them at other places. -/
namespace DeviceShell.Relay

/-- A session that has been told everything before its first read, and is cancelled after that when
it has nothing queued. -/
structure Batched {π : Type} [Pipe π] (events : List (Event π)) : Prop where
  told : ∀ earlier beat later e, events = earlier ++ .act beat :: later → beat.action = .emit e →
    readCount earlier = 0 ∧ beat.place = .flush ∧ beat.before.isCancelled = false
  dry : ∀ beat, .act beat ∈ events → beat.Raises → beat.before.ring.pending = 0
  cancelled : ∃ beat, .act beat ∈ events ∧ beat.Raises

namespace Batched

variable {π : Type} [Pipe π] [Pipe.Lawful π ringSize] {start done : Drain π}
  {others : List Log.SinkId}

theorem silent (batched : Batched (start.flushEvents ++ start.flush.events)) :
    Silent (actionsOf start.flush.events) := by
  refine Drain.silent_events fun earlier beat later e inside spoken => ?_
  obtain ⟨unread, flush, -⟩ := batched.told (start.flushEvents ++ earlier) beat later e
    (by rw [inside, List.append_assoc]) spoken
  rw [readCount_append] at unread
  exact ⟨(Nat.add_eq_zero_iff.mp unread).2, flush⟩

/-- It is over with nothing queued. -/
theorem pending_eq_zero (batched : Batched (start.flushEvents ++ start.flush.events))
    (left : start.flush.run = some done) : done.ring.pending = 0 := by
  have running : start.flushing.isCancelled = false := by
    refine Bool.eq_false_iff.mpr fun cancelled => ?_
    obtain ⟨beat, member, raises⟩ := batched.cancelled
    rw [Drain.flush_eq_actAll, Drain.events_of_isCancelled (Drain.kept_isCancelled.actAll _ cancelled),
      List.append_nil] at member
    obtain ⟨-, earlier, -, -, before⟩ := Drain.of_mem_acts member
    have already := Drain.kept_isCancelled.actAll earlier cancelled
    rw [← before, raises.1] at already
    cases already
  refine Drain.pending_of_run left batched.silent
    (fun beat member => batched.dry beat (List.mem_append_right _ member)) fun cancelled => ?_
  rw [Drain.flush_eq_actAll] at cancelled ⊢
  refine Drain.pending_actAll running cancelled
    (fun beat member => batched.dry beat (List.mem_append_left _ member)) fun beat e member spoken => ?_
  obtain ⟨earlier, later, split⟩ := List.append_of_mem member
  exact (batched.told earlier beat (later ++ start.flush.events) e
    (by rw [Drain.flushEvents, split, List.append_assoc, List.cons_append]) spoken).2.2

/-- By then it has shown what its ring had room for, and counted the rest. -/
theorem shown (batched : Batched (start.flushEvents ++ start.flush.events))
    (listens : start.Listens others) (empty : start.toInbox = {}) (unread : start.relayed = 0)
    (left : start.flush.run = some done) :
    let bytes := (heard start.shared.log.hub.level start.shared.log.clock
      (start.script.flushes.headD {}).actions).flatMap Text.encode
    done.console.flushed.toList = start.console.flush.flushed.toList ++
        pieces (chunkSize start.chunk) (bytes.take ringSize) ∧
      done.console.tail = [] ∧
      done.relayed.toNat = (bytes.take ringSize).length ∧
      done.ring.dropped = UInt64.ofNat (bytes.length - ringSize) := by
  intro bytes
  have offered : start.flush.ring.Offered ringSize bytes := Drain.offered_flush listens empty
  have console : start.flush.console = start.console.flush := by
    rw [Drain.flush_eq_actAll, Drain.console_actAll]
    rfl
  obtain ⟨chunk, relayed⟩ : start.flush.chunk = start.chunk ∧ start.flush.relayed = 0 := by
    rw [Drain.flush_eq_actAll, ← unread]
    exact Drain.frame_actAll start.flushing _
  obtain ⟨later, outside, delivers⟩ := (Drain.kept_delivers start.flush).run
    ⟨[], (List.append_nil _).symm, fun _ => ⟨[], Drain.delivers_self (by rw [console]; rfl)⟩⟩ left
  have same : later = actionsOf start.flush.events :=
    List.append_cancel_left (outside.symm.trans (Drain.run_counts left).2)
  obtain ⟨segments, delivers⟩ := delivers (same ▸ batched.silent)
  have dry := batched.pending_eq_zero left
  rw [Ring.pending_eq, List.length_eq_zero_iff] at dry
  have cut := delivers.rest
  rw [dry, pieces_nil, List.append_nil, chunk, offered.toList] at cut
  refine ⟨?_, delivers.tail, ?_, delivers.dropped.trans offered.dropped⟩
  · rw [delivers.flushed, console, cut]
  · have short : (bytes.take ringSize).length < UInt64.size :=
      Nat.lt_of_le_of_lt (List.length_take_le _ _) (by decide)
    rw [delivers.relayed, relayed, UInt64.zero_add, cut, flatten_pieces (chunkSize_pos _),
      UInt64.toNat_ofNat_of_lt' short]

end Batched

/-- A session that is over has shown bytes in pieces of one size, and has lost as many others. -/
structure Ended.Cuts (ended : Ended) (console : Console) (level : Log.Level) (size : Nat)
    (bytes : Bytes) (lost : Nat) (segments : List Bytes) (report : Report) : Prop where
  result : ended.result = .ok report
  flushed : ended.console.flushed.toList = console.flushed.toList ++
    (console.tail ++ Text.encode (levelLine level) ++ Text.encode banner) :: segments
  tail : ended.console.tail = []
  whole : segments.flatten = bytes
  count : segments.length = bytes.length ⌈/⌉ size
  full : ∀ segment ∈ segments.dropLast, segment.length = size
  relayed : report.relayed.toNat = bytes.length
  dropped : report.dropped = UInt64.ofNat lost

section Session

variable {π : Type} [Pipe π] [Pipe.Lawful π ringSize] {chunk : Nat} {args : String}
  {script : Script} {token : Token} {shared : Shared} {console : Console}

/-- A session that is told everything before its first read shows what its ring has room for. -/
theorem cuts_of_batched (accepted : Request.ofArgs args ≠ .help)
    (fresh : shared.log.hub.nextId ∉ shared.log.hub.sinks)
    (batched : Batched (course π chunk args script token shared console)) :
    let level := (Request.ofArgs args).level?.getD shared.log.hub.level
    let bytes := (heard level shared.log.clock (script.flushes.headD {}).actions).flatMap Text.encode
    ∃ ended segments report, run π chunk args script token shared console = .ok ended ∧
      ended.Cuts console level (chunkSize chunk) (bytes.take ringSize) (bytes.length - ringSize)
        segments report := by
  intro level bytes
  obtain ⟨beat, member, raises⟩ := batched.cancelled
  obtain ⟨earlier, later, split⟩ := List.append_of_mem member
  obtain ⟨room, done, left, -⟩ := left_of_raised split raises
  have listens : Drain.Listens shared.log.hub.sinks
      (opening π chunk (Request.ofArgs args).level? script token shared console) :=
    ⟨sinks_opening _ _ _ _ _ _ _ room, fresh⟩
  rw [course, if_pos room] at batched
  obtain ⟨flushed, tail, relayed, dropped⟩ := batched.shown listens rfl rfl left
  rw [level_opening, clock_opening] at flushed relayed dropped
  have pos := chunkSize_pos chunk
  refine ⟨_, pieces (chunkSize chunk) (bytes.take ringSize), _,
    (run_of_accepted accepted).trans (listen_of_left accepted room left), rfl,
    flushed.trans ?_, tail, flatten_pieces pos _, length_pieces pos _,
    fun _ => length_of_mem_dropLast_pieces pos, relayed, dropped⟩
  simp [opening, bytes, level, Console.flush, Console.write, Console.writeBytes]

end Session

/-- The script of those who say some things at the first flush, and cancel the session at the flush
that leaves nothing queued. -/
def Script.saying (emissions : List Log.Emission) : Script :=
  { flushes := [{ actions := emissions.map .emit }] }

namespace Drain

variable {π : Type} [Pipe π]

/-- What is said has no say in whether a session is cancelled. -/
theorem interrupts_saying (d : Drain π) (emissions : List Log.Emission) :
    (d.actAll (emissions.map .emit)).shared.interrupts = d.shared.interrupts ∧
      (d.actAll (emissions.map .emit)).token = d.token := by
  induction emissions generalizing d with
  | nil => exact ⟨rfl, rfl⟩
  | cons e later ih => exact ih (d.act (.emit e))

theorem isCancelled_saying (d : Drain π) (emissions : List Log.Emission) :
    (d.actAll (emissions.map .emit)).isCancelled = d.isCancelled := by
  obtain ⟨interrupts, token⟩ := d.interrupts_saying emissions
  rw [isCancelled, interrupts, token, isCancelled]

theorem batched_saying [Pipe.Lawful π ringSize] {d : Drain π} {emissions : List Log.Emission}
    (script : d.script = .saying emissions) (heeds : d.shared.interrupts.Heeds d.token)
    (running : d.isCancelled = false) :
    Batched (d.flushEvents ++ d.flush.events) := by
  have moment : d.script.flushes.headD {} = { actions := emissions.map .emit } := by rw [script]; rfl
  have stops : d.script.stopsWhenDrained = true := by rw [script]; rfl
  have alone : (d.flushing.actAll (emissions.map .emit)).script = {} := by
    rw [script_actAll]
    change d.script.passed = {}
    rw [script]
    rfl
  have going : (d.flushing.actAll (emissions.map .emit)).isCancelled = false :=
    (isCancelled_saying _ _).trans running
  have heeding : (d.flushing.actAll (emissions.map .emit)).shared.interrupts.Heeds
      (d.flushing.actAll (emissions.map .emit)).token := by
    obtain ⟨interrupts, token⟩ := d.flushing.interrupts_saying emissions
    rw [interrupts, token]
    exact heeds
  obtain ⟨rest, events, watched⟩ := watched_flush moment stops heeding going
    (watched_events alone heeding going)
  rw [events]
  refine ⟨fun earlier beat later e split speaks => ?_, fun beat member raises => ?_, ?_⟩
  · rcases append_split split with ⟨behind, front, -⟩ | ⟨between, -, back⟩
    · obtain ⟨place, before, after, spoken, reached⟩ :=
        of_mem_acts (front ▸ List.mem_append_right _ List.mem_cons_self)
      have unread : readCount earlier + readCount (.act beat :: behind) = 0 := by
        rw [← readCount_append, ← front, readCount_acts]
      obtain ⟨first, -, -, rfl, -⟩ := List.map_eq_append_iff.mp spoken
      exact ⟨(Nat.add_eq_zero_iff.mp unread).1, place,
        by rw [reached, isCancelled_saying]; exact running⟩
    · have raise := (watched.raise beat (back ▸ List.mem_append_right _ List.mem_cons_self)).1
      cases raise.symm.trans speaks
  · rcases List.mem_append.mp member with front | back
    · obtain ⟨-, before, after, spoken, -⟩ := of_mem_acts front
      obtain ⟨e, -, emits⟩ := List.mem_map.mp
        (spoken ▸ List.mem_append_right before List.mem_cons_self)
      have still := raises.2
      rw [← emits] at still
      cases raises.1.symm.trans still
    · exact (watched.raise beat back).2
  · obtain ⟨beat, member, raises⟩ := watched.raises
    exact ⟨beat, List.mem_append_right _ member, raises⟩

end Drain

section Session

variable {π : Type} [Pipe π] [Pipe.Lawful π ringSize] {token : Token} {shared : Shared}
  {console : Console}

/-- Whatever is said like that, and however much is taken at a time, the session is batched. -/
theorem batched_saying (π : Type) [Pipe π] [Pipe.Lawful π ringSize] (chunk : Nat) (args : String)
    (console : Console) (emissions : List Log.Emission)
    (room : shared.log.hub.sinks.length < Log.Hub.capacity)
    (heeds : shared.interrupts.Heeds token) (running : shared.interrupts.isCancelled token = false) :
    Batched (course π chunk args (.saying emissions) token shared console) := by
  have interrupts := interrupts_opening π chunk (Request.ofArgs args).level? (.saying emissions) token
    shared console
  rw [course, if_pos room]
  refine Drain.batched_saying rfl ?_ ?_
  · rw [interrupts]
    exact heeds
  · rw [Drain.isCancelled, interrupts]
    exact running

/-- Two sessions that are told the same before they first read, and are cancelled when they have
nothing queued, show the same bytes and lose the same number of others, however many each takes at a
time. So they do if their sinks have new identities, which they have if the log has registered fewer
than 2^32 sinks before. -/
theorem run_batched {chunk₁ chunk₂ : Nat} {args : String} {script₁ script₂ : Script}
    {spoken : List Action} (accepted : Request.ofArgs args ≠ .help)
    (told₁ : (script₁.flushes.headD {}).actions = spoken)
    (told₂ : (script₂.flushes.headD {}).actions = spoken)
    (batched₁ : Batched (course π chunk₁ args script₁ token shared console))
    (batched₂ : Batched (course π chunk₂ args script₂ token shared console)) :
    let level := (Request.ofArgs args).level?.getD shared.log.hub.level
    let bytes := (heard level shared.log.clock spoken).flatMap Text.encode
    let alike : Prop := ∃ ended₁ segments₁ report₁ ended₂ segments₂ report₂,
      run π chunk₁ args script₁ token shared console = .ok ended₁ ∧
      run π chunk₂ args script₂ token shared console = .ok ended₂ ∧
      ended₁.Cuts console level (chunkSize chunk₁) (bytes.take ringSize) (bytes.length - ringSize)
        segments₁ report₁ ∧
      ended₂.Cuts console level (chunkSize chunk₂) (bytes.take ringSize) (bytes.length - ringSize)
        segments₂ report₂ ∧
      segments₁.flatten = segments₂.flatten ∧
      report₁.relayed = report₂.relayed ∧ report₁.dropped = report₂.dropped
    (shared.log.hub.nextId ∉ shared.log.hub.sinks → alike) ∧
    ∀ level calls, shared.log.hub = ({ level := level } : Log.Hub).callAll calls →
      calls.count .addSink < UInt32.size → alike := by
  intro level bytes alike
  have agree (fresh : shared.log.hub.nextId ∉ shared.log.hub.sinks) : alike := by
    obtain ⟨ended₁, segments₁, report₁, returned₁, cuts₁⟩ := cuts_of_batched accepted fresh batched₁
    obtain ⟨ended₂, segments₂, report₂, returned₂, cuts₂⟩ := cuts_of_batched accepted fresh batched₂
    rw [told₁] at cuts₁
    rw [told₂] at cuts₂
    exact ⟨ended₁, segments₁, report₁, ended₂, segments₂, report₂, returned₁, returned₂, cuts₁, cuts₂,
      cuts₁.whole.trans cuts₂.whole.symm,
      UInt64.toNat.inj (cuts₁.relayed.trans cuts₂.relayed.symm),
      cuts₁.dropped.trans cuts₂.dropped.symm⟩
  exact ⟨agree, fun _ _ made few => agree (Log.Hub.nextId_notMem_callAll made few)⟩

/-- The same record, byte by byte and in one piece. -/
theorem run_batched_watched :
    let script : Script := .saying [⟨.warn, "app", ["hello"]⟩, ⟨.info, "app", ["unheard"]⟩]
    ∃ ended₁ segments₁ report₁ ended₂ segments₂ report₂,
      run (Circle ringSize) 0 "" script ⟨0⟩ watched {} = .ok ended₁ ∧
      run (Circle ringSize) 1000 "" script ⟨0⟩ watched {} = .ok ended₂ ∧
      ended₁.Cuts {} .warn 1 (Text.encode "0 [W][app] hello\r\n") 0 segments₁ report₁ ∧
      ended₂.Cuts {} .warn 256 (Text.encode "0 [W][app] hello\r\n") 0 segments₂ report₂ ∧
      segments₁.length = 18 ∧ segments₂.length = 1 := by
  intro script
  have asked : Request.ofArgs "" = .keepLevel := by decide +kernel
  have accepted : Request.ofArgs "" ≠ .help := by
    rw [asked]
    exact Request.noConfusion
  have heeds : watched.interrupts.Heeds ⟨0⟩ := ⟨rfl, by decide⟩
  have batched (chunk : Nat) : Batched (course (Circle ringSize) chunk "" script ⟨0⟩ watched {}) :=
    batched_saying (Circle ringSize) chunk "" {} _ (by decide) heeds rfl
  have level : (Request.ofArgs "").level?.getD watched.log.hub.level = .warn := by
    rw [asked]
    rfl
  have bytes : (heard .warn watched.log.clock (script.flushes.headD {}).actions).flatMap Text.encode =
      Text.encode "0 [W][app] hello\r\n" := by decide +kernel
  have whole : (Text.encode "0 [W][app] hello\r\n").take ringSize =
      Text.encode "0 [W][app] hello\r\n" := by decide +kernel
  have nothing : (Text.encode "0 [W][app] hello\r\n").length - ringSize = 0 := by decide +kernel
  obtain ⟨ended₁, segments₁, report₁, ended₂, segments₂, report₂, returned₁, returned₂, cuts₁,
      cuts₂, -⟩ :=
    (run_batched accepted rfl rfl (batched 0) (batched 1000)).1 (by decide)
  rw [level, bytes, whole, nothing] at cuts₁ cuts₂
  refine ⟨ended₁, segments₁, report₁, ended₂, segments₂, report₂, returned₁, returned₂, cuts₁, cuts₂,
    ?_, ?_⟩
  · rw [cuts₁.count]
    decide +kernel
  · rw [cuts₂.count]
    decide +kernel

end Session

end DeviceShell.Relay
