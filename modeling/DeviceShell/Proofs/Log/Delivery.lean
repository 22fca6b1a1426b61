import DeviceShell.Log.Calls
import DeviceShell.Proofs.Log.Registration
import DeviceShell.Proofs.Relay.Outside

/-! What a sink receives: the records of everything that is said while it is registered and that the
level at that moment allows, and nothing else. -/
namespace DeviceShell.Log

/-- An identity that has been handed out, `asked` of them being spent. -/
def SinkId.Spent (asked : Nat) (id : SinkId) : Prop :=
  ∃ turn < asked, id = ⟨UInt32.ofNat (turn + 1)⟩

theorem SinkId.Spent.mono {asked more : Nat} {id : SinkId} (spent : id.Spent asked)
    (fewer : asked ≤ more) : id.Spent more := by
  obtain ⟨turn, earlier, eq⟩ := spent
  exact ⟨turn, Nat.lt_of_lt_of_le earlier fewer, eq⟩

/-- Before the counter comes round, the next identity is a new one. -/
theorem SinkId.Spent.ne_nextId {asked : Nat} {id : SinkId} {hub : Hub} (spent : id.Spent asked)
    (numbered : hub.Numbered asked) (few : asked + 1 < UInt32.size) : id ≠ hub.nextId := by
  obtain ⟨turn, earlier, rfl⟩ := spent
  rw [numbered.next]
  intro same
  have numbers := congrArg (fun id : SinkId => id.number.toNat) same
  simp only [UInt32.toNat_ofNat'] at numbers
  simp only [UInt32.size] at few
  omega

namespace Station

namespace Call

/-- The part of a call that concerns the table or the level. -/
def onHub : Call → List Hub.Call
  | .addSink => [.addSink]
  | .removeSink id => [.removeSink id]
  | .setLevel level => [.setLevel level]
  | .setClock _ | .emit _ | .log _ _ _ => []

/-- The part of a call that any task may do, whether it knows about sinks or not. -/
def acts : Call → List Action
  | .addSink | .removeSink _ => []
  | .setLevel level => [.setLevel level]
  | .setClock clock => [.setClock clock]
  | .emit e => [.emit e]
  | .log severity target message => [.emit ⟨severity.level, target, message⟩]

end Call

/-- The records of what is said by later calls: each at the level and with the clock of its moment,
which earlier calls may have set. -/
def records (earlier later : List Call) : List String :=
  heard (lastLevel .unset (earlier.flatMap Call.acts)) (lastClock 0 (earlier.flatMap Call.acts))
    (later.flatMap Call.acts)

variable {asked : Nat} {s : Station} {id : SinkId} {calls : List Call}

@[simp] theorem callAll_cons (s : Station) (c : Call) (later : List Call) :
    s.callAll (c :: later) = (s.call c).callAll later := rfl

@[simp] theorem callAll_append (s : Station) (first second : List Call) :
    s.callAll (first ++ second) = (s.callAll first).callAll second :=
  List.foldl_append

theorem hub_call (s : Station) (c : Call) : (s.call c).hub = s.hub.callAll c.onHub := by
  cases c <;> rfl

theorem level_call (s : Station) (c : Call) :
    (s.call c).hub.level = lastLevel s.hub.level c.acts := by
  cases c with
  | addSink => exact s.hub.level_addSink
  | removeSink id => rfl
  | setLevel level => rfl
  | setClock clock => rfl
  | emit e => rfl
  | log severity target message => rfl

theorem clock_call (s : Station) (c : Call) : (s.call c).clock = lastClock s.clock c.acts := by
  cases c <;> rfl

/-- A call delivers its record, if it has one, to each sink in the order of the table. -/
theorem journal_call (s : Station) (c : Call) :
    (s.call c).journal.toList = s.journal.toList ++
      (heard s.hub.level s.clock c.acts).flatMap fun record =>
        s.hub.sinks.map fun id => ⟨id, record⟩ := by
  have said (e : Emission) : (s.emit e).journal.toList = s.journal.toList ++
      (heard s.hub.level s.clock [.emit e]).flatMap fun record =>
        s.hub.sinks.map fun id => ⟨id, record⟩ := by
    by_cases allowed : s.hub.level.allows e.level <;>
      simp [emit, deliveries, Hub.deliveries, heard, allowed]
  cases c with
  | emit e => exact said e
  | log severity target message => exact said _
  | addSink => exact (List.append_nil _).symm
  | removeSink id => exact (List.append_nil _).symm
  | setLevel level => exact (List.append_nil _).symm
  | setClock clock => exact (List.append_nil _).symm

theorem level_callAll (s : Station) (calls : List Call) :
    (s.callAll calls).hub.level = lastLevel s.hub.level (calls.flatMap Call.acts) := by
  induction calls generalizing s with
  | nil => rfl
  | cons c later ih =>
    rw [callAll_cons, ih, level_call, List.flatMap_cons, lastLevel, lastLevel, lastLevel,
      List.foldl_append]

theorem clock_callAll (s : Station) (calls : List Call) :
    (s.callAll calls).clock = lastClock s.clock (calls.flatMap Call.acts) := by
  induction calls generalizing s with
  | nil => rfl
  | cons c later ih =>
    rw [callAll_cons, ih, clock_call, List.flatMap_cons, lastClock, lastClock, lastClock,
      List.foldl_append]

/-- A log of which `asked` identities are spent, and that has served only such sinks. -/
structure Tended (asked : Nat) (s : Station) : Prop where
  numbered : s.hub.Numbered asked
  ordered : s.hub.Ordered
  addressed : ∀ delivery ∈ s.journal.toList, delivery.sink.Spent asked

namespace Tended

theorem call (tended : s.Tended asked) (c : Call)
    (few : asked + [c].count .addSink < UInt32.size) :
    (s.call c).Tended (asked + [c].count .addSink) where
  numbered := by
    have numbered := tended.numbered.callAll c.onHub
    have counts : c.onHub.count .addSink = [c].count .addSink := by cases c <;> rfl
    rwa [counts, ← hub_call] at numbered
  ordered := by
    cases c with
    | addSink => exact tended.ordered.addSink tended.numbered few
    | removeSink id => exact tended.ordered.removeSink id
    | setLevel level => exact ⟨tended.ordered.fits, tended.ordered.sorted⟩
    | setClock clock => exact tended.ordered
    | emit e => exact tended.ordered
    | log severity target message => exact tended.ordered
  addressed := by
    intro delivery member
    rw [journal_call, List.mem_append, List.mem_flatMap] at member
    rcases member with earlier | ⟨record, -, served⟩
    · exact (tended.addressed delivery earlier).mono (Nat.le_add_right _ _)
    · obtain ⟨id, registered, rfl⟩ := List.mem_map.mp served
      have spent : id.Spent asked := tended.numbered.used id registered
      exact spent.mono (Nat.le_add_right _ _)

theorem callAll (tended : s.Tended asked) (calls : List Call)
    (few : asked + calls.count .addSink < UInt32.size) :
    (s.callAll calls).Tended (asked + calls.count .addSink) := by
  induction calls generalizing s asked with
  | nil => exact tended
  | cons c later ih =>
    have split : (c :: later).count .addSink = [c].count .addSink + later.count .addSink := by
      rw [← List.singleton_append, List.count_append]
    rw [split, ← Nat.add_assoc] at few ⊢
    exact ih (tended.call c (by omega)) few

end Tended

theorem tended_new : ({} : Station).Tended 0 where
  numbered := ⟨rfl, fun _ member => absurd member List.not_mem_nil⟩
  ordered := ⟨Nat.zero_le _, List.Pairwise.nil⟩
  addressed _ member := absurd member List.not_mem_nil

/-- A call brings a sink what is heard of it, if the sink is in the table. -/
theorem received_call (nodup : s.hub.sinks.Nodup) (c : Call) (id : SinkId) :
    (s.call c).receivedSince 0 id = s.receivedSince 0 id ++
      if id ∈ s.hub.sinks then heard s.hub.level s.clock c.acts else [] := by
  have copies (record : String) :
      ((s.hub.sinks.map fun id => (⟨id, record⟩ : Delivery)).filter fun d => d.sink = id).map
        (·.record) = if id ∈ s.hub.sinks then [record] else [] := by
    have served : ((s.hub.sinks.map fun id => (⟨id, record⟩ : Delivery)).filter
        fun d => d.sink = id).map (·.record) = List.replicate (s.hub.sinks.count id) record := by
      simp [List.filter_map, Function.comp_def, List.filter_eq]
    rw [served, nodup.count]
    split <;> rfl
  simp only [receivedSince, List.drop_zero, journal_call, List.filter_append, List.map_append,
    List.filter_flatMap, List.map_flatMap, copies]
  congr 1
  split
  · exact List.flatMap_singleton' _
  · exact List.flatMap_eq_nil_iff.mpr fun _ _ => rfl

/-- Of the calls, only the removal of a sink takes it out of the table, and only a registration
brings one in, under a new identity. -/
theorem mem_call (tended : s.Tended asked) (spent : id.Spent asked) (c : Call)
    (few : asked + [c].count .addSink < UInt32.size) :
    id ∈ (s.call c).hub.sinks ↔ id ∈ s.hub.sinks ∧ c ≠ .removeSink id := by
  cases c with
  | addSink =>
    have old := spent.ne_nextId tended.numbered few
    change id ∈ s.hub.addSink.2.sinks ↔ _
    rcases Nat.lt_or_ge s.hub.sinks.length Hub.capacity with room | full
    · simp [(Hub.addSink_of_lt room).2, old]
    · simp [(Hub.addSink_of_le full).2]
  | removeSink other =>
    have kept : id ∈ (s.hub.removeSink other).2.sinks ↔ _ := tended.ordered.mem_removeSink
    change id ∈ (s.hub.removeSink other).2.sinks ↔ _
    rw [kept, and_comm, ne_comm, ne_eq, ne_eq, Call.removeSink.injEq]
  | setLevel level => exact (and_iff_left nofun).symm
  | setClock clock => exact (and_iff_left nofun).symm
  | emit e => exact (and_iff_left nofun).symm
  | log severity target message => exact (and_iff_left nofun).symm

theorem count_cons_addSink (c : Call) (later : List Call) :
    (c :: later).count .addSink = [c].count .addSink + later.count .addSink := by
  rw [← List.singleton_append, List.count_append]

/-- A sink whose identity is spent and that is not in the table receives nothing any more. -/
theorem received_of_notMem (tended : s.Tended asked) (spent : id.Spent asked)
    (absent : id ∉ s.hub.sinks) (calls : List Call)
    (few : asked + calls.count .addSink < UInt32.size) :
    (s.callAll calls).receivedSince 0 id = s.receivedSince 0 id := by
  induction calls generalizing s asked with
  | nil => rfl
  | cons c later ih =>
    rw [count_cons_addSink, ← Nat.add_assoc] at few
    have now : asked + [c].count .addSink < UInt32.size := by omega
    have still : id ∉ (s.call c).hub.sinks := by
      rw [mem_call tended spent c now]
      exact fun member => absent member.1
    rw [callAll_cons, ih (tended.call c now) (spent.mono (Nat.le_add_right _ _)) still few,
      received_call tended.ordered.nodup, if_neg absent, List.append_nil]

/-- A registered sink receives what is said until it is removed. -/
theorem received_of_mem (tended : s.Tended asked) (spent : id.Spent asked)
    (registered : id ∈ s.hub.sinks) (calls : List Call)
    (few : asked + calls.count .addSink < UInt32.size) :
    (s.callAll calls).receivedSince 0 id = s.receivedSince 0 id ++
      heard s.hub.level s.clock
        ((calls.takeWhile fun c => c ≠ .removeSink id).flatMap Call.acts) := by
  induction calls generalizing s asked with
  | nil => exact (List.append_nil _).symm
  | cons c later ih =>
    rw [count_cons_addSink, ← Nat.add_assoc] at few
    have now : asked + [c].count .addSink < UInt32.size := by omega
    have after := tended.call c now
    have known := spent.mono (Nat.le_add_right asked ([c].count .addSink))
    have arrived := received_call tended.ordered.nodup c id
    rw [if_pos registered] at arrived
    by_cases removed : c = .removeSink id
    · have gone : id ∉ (s.call c).hub.sinks := by
        rw [mem_call tended spent c now]
        exact fun member => member.2 removed
      rw [callAll_cons, received_of_notMem after known gone later few, arrived, removed]
      simp [Call.acts]
    · have still : id ∈ (s.call c).hub.sinks :=
        (mem_call tended spent c now).mpr ⟨registered, removed⟩
      rw [callAll_cons, ih after known still few, arrived, level_call, clock_call,
        List.append_assoc, ← heard_append]
      simp [removed]

/-- Nothing has been delivered to a sink that is yet to be registered. -/
theorem received_nextId (tended : s.Tended asked) (few : asked + 1 < UInt32.size) :
    s.receivedSince 0 s.hub.nextId = [] := by
  have others : ∀ delivery ∈ s.journal.toList, ¬ delivery.sink = s.hub.nextId := by
    intro delivery member
    exact (tended.addressed delivery member).ne_nextId tended.numbered few
  rw [receivedSince, List.drop_zero, List.filter_eq_nil_iff.mpr (by simpa using others)]
  rfl

theorem received_added {before : List Call}
    (added : (({} : Station).callAll before).addSink.1 = .ok id) (later : List Call)
    (few : (before ++ .addSink :: later).count .addSink < UInt32.size) :
    (({} : Station).callAll (before ++ .addSink :: later)).receivedSince 0 id =
      records before (later.takeWhile fun c => c ≠ .removeSink id) := by
  rw [List.count_append, count_cons_addSink, List.count_singleton_self] at few
  have tended := tended_new.callAll before (by omega)
  have level := level_callAll {} before
  have clock := clock_callAll {} before
  rw [callAll_append, callAll_cons]
  rw [Nat.zero_add] at tended
  generalize ({} : Station).callAll before = s at added tended level clock ⊢
  have room : s.hub.sinks.length < Hub.capacity := by
    rcases Nat.lt_or_ge s.hub.sinks.length Hub.capacity with room | full
    · exact room
    · have refused : s.addSink.1 = .error .sinkTableFull := (Hub.addSink_of_le full).1
      rw [refused] at added
      cases added
  have chosen : s.addSink.1 = .ok s.hub.nextId := (Hub.addSink_of_lt room).1
  obtain rfl : s.hub.nextId = id := Except.ok.inj (chosen.symm.trans added)
  have served := tended.call .addSink (by rw [List.count_singleton_self]; omega)
  rw [List.count_singleton_self] at served
  have spent : s.hub.nextId.Spent (before.count .addSink + 1) :=
    ⟨before.count .addSink, Nat.lt_succ_self _, tended.numbered.next⟩
  have registered : s.hub.nextId ∈ (s.call .addSink).hub.sinks := by
    change s.hub.nextId ∈ s.hub.addSink.2.sinks
    rw [(Hub.addSink_of_lt room).2]
    exact List.mem_append_right _ List.mem_cons_self
  rw [received_of_mem served spent registered later (by omega), level_call, clock_call,
    received_call tended.ordered.nodup, received_nextId tended (by omega), level, clock]
  simp [records, heard, Call.acts, lastLevel, lastClock]

/-- Whatever a log has been asked, its table holds at most four sinks, each once. A sink is
registered exactly if there is room, and removed exactly if it is there. It receives the records of
what is said from its registration to its removal and was allowed at that moment, in that order, and
for each record the sinks have their turn in the order of their registration. -/
theorem receives_while_registered (calls : List Call)
    (few : calls.count .addSink < UInt32.size) :
    let s := ({} : Station).callAll calls
    (s.hub.sinks.length ≤ Hub.capacity ∧ s.hub.sinks.Nodup) ∧
    (s.hub.sinks.length < Hub.capacity →
      s.addSink.1 = .ok ⟨.ofNat (calls.count .addSink + 1)⟩ ∧
      s.addSink.2.hub.sinks = s.hub.sinks ++ [⟨.ofNat (calls.count .addSink + 1)⟩]) ∧
    (¬ s.hub.sinks.length < Hub.capacity →
      s.addSink.1 = .error (.exhausted "log sink table") ∧
      s.addSink.2.hub.sinks = s.hub.sinks) ∧
    (∀ id, ((s.removeSink id).1 = true ↔ id ∈ s.hub.sinks) ∧
      (s.removeSink id).2.hub.sinks = s.hub.sinks.filter fun other => other != id) ∧
    (∀ before later id, calls = before ++ .addSink :: later →
      (({} : Station).callAll before).addSink.1 = .ok id →
      s.receivedSince 0 id = records before (later.takeWhile fun c => c ≠ .removeSink id)) ∧
    (s.hub.sinks.Pairwise fun a b => a.number < b.number) ∧
    ∀ c, (s.call c).journal.toList = s.journal.toList ++
      (records calls [c]).flatMap fun record => s.hub.sinks.map fun id => ⟨id, record⟩ := by
  intro s
  have tended : s.Tended (calls.count .addSink) := by
    have tended := tended_new.callAll calls (by rwa [Nat.zero_add])
    rwa [Nat.zero_add] at tended
  refine ⟨⟨tended.ordered.fits, tended.ordered.nodup⟩, ?_, ?_, ?_, ?_, tended.ordered.sorted, ?_⟩
  · intro room
    rw [← tended.numbered.next]
    exact Hub.addSink_of_lt room
  · intro full
    exact Hub.addSink_of_le (Nat.not_lt.mp full)
  · intro id
    constructor
    · exact List.contains_iff_mem
    · exact tended.ordered.nodup.erase_eq_filter id
  · rintro before later id rfl added
    exact received_added added later few
  · intro c
    have level : s.hub.level = lastLevel .unset (calls.flatMap Call.acts) := level_callAll {} calls
    have clock : s.clock = lastClock 0 (calls.flatMap Call.acts) := clock_callAll {} calls
    rw [journal_call, level, clock, records, List.flatMap_singleton]

/-- A second sink outlives the first, and a fifth one that finds no room. -/
theorem receives_while_registered_second :
    let calls : List Call :=
      [.setClock 5, .addSink, .addSink, .emit ⟨.info, "app", ["up"]⟩, .removeSink ⟨1⟩,
        .log .debug "app" ["lost"], .addSink, .addSink, .addSink, .addSink, .setLevel .debug,
        .setClock 9, .log .debug "app" ["seen"]]
    calls.count .addSink < UInt32.size ∧
      (({} : Station).callAll calls).hub.sinks = [⟨2⟩, ⟨3⟩, ⟨4⟩, ⟨5⟩] ∧
      (({} : Station).callAll calls).receivedSince 0 ⟨2⟩ =
        ["5 [I][app] up\r\n", "9 [D][app] seen\r\n"] := by
  intro calls
  have few : calls.count .addSink < UInt32.size := by decide
  obtain ⟨-, -, -, -, received, -⟩ := receives_while_registered calls few
  refine ⟨few, by decide, ?_⟩
  exact (received [.setClock 5, .addSink] (calls.drop 3) ⟨2⟩ rfl rfl).trans (by decide +kernel)

end Station

end DeviceShell.Log
