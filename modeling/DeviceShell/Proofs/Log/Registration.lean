import DeviceShell.Log.Hub

/-! Identities of sinks are handed out in turn, so the next one is not in use before they wrap. -/
namespace DeviceShell.Log.Hub

theorem addSink_of_lt {hub : Hub} (room : hub.sinks.length < capacity) :
    hub.addSink.1 = .ok hub.nextId ∧ hub.addSink.2.sinks = hub.sinks ++ [hub.nextId] := by
  simp [addSink, room]

theorem addSink_of_le {hub : Hub} (full : capacity ≤ hub.sinks.length) :
    hub.addSink.1 = .error .sinkTableFull ∧ hub.addSink.2.sinks = hub.sinks := by
  simp [addSink, Nat.not_lt.mpr full]

theorem level_addSink (hub : Hub) : hub.addSink.2.level = hub.level := by
  unfold addSink
  dsimp only
  split <;> rfl

/-- What callers ask of a hub. -/
inductive Call where
  | addSink
  | removeSink (id : SinkId)
  | setLevel (level : Level)
  deriving DecidableEq

/-- The hub after a call. -/
def call (hub : Hub) : Call → Hub
  | .addSink => hub.addSink.2
  | .removeSink id => (hub.removeSink id).2
  | .setLevel level => hub.setLevel level

/-- The hub after calls, the first one first. -/
def callAll (hub : Hub) (calls : List Call) : Hub := calls.foldl call hub

/-- Identities count up from one, and `asked` of them are spent. -/
structure Numbered (asked : Nat) (hub : Hub) : Prop where
  next : hub.nextId = ⟨UInt32.ofNat (asked + 1)⟩
  used : ∀ id ∈ hub.sinks, ∃ turn < asked, id = ⟨UInt32.ofNat (turn + 1)⟩

namespace Numbered

variable {asked : Nat} {hub : Hub}

theorem addSink (numbered : hub.Numbered asked) : hub.addSink.2.Numbered (asked + 1) := by
  have next : (⟨hub.nextId.number + 1⟩ : SinkId) = ⟨UInt32.ofNat (asked + 1 + 1)⟩ := by
    rw [numbered.next, UInt32.ofNat_add (asked + 1) 1]
    rfl
  unfold Hub.addSink
  dsimp only
  split
  · refine ⟨next, fun id member => ?_⟩
    rcases List.mem_append.mp member with before | last
    · obtain ⟨turn, earlier, eq⟩ := numbered.used id before
      exact ⟨turn, Nat.lt_succ_of_lt earlier, eq⟩
    · exact ⟨asked, Nat.lt_succ_self asked, (List.mem_singleton.mp last).trans numbered.next⟩
  · refine ⟨next, fun id member => ?_⟩
    obtain ⟨turn, earlier, eq⟩ := numbered.used id member
    exact ⟨turn, Nat.lt_succ_of_lt earlier, eq⟩

theorem removeSink (numbered : hub.Numbered asked) (id : SinkId) :
    (hub.removeSink id).2.Numbered asked :=
  ⟨numbered.next, fun other member => numbered.used other (List.mem_of_mem_erase member)⟩

theorem setLevel (numbered : hub.Numbered asked) (level : Level) :
    (hub.setLevel level).Numbered asked := ⟨numbered.next, numbered.used⟩

theorem callAll (numbered : hub.Numbered asked) (calls : List Call) :
    (hub.callAll calls).Numbered (asked + calls.count .addSink) := by
  induction calls generalizing hub asked with
  | nil => exact numbered
  | cons call later ih =>
    cases call with
    | addSink =>
      have rest := ih numbered.addSink
      rw [Nat.add_right_comm] at rest
      simpa [Hub.callAll, Hub.call, List.count_cons, Nat.add_assoc] using rest
    | removeSink id => exact ih (numbered.removeSink id)
    | setLevel level => exact ih (numbered.setLevel level)

theorem nextId_notMem (numbered : hub.Numbered asked) (few : asked < UInt32.size) :
    hub.nextId ∉ hub.sinks := by
  intro member
  obtain ⟨turn, earlier, same⟩ := numbered.used _ member
  rw [numbered.next] at same
  have numbers := congrArg (fun id : SinkId => id.number.toNat) same
  simp only [UInt32.toNat_ofNat'] at numbers
  simp only [UInt32.size] at few
  omega

end Numbered

/-- The table is not overfull, and its sinks stand in the order of their identities. -/
structure Ordered (hub : Hub) : Prop where
  fits : hub.sinks.length ≤ capacity
  sorted : hub.sinks.Pairwise fun a b => a.number < b.number

namespace Ordered

variable {asked : Nat} {hub : Hub}

theorem nodup (ordered : hub.Ordered) : hub.sinks.Nodup := by
  apply ordered.sorted.imp
  intro a b less same
  rw [same] at less
  exact UInt32.lt_irrefl _ less

theorem addSink (ordered : hub.Ordered) (numbered : hub.Numbered asked)
    (few : asked + 1 < UInt32.size) : hub.addSink.2.Ordered := by
  rcases Nat.lt_or_ge hub.sinks.length capacity with room | full
  · have behind (id : SinkId) (member : id ∈ hub.sinks) : id.number < hub.nextId.number := by
      obtain ⟨turn, earlier, rfl⟩ := numbered.used id member
      rw [numbered.next]
      simp only [UInt32.lt_iff_toNat_lt, UInt32.toNat_ofNat']
      simp only [UInt32.size] at few
      omega
    constructor
    · rw [(addSink_of_lt room).2, List.length_append]
      exact room
    · rw [(addSink_of_lt room).2]
      refine List.pairwise_append.mpr ⟨ordered.sorted, List.pairwise_singleton _ _, ?_⟩
      intro id member last isLast
      rw [List.mem_singleton.mp isLast]
      exact behind id member
  · constructor
    · rw [(addSink_of_le full).2]
      exact ordered.fits
    · rw [(addSink_of_le full).2]
      exact ordered.sorted

theorem removeSink (ordered : hub.Ordered) (id : SinkId) : (hub.removeSink id).2.Ordered :=
  ⟨Nat.le_trans List.length_erase_le ordered.fits, ordered.sorted.sublist List.erase_sublist⟩

theorem mem_removeSink (ordered : hub.Ordered) {id other : SinkId} :
    other ∈ (hub.removeSink id).2.sinks ↔ other ≠ id ∧ other ∈ hub.sinks :=
  ordered.nodup.mem_erase_iff

end Ordered

/-- Before the counter comes round, a hub's next identity is not in its table. -/
theorem nextId_notMem_callAll {level : Level} {calls : List Call}
    (made : hub = ({ level := level } : Hub).callAll calls)
    (few : calls.count .addSink < UInt32.size) : hub.nextId ∉ hub.sinks := by
  have opened : ({ level := level } : Hub).Numbered 0 := ⟨rfl, by simp⟩
  have numbered := opened.callAll calls
  rw [← made, Nat.zero_add] at numbered
  exact numbered.nextId_notMem few

end DeviceShell.Log.Hub
