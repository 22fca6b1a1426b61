import DeviceShell.Proofs.Input.Delivery
import Mathlib.Data.List.Count

/-! An input that comes in segments. Where it is cut, even within a character or a line, and how
often it has nothing to offer in between, shows in the pauses alone. -/
namespace DeviceShell.Input

namespace Moment

/-- What reads come to until the input ends: nothing yet, or a byte. -/
def Typed (moment : Moment) : Prop := moment = .idle ∨ ∃ b, moment = .byte b

end Moment

theorem readsOf_map_read (reads : List Read) : readsOf (reads.map .read) = reads := by
  rw [readsOf, List.filterMap_map]
  exact List.filterMap_some

variable {reads later : List Read}

theorem heeded_map_read (fine : ∀ reason, .failed reason ∉ reads) :
    heeded (reads.map .read) = reads.map .read := by
  induction reads with
  | nil => rfl
  | cons read later ih =>
    have other : ∀ reason, Turn.read read ≠ .read (.failed reason) := by
      rintro reason failed
      exact fine reason (Turn.read.inj failed ▸ List.mem_cons_self)
    rw [List.map_cons, heeded_of_ne other,
      ih fun reason member => fine reason (List.mem_cons_of_mem _ member)]

theorem typed_moments (fine : ∀ reason, .failed reason ∉ reads) :
    ∀ moment ∈ moments (reads.map .read), moment.Typed := by
  rw [moments, heeded_map_read fine, List.flatMap_map]
  intro moment member
  obtain ⟨read, given, member⟩ := List.mem_flatMap.mp member
  cases read with
  | data bytes _ =>
    obtain ⟨b, -, rfl⟩ := List.mem_map.mp member
    exact .inr ⟨b, rfl⟩
  | wouldBlock => exact .inl (List.mem_singleton.mp member)
  | interrupted => exact absurd member List.not_mem_nil
  | failed reason => exact absurd given (fine reason)

theorem count_idle_reads (fine : ∀ reason, .failed reason ∉ reads) :
    (moments (reads.map .read)).count .idle = reads.count .wouldBlock := by
  rw [count_idle_moments, heeded_map_read fine]
  exact List.count_map_of_injective _ _ (fun _ _ => Turn.read.inj) _

namespace Reader

variable {χ : Type} [Mailbox χ]

/-- A reader with other pauses behind it. -/
def resting (pauses : History UInt32) (r : Reader χ) : Reader χ := { r with pauses := pauses }

variable {α : Type} {view : Reader χ × Moment → Option α}

theorem deliver_resting (pauses : History UInt32) (r : Reader χ) (line : String) :
    (r.resting pauses).deliver line = (r.deliver line).resting pauses := by
  have channel : (r.resting pauses).channel = r.channel := rfl
  unfold deliver
  rw [channel]
  split <;> rfl

theorem feed_resting (pauses : History UInt32) (r : Reader χ) (b : UInt8) :
    (r.resting pauses).feed b = (r.feed b).resting pauses := by
  have typing : (r.resting pauses).typing = r.typing := rfl
  rw [feed_eq, feed_eq, typing]
  cases (r.typing.feed b).1 with
  | none => rfl
  | some line => exact deliver_resting pauses { r with typing := (r.typing.feed b).2 } line

theorem meetAll_resting (pauses : History UInt32) (r : Reader χ) (bytes : Bytes) :
    (r.resting pauses).meetAll (bytes.map .byte) =
      (r.meetAll (bytes.map .byte)).resting pauses := by
  induction bytes generalizing r with
  | nil => rfl
  | cons b later ih =>
    rw [List.map_cons, meetAll_cons, meetAll_cons, ← ih]
    exact congrArg (meetAll · _) (feed_resting pauses r b)

/-- Something that is seen whatever the pauses were, and never while nothing comes up. -/
structure Steady (view : Reader χ × Moment → Option α) : Prop where
  idle (r : Reader χ) : view (r, .idle) = none
  resting (pauses : History UInt32) (r : Reader χ) (b : UInt8) :
    view (r.resting pauses, .byte b) = view (r, .byte b)

theorem course_resting (steady : Steady view) (pauses : History UInt32) (r : Reader χ)
    (bytes : Bytes) :
    ((r.resting pauses).course (bytes.map .byte)).filterMap view =
      (r.course (bytes.map .byte)).filterMap view := by
  induction bytes generalizing r with
  | nil => rfl
  | cons b later ih =>
    have met : (r.resting pauses).meet (.byte b) = (r.meet (.byte b)).resting pauses :=
      feed_resting pauses r b
    rw [List.map_cons, course, course, List.filterMap_cons, List.filterMap_cons,
      steady.resting, met, ih]

variable {moments : List Moment}

/-- What is seen depends on the bytes alone. -/
theorem filterMap_course (steady : Steady view) (r : Reader χ)
    (typed : ∀ moment ∈ moments, moment.Typed) :
    (r.course moments).filterMap view =
      (r.course ((moments.filterMap Moment.byte?).map .byte)).filterMap view := by
  induction moments generalizing r with
  | nil => rfl
  | cons moment later ih =>
    obtain ⟨first, rest⟩ := List.forall_mem_cons.mp typed
    rcases first with rfl | ⟨b, rfl⟩
    · rw [course, List.filterMap_cons_none (steady.idle r), ih _ rest]
      exact course_resting steady _ r _
    · have bytes : (Moment.byte b :: later).filterMap Moment.byte? =
          b :: later.filterMap Moment.byte? := rfl
      rw [bytes, List.map_cons, course, course, List.filterMap_cons, List.filterMap_cons,
        ih _ rest]

/-- So does the reader, but for its pauses. -/
theorem meetAll_typed (r : Reader χ) (typed : ∀ moment ∈ moments, moment.Typed) :
    r.meetAll moments = (r.meetAll ((moments.filterMap Moment.byte?).map .byte)).resting
      (r.meetAll moments).pauses := by
  induction moments generalizing r with
  | nil => rfl
  | cons moment later ih =>
    obtain ⟨first, rest⟩ := List.forall_mem_cons.mp typed
    rcases first with rfl | ⟨b, rfl⟩
    · have paused : r.meet .idle = r.resting (r.pauses.push pollInterval) := rfl
      have further := ih (r.meet .idle) rest
      rw [paused, meetAll_resting] at further
      exact further
    · exact ih (r.meet (.byte b)) rest

theorem pauses_feed (r : Reader χ) (b : UInt8) : (r.feed b).pauses = r.pauses := by
  rw [feed_eq]
  split
  · unfold deliver
    split <;> rfl
  · rfl

theorem pauses_meet (r : Reader χ) (moment : Moment) : (r.meet moment).pauses.toList =
    r.pauses.toList ++ if moment = .idle then [pollInterval] else [] := by
  cases moment with
  | byte b =>
    rw [meet, pauses_feed]
    exact (List.append_nil _).symm
  | take => exact (List.append_nil _).symm
  | idle => exact History.toList_push _ _
  | failure reason => exact (List.append_nil _).symm

theorem pauses_meetAll (r : Reader χ) (moments : List Moment) :
    (r.meetAll moments).pauses.toList =
      r.pauses.toList ++ List.replicate (moments.count .idle) pollInterval := by
  induction moments generalizing r with
  | nil => exact (List.append_nil _).symm
  | cons moment later ih =>
    rw [meetAll_cons, ih, pauses_meet, List.append_assoc]
    by_cases idle : moment = .idle
    · rw [if_pos idle, idle, List.count_cons_self, List.replicate_succ, List.singleton_append]
    · rw [if_neg idle, List.count_cons_of_ne idle, List.nil_append]

/-- A line that is completed while there is no room for it. -/
def lost? (stop : Reader χ × Moment) : Option String :=
  (line? stop).filter fun _ => Mailbox.depth ≤ (Mailbox.queue stop.1.channel).length

theorem steady_lost? : Steady (lost? : Reader χ × Moment → Option String) :=
  ⟨fun _ => rfl, fun _ _ _ => rfl⟩

theorem steady_notice? : Steady (notice? : Reader χ × Moment → Option Log.Notice) :=
  ⟨fun _ => rfl, fun _ _ _ => rfl⟩

/-- Two readers got the same from their input, and said the same of it. -/
structure SameInput (r : Reader χ) (reads others : List Read) : Prop where
  /-- They only differ in their pauses. -/
  whole : r.run (others.map .read) =
    (r.run (reads.map .read)).resting (r.run (others.map .read)).pauses
  received (count : Nat) : ((r.run (others.map .read)).yieldEvents count).received =
    ((r.run (reads.map .read)).yieldEvents count).received
  lost : (r.course (Input.moments (others.map .read))).filterMap lost? =
    (r.course (Input.moments (reads.map .read))).filterMap lost?
  notices : (r.course (Input.moments (others.map .read))).filterMap notice? =
    (r.course (Input.moments (reads.map .read))).filterMap notice?
  journal : (r.run (others.map .read)).typing.shared.log.journal =
    (r.run (reads.map .read)).typing.shared.log.journal
  cancelled (token : Token) :
    (r.run (others.map .read)).typing.shared.interrupts.isCancelled token =
      (r.run (reads.map .read)).typing.shared.interrupts.isCancelled token
  pauses : (r.run (reads.map .read)).pauses.toList =
      r.pauses.toList ++ List.replicate (reads.count .wouldBlock) 10 ∧
    (r.run (others.map .read)).pauses.toList =
      r.pauses.toList ++ List.replicate (others.count .wouldBlock) 10

/-- A reader that meets the same bytes in whatever segments gets the same from them. -/
theorem run_segments (r : Reader χ) (reads others : List Read)
    (fine : (∀ reason, .failed reason ∉ reads) ∧ ∀ reason, .failed reason ∉ others)
    (same : bytesOf others = bytesOf reads) : r.SameInput reads others := by
  have bytes : (Input.moments (others.map .read)).filterMap Moment.byte? =
      (Input.moments (reads.map .read)).filterMap Moment.byte? := by
    rw [bytes_moments, bytes_moments, readsOf_map_read, readsOf_map_read, same]
  have seen {α : Type} {view : Reader χ × Moment → Option α} (steady : Steady view) :
      (r.course (Input.moments (others.map .read))).filterMap view =
        (r.course (Input.moments (reads.map .read))).filterMap view := by
    rw [filterMap_course steady r (typed_moments fine.2), bytes,
      ← filterMap_course steady r (typed_moments fine.1)]
  have whole : r.run (others.map .read) =
      (r.run (reads.map .read)).resting (r.run (others.map .read)).pauses := by
    rw [run_eq, run_eq, meetAll_typed r (typed_moments fine.2), bytes,
      meetAll_typed r (typed_moments fine.1)]
    rfl
  have paused (given : List Read) (fine : ∀ reason, .failed reason ∉ given) :
      (r.run (given.map .read)).pauses.toList =
        r.pauses.toList ++ List.replicate (given.count .wouldBlock) 10 := by
    rw [run_eq, ← count_idle_reads fine]
    exact r.pauses_meetAll _
  exact {
    whole := whole
    received := fun count => by rw [whole]; rfl
    lost := seen steady_lost?
    notices := seen steady_notice?
    journal := by rw [whole]; rfl
    cancelled := fun token => by rw [whole]; rfl
    pauses := ⟨paused reads fine.1, paused others fine.2⟩ }

/-- A character, a line and an erasure that are cut, more lines than there is room for, and a
command to cancel. -/
theorem run_segments_cut :
    let r := start Channel
      { log := { hub := { level := .trace, nextId := ⟨2⟩, sinks := [⟨1⟩] } }
        interrupts := { byte := 3, flags := [false], armed := some ⟨0⟩ } }
    let reads : List Read :=
      [.data [0xC3, 0xA9, 10, 0xC3, 10, 97, 98, 8, 10, 10, 10, 99, 10, 3, 100, 10]]
    let others : List Read :=
      [.data [0xC3], .wouldBlock, .data [0xA9, 10, 0xC3], .interrupted, .data [10, 97, 98],
        .wouldBlock, .data [8], .data [10, 10, 10, 99, 10, 3], .data [100, 10]]
    ((∀ reason, .failed reason ∉ reads) ∧ ∀ reason, .failed reason ∉ others) ∧
      bytesOf others = bytesOf reads ∧
      ((r.run (others.map .read)).yieldEvents 5).received =
        [.line "é", .line "a", .line "", .line "", .closed] ∧
      (r.course (Input.moments (others.map .read))).filterMap lost? = ["c", "d"] ∧
      (r.run (others.map .read)).pauses.toList = [10, 10] := by
  intro r reads others
  have fine : (∀ reason, .failed reason ∉ reads) ∧ ∀ reason, .failed reason ∉ others := by
    constructor <;> simp [reads, others]
  have agree : r.SameInput reads others := run_segments r reads others fine rfl
  refine ⟨fine, rfl, ?_, ?_, agree.pauses.2⟩
  · rw [agree.received]
    decide +kernel
  · rw [agree.lost]
    decide +kernel

end Reader

end DeviceShell.Input
