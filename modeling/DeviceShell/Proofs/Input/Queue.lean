import DeviceShell.Input.Reader
import Mathlib.Data.List.Infix

/-! The queue between the reader and the session, and what gets through it. -/
namespace DeviceShell.Input

open Mailbox

namespace Mailbox

variable {χ : Type} [Mailbox χ] {c later : χ} {event : Event} {events : List Event}

theorem contents_of_ready (ready : waiting c = none) : contents c = queue c := by
  rw [contents, ready, Option.toList_none, List.append_nil]

/-- Only who finds the queue full has to wait. -/
def Fair (c : χ) : Prop := waiting c = none ∨ queue c ≠ []

section Laws

variable [Lawful χ depth]

theorem trySend_of_lt (room : (queue c).length < depth) (event : Event) :
    (trySend event c).1 = true := by
  rw [Lawful.trySend_fst, decide_eq_true room]

theorem trySend_of_le (full : depth ≤ (queue c).length) (event : Event) :
    (trySend event c).1 = false := by
  rw [Lawful.trySend_fst, decide_eq_false (Nat.not_lt.mpr full)]

/-- If nobody waits, what is sent comes last. -/
theorem contents_send (ready : waiting c = none) :
    contents (send event c) = contents c ++ [event] := by
  rw [contents, Lawful.queue_send, Lawful.waiting_send event c ready, contents_of_ready ready]
  split <;> simp

theorem receive_cons {later : List Event} (queued : queue c = event :: later) :
    receive c = (some event, (receive c).2) :=
  Prod.ext (Lawful.receive_cons event later c queued) rfl

theorem contents_of_receive (taken : receive c = (some event, later)) :
    contents c = event :: contents later ∧ waiting later = none := by
  cases queued : queue c with
  | nil =>
    rw [Lawful.receive_nil c queued] at taken
    cases taken
  | cons first rest =>
    have oldest := Lawful.receive_cons first rest c queued
    have behind := Lawful.queue_receive first rest c queued
    have sent := Lawful.waiting_receive first rest c queued
    rw [taken] at oldest behind sent
    cases oldest
    refine ⟨?_, sent⟩
    rw [contents_of_ready sent, behind, contents, queued, List.cons_append]

theorem Fair.receive (fair : Fair c) (whole : contents c = event :: events) :
    ∃ later, receive c = (some event, later) ∧ contents later = events ∧ waiting later = none := by
  cases queued : queue c with
  | nil =>
    rcases fair with none | some
    · rw [contents_of_ready none, queued] at whole
      cases whole
    · exact absurd queued some
  | cons first rest =>
    rw [contents, queued] at whole
    cases whole
    have sent := Lawful.waiting_receive event rest c queued
    refine ⟨_, receive_cons queued, ?_, sent⟩
    rw [contents_of_ready sent, Lawful.queue_receive event rest c queued]
    rfl

theorem fair_send (ready : waiting c = none) (event : Event) : Fair (send event c) := by
  unfold Fair
  rw [Lawful.queue_send, Lawful.waiting_send event c ready]
  split
  · exact .inl rfl
  · rename_i full
    refine .inr fun empty => full ?_
    rw [empty]
    decide

theorem queue_send (c : χ) (event : Event) : queue c <+: queue (send event c) := by
  rw [Lawful.queue_send]
  split
  · exact List.prefix_append _ _
  · exact List.prefix_refl _

end Laws

end Mailbox

namespace Reader

variable {χ : Type} [Mailbox χ] [Lawful χ depth] (r : Reader χ)

theorem deliver_of_lt {r : Reader χ} (room : (queue r.channel).length < depth) (line : String) :
    r.deliver line = { r with channel := (trySend (.line line) r.channel).2 } := by
  have accepted := trySend_of_lt room (.line line)
  unfold deliver
  split
  · rename_i channel tried
    rw [tried]
  · rename_i tried
    rw [tried] at accepted
    cases accepted

theorem deliver_of_le {r : Reader χ} (full : depth ≤ (queue r.channel).length) (line : String) :
    r.deliver line =
      { r with typing := { r.typing with shared := r.typing.shared.announce .queueFull } } := by
  have refused := trySend_of_le full (.line line)
  unfold deliver
  split
  · rename_i tried
    rw [tried] at refused
    cases refused
  · rfl

/-- A line comes last if there is room, and is dropped if not. -/
theorem queue_deliver (line : String) : queue (r.deliver line).channel =
    queue r.channel ++ if (queue r.channel).length < depth then [.line line] else [] := by
  rcases Nat.lt_or_ge (queue r.channel).length depth with room | full
  · rw [deliver_of_lt room, if_pos room, Lawful.queue_trySend _ _ room]
  · rw [deliver_of_le full, if_neg (Nat.not_lt.mpr full), List.append_nil]

theorem waiting_deliver (line : String) :
    waiting (r.deliver line).channel = waiting r.channel := by
  rcases Nat.lt_or_ge (queue r.channel).length depth with room | full
  · rw [deliver_of_lt room, Lawful.waiting_trySend _ _ room]
  · rw [deliver_of_le full]

theorem queue_feed (b : UInt8) : queue (r.feed b).channel =
    match (r.typing.feed b).1 with
    | some line =>
      queue r.channel ++ if (queue r.channel).length < depth then [.line line] else []
    | none => queue r.channel := by
  unfold feed
  split
  · rename_i line after fed
    rw [fed]
    exact queue_deliver _ line
  · rename_i fed
    rw [fed]

theorem waiting_feed (b : UInt8) : waiting (r.feed b).channel = waiting r.channel := by
  unfold feed
  split
  · exact waiting_deliver _ _
  · rfl

theorem prefix_feed (b : UInt8) : queue r.channel <+: queue (r.feed b).channel := by
  rw [queue_feed]
  split
  · exact List.prefix_append _ _
  · exact List.prefix_refl _

theorem prefix_foldl_feed (bytes : Bytes) :
    queue r.channel <+: queue (bytes.foldl feed r).channel := by
  induction bytes generalizing r with
  | nil => exact List.prefix_refl _
  | cons b bytes ih => exact (r.prefix_feed b).trans (ih (r.feed b))

/-- A reader that nobody takes anything from keeps what is queued. -/
theorem prefix_run (input : List Read) :
    queue r.channel <+: queue (r.run (input.map .read)).channel := by
  induction input generalizing r with
  | nil => exact Mailbox.queue_send _ _
  | cons read later ih =>
    cases read with
    | data bytes given => exact (r.prefix_foldl_feed bytes).trans (ih _)
    | wouldBlock => exact ih r.pause
    | interrupted => exact ih r
    | failed reason => exact Mailbox.queue_send _ _

theorem waiting_foldl_feed (bytes : Bytes) :
    waiting (bytes.foldl feed r).channel = waiting r.channel := by
  induction bytes generalizing r with
  | nil => rfl
  | cons b bytes ih => exact (ih (r.feed b)).trans (r.waiting_feed b)

variable {r}

theorem fair_run (ready : waiting r.channel = none) (input : List Read) :
    Fair (r.run (input.map .read)).channel := by
  induction input generalizing r with
  | nil => exact fair_send ready _
  | cons read later ih =>
    cases read with
    | data bytes given => exact ih ((r.waiting_foldl_feed bytes).trans ready)
    | wouldBlock => exact @ih r.pause ready
    | interrupted => exact ih ready
    | failed reason => exact fair_send ready _

end Reader

/-- What gets through of the lines that are completed: the first ones, as many as there is room for,
and then some, in the same order. -/
structure Passed (passed completed : List String) : Prop where
  sublist : passed.Sublist completed
  front : passed.take depth = completed.take depth

namespace Passed

variable {passed completed : List String}

theorem take_append_of_le {front whole more : List String} (deep : depth ≤ front.length)
    (same : front.take depth = whole.take depth) (long : front.length ≤ whole.length) :
    front.take depth = (whole ++ more).take depth := by
  rw [same, List.take_append_of_le_length (Nat.le_trans deep long)]

/-- A line gets through. -/
theorem deliver (through : Passed passed completed) (line : String) :
    Passed (passed ++ [line]) (completed ++ [line]) := by
  refine ⟨through.sublist.append (.refl _), ?_⟩
  rcases Nat.lt_or_ge passed.length depth with room | deep
  · have front := through.front
    rw [List.take_of_length_le (Nat.le_of_lt room)] at front
    have same : passed = completed := by
      rcases Nat.le_total completed.length depth with short | long
      · rwa [List.take_of_length_le short] at front
      · have count := congrArg List.length front
        rw [List.length_take_of_le long] at count
        omega
    rw [same]
  · rw [List.take_append_of_le_length deep]
    exact take_append_of_le deep through.front through.sublist.length_le

/-- A line is dropped, which needs lines to be in its way. -/
theorem drop (through : Passed passed completed) (deep : depth ≤ passed.length)
    (line : String) : Passed passed (completed ++ [line]) where
  sublist := through.sublist.trans (List.sublist_append_left _ _)
  front := take_append_of_le deep through.front through.sublist.length_le

/-- A line that got through comes from one that was completed, and no line from before it is missing
among the first ones. -/
theorem origin {earlier later : List String} {line : String}
    (through : Passed (earlier ++ line :: later) completed) :
    ∃ before after, completed = before ++ line :: after ∧
      before.take depth = earlier.take depth := by
  rcases Nat.lt_or_ge earlier.length depth with room | deep
  · have front := congrArg (List.take (earlier.length + 1)) through.front
    rw [List.take_take, List.take_take, Nat.min_eq_left room] at front
    have start : completed.take (earlier.length + 1) = earlier ++ [line] := by
      rw [← front, List.take_append]
      simp
    refine ⟨earlier, completed.drop (earlier.length + 1), ?_, rfl⟩
    rw [List.append_cons, ← start, List.take_append_drop]
  · obtain ⟨front, back, rfl, before, rest⟩ := List.append_sublist_iff.mp through.sublist
    obtain ⟨skipped, after, rfl, member, -⟩ := List.cons_sublist_iff.mp rest
    obtain ⟨behind, ahead, rfl⟩ := List.append_of_mem member
    refine ⟨front ++ behind, ahead ++ after, by simp, ?_⟩
    have long := before.length_le
    have same := through.front
    rw [List.take_append_of_le_length deep,
      List.take_append_of_le_length (Nat.le_trans deep long)] at same
    rw [List.take_append_of_le_length (Nat.le_trans deep long), same]

end Passed

end DeviceShell.Input
