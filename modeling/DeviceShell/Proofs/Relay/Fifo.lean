import DeviceShell.Relay.Circle
import DeviceShell.Relay.Ring

/-! A ring is a queue of bounded length, whatever pieces its pipe moves at a time. -/
namespace DeviceShell.Relay

/-- A call on a ring. -/
inductive Call where
  | write (bytes : Bytes)
  | read (room : Nat)
  deriving DecidableEq, Repr

/-- What a call says: how many bytes were accepted, or the bytes that were taken. -/
inductive Answer where
  | accepted (count : Nat)
  | taken (bytes : Bytes)
  deriving DecidableEq, Repr

/-- Calls in turn: their answers, and what is left. -/
def callAll {σ : Type} (step : Call → σ → Answer × σ) : List Call → σ → List Answer × σ
  | [], s => ([], s)
  | call :: later, s =>
    ((step call s).1 :: (callAll step later (step call s).2).1, (callAll step later (step call s).2).2)

/-- A queue of at most `capacity` bytes accepts the first bytes, as many as there is room for, and
gives away the oldest, as many as are asked for. -/
def queueStep (capacity : Nat) : Call → Bytes → Answer × Bytes
  | .write bytes, queue =>
    (.accepted (min bytes.length (capacity - queue.length)),
      queue ++ bytes.take (capacity - queue.length))
  | .read room, queue => (.taken (queue.take room), queue.drop room)

def Ring.step {π : Type} [Pipe π] : Call → Ring π → Answer × Ring π
  | .write bytes, r => (.accepted (r.write bytes).1, (r.write bytes).2)
  | .read room, r => (.taken (r.read room).1, (r.read room).2)

/-- The part of a write that was accepted. -/
def acceptedPart : Call → Answer → Bytes
  | .write bytes, .accepted count => bytes.take count
  | _, _ => []

/-- The accepted parts of all writes, in order. -/
def acceptedBytes (calls : List Call) (answers : List Answer) : Bytes :=
  (List.zipWith acceptedPart calls answers).flatten

/-- All bytes taken, in order. -/
def takenBytes (answers : List Answer) : Bytes :=
  answers.flatMap fun
    | .taken bytes => bytes
    | .accepted _ => []

/-- Bytes offered by all writes. -/
def offered (calls : List Call) : Nat :=
  (calls.flatMap fun
    | .write bytes => bytes
    | .read _ => []).length

/-- How a ring answers calls, and what it then holds, as seen from outside. -/
structure Queued {π : Type} [Pipe π] (capacity : Nat) (calls : List Call) (answers : List Answer)
    (r : Ring π) : Prop where
  answers_eq : answers = (callAll (queueStep capacity) calls []).1
  toList_eq : r.toList = (callAll (queueStep capacity) calls []).2
  pending_eq : r.pending = r.toList.length
  pending_le : r.pending ≤ capacity
  conserved : takenBytes answers ++ r.toList = acceptedBytes calls answers
  counted : offered calls < UInt64.size →
    (acceptedBytes calls answers).length + r.dropped.toNat = offered calls
  stays_full (bytes : Bytes) (between : List Call) (more : Bytes) :
    (r.write bytes).1 < bytes.length →
    takenBytes (callAll Ring.step between (r.write bytes).2).1 = [] →
    ((callAll Ring.step between (r.write bytes).2).2.write more).1 = 0

@[simp] theorem callAll_cons {σ : Type} (step : Call → σ → Answer × σ) (call : Call)
    (later : List Call) (s : σ) :
    callAll step (call :: later) s =
      ((step call s).1 :: (callAll step later (step call s).2).1,
        (callAll step later (step call s).2).2) := rfl

@[simp] theorem takenBytes_cons_taken (bytes : Bytes) (later : List Answer) :
    takenBytes (.taken bytes :: later) = bytes ++ takenBytes later := rfl

@[simp] theorem takenBytes_cons_accepted (count : Nat) (later : List Answer) :
    takenBytes (.accepted count :: later) = takenBytes later := rfl

@[simp] theorem acceptedBytes_cons (call : Call) (calls : List Call) (answer : Answer)
    (answers : List Answer) :
    acceptedBytes (call :: calls) (answer :: answers) =
      acceptedPart call answer ++ acceptedBytes calls answers := rfl

section Queue

variable {capacity : Nat}

private theorem queue_conserved (calls : List Call) (queue : Bytes) :
    takenBytes (callAll (queueStep capacity) calls queue).1 ++
        (callAll (queueStep capacity) calls queue).2 =
      queue ++ acceptedBytes calls (callAll (queueStep capacity) calls queue).1 := by
  induction calls generalizing queue with
  | nil => simp [callAll, takenBytes, acceptedBytes]
  | cons call later ih =>
    have rest := ih (queueStep capacity call queue).2
    cases call with
    | write bytes =>
      have same : bytes.take (min bytes.length (capacity - queue.length)) =
          bytes.take (capacity - queue.length) := by
        rw [List.take_eq_take_iff]
        omega
      simp only [queueStep, callAll_cons, takenBytes_cons_accepted, acceptedBytes_cons,
        acceptedPart, same] at rest ⊢
      rw [rest, List.append_assoc]
    | read room =>
      simp only [queueStep, callAll_cons, takenBytes_cons_taken, acceptedBytes_cons,
        acceptedPart, List.nil_append] at rest ⊢
      rw [List.append_assoc, rest, ← List.append_assoc, List.take_append_drop]

/-- As long as nothing is taken out of a full queue, it stays as it is. -/
private theorem queue_stays_full (calls : List Call) {queue : Bytes}
    (full : capacity ≤ queue.length)
    (untouched : takenBytes (callAll (queueStep capacity) calls queue).1 = []) :
    (callAll (queueStep capacity) calls queue).2 = queue := by
  induction calls with
  | nil => rfl
  | cons call later ih =>
    have same : (queueStep capacity call queue).2 = queue := by
      cases call with
      | write bytes =>
        have no_room : capacity - queue.length = 0 := by omega
        simp [queueStep, no_room]
      | read room =>
        have nothing : queue.take room = [] := (List.append_eq_nil_iff.mp untouched).1
        have whole := List.take_append_drop room queue
        rw [nothing] at whole
        exact whole
    have rest : takenBytes (callAll (queueStep capacity) later queue).1 = [] := by
      rw [callAll_cons, same] at untouched
      cases call with
      | write bytes => exact untouched
      | read room => exact (List.append_eq_nil_iff.mp untouched).2
    rw [callAll_cons, same]
    exact ih rest

end Queue

section Ring

variable {π : Type} [Pipe π] {capacity : Nat} [Pipe.Lawful π capacity]

/-- One call on a ring is one on the queue of its bytes. -/
private theorem step_eq (call : Call) (r : Ring π) :
    (r.step call).1 = (queueStep capacity call r.toList).1 ∧
      (r.step call).2.toList = (queueStep capacity call r.toList).2 := by
  cases call with
  | write bytes =>
    simp only [Ring.step, queueStep, Ring.accepted_write, Ring.toList_write, Ring.pending_eq,
      and_self]
  | read room =>
    simp only [Ring.step, queueStep, Ring.toList_read, and_self]

private theorem callAll_eq (calls : List Call) (r : Ring π) :
    (callAll Ring.step calls r).1 = (callAll (queueStep capacity) calls r.toList).1 ∧
      (callAll Ring.step calls r).2.toList = (callAll (queueStep capacity) calls r.toList).2 := by
  induction calls generalizing r with
  | nil => exact ⟨rfl, rfl⟩
  | cons call later ih =>
    obtain ⟨answer, left⟩ := step_eq call r
    obtain ⟨answers, last⟩ := ih (r.step call).2
    rw [left] at answers last
    refine ⟨?_, last⟩
    rw [callAll_cons, callAll_cons, answer, answers]

/-- What is not accepted is counted, modulo the width of the counter. -/
private theorem dropped_callAll {capacity : Nat} [Pipe.Lawful π capacity] (calls : List Call)
    (r : Ring π) :
    ∃ lost, (callAll Ring.step calls r).2.dropped = r.dropped + UInt64.ofNat lost ∧
      (acceptedBytes calls (callAll Ring.step calls r).1).length + lost = offered calls := by
  induction calls generalizing r with
  | nil => exact ⟨0, by simp [callAll], rfl⟩
  | cons call later ih =>
    obtain ⟨lost, count, sum⟩ := ih (r.step call).2
    cases call with
    | write bytes =>
      refine ⟨bytes.length - (r.write bytes).1 + lost, ?_, ?_⟩
      · rw [callAll_cons, count, UInt64.ofNat_add, ← UInt64.add_assoc]
        rfl
      · have within : (r.write bytes).1 ≤ bytes.length := by
          rw [Ring.accepted_write]
          exact Nat.min_le_left _ _
        rw [callAll_cons, acceptedBytes_cons, List.length_append]
        simp only [Ring.step, acceptedPart, List.length_take, offered, List.flatMap_cons,
          List.length_append] at sum ⊢
        omega
    | read room => exact ⟨lost, count, by simpa [Ring.step, acceptedPart, offered] using sum⟩

private theorem ring_stays_full {capacity : Nat} [Pipe.Lawful π capacity] (r : Ring π)
    (bytes : Bytes) (between : List Call) (more : Bytes)
    (cut : (r.write bytes).1 < bytes.length)
    (untouched : takenBytes (callAll Ring.step between (r.write bytes).2).1 = []) :
    ((callAll Ring.step between (r.write bytes).2).2.write more).1 = 0 := by
  obtain ⟨answers, left⟩ := callAll_eq between (r.write bytes).2
  have full : capacity ≤ (r.write bytes).2.toList.length := by
    rw [Ring.accepted_write] at cut
    rw [Ring.toList_write, List.length_append, List.length_take, ← Ring.pending_eq]
    omega
  rw [answers] at untouched
  rw [queue_stays_full between full untouched] at left
  rw [Ring.accepted_write, Ring.pending_eq, left]
  omega

/-- Every sequence of calls on a new ring. Between the calls of a sequence the same holds of the
calls so far. -/
theorem ring_queued (calls : List Call) :
    Queued capacity calls (callAll Ring.step calls ({} : Ring π)).1
      (callAll Ring.step calls ({} : Ring π)).2 := by
  have nothing : ({} : Ring π).toList = [] := Pipe.Lawful.contents_empty
  obtain ⟨answers, left⟩ := callAll_eq calls ({} : Ring π)
  obtain ⟨lost, count, sum⟩ := dropped_callAll calls ({} : Ring π)
  rw [nothing] at answers left
  refine ⟨answers, left, Ring.pending_eq _, Ring.pending_le _, ?_, fun few => ?_,
    ring_stays_full _⟩
  · rw [answers, left]
    exact queue_conserved calls []
  · have small : lost < UInt64.size := by omega
    rw [count, UInt64.zero_add, UInt64.toNat_ofNat_of_lt' small]
    exact sum

end Ring

/-- The second write goes round the end of the circle, and the third finds it full. -/
def wrapping : List Call :=
  [.write [1, 2, 3, 4, 5, 6], .read 5, .write [7, 8, 9, 10, 11, 12, 13], .write [14], .read 16]

theorem circle_ring_queued :
    Pipe.Lawful (Circle 8) 8 ∧
      Queued 8 wrapping (callAll Ring.step wrapping ({} : Ring (Circle 8))).1
        (callAll Ring.step wrapping ({} : Ring (Circle 8))).2 ∧
      (callAll Ring.step wrapping ({} : Ring (Circle 8))).1 =
        [.accepted 6, .taken [1, 2, 3, 4, 5], .accepted 7, .accepted 0,
          .taken [6, 7, 8, 9, 10, 11, 12, 13]] :=
  ⟨inferInstance, ring_queued wrapping, (ring_queued wrapping).answers_eq.trans (by decide)⟩

end DeviceShell.Relay
