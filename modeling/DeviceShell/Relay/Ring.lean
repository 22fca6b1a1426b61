import DeviceShell.Relay.Pipe

/-! A byte queue over a pipe. Bytes that do not fit are discarded and counted, so a writer never
waits. -/

namespace DeviceShell.Relay

/-- The pipe that keeps the queued bytes, and how many bytes were discarded. -/
structure Ring (π : Type) [Pipe π] where
  pipe : π := Pipe.empty
  dropped : UInt64 := 0

namespace Ring

variable {π : Type} [Pipe π]

/-- Write until everything is in the pipe or a call takes nothing, and say how much went in. -/
def fill (bytes : Bytes) (pipe : π) : Nat × π :=
  if bytes.length = 0 then (0, pipe)
  else
    let (taken, pipe) := Pipe.tryWrite bytes pipe
    if taken = 0 then (0, pipe)
    else
      let (more, pipe) := fill (bytes.drop taken) pipe
      (taken + more, pipe)
termination_by bytes.length
decreasing_by simp only [List.length_drop]; omega

/-- Read until there is no room left or a call hands out nothing. -/
def unload (room : Nat) (pipe : π) : Bytes × π :=
  if room = 0 then ([], pipe)
  else
    let (piece, pipe) := Pipe.tryRead room pipe
    if piece.length = 0 then ([], pipe)
    else
      let (more, pipe) := unload (room - piece.length) pipe
      (piece ++ more, pipe)
termination_by room

def write (bytes : Bytes) (r : Ring π) : Nat × Ring π :=
  let (accepted, pipe) := fill bytes r.pipe
  (accepted, { pipe := pipe, dropped := r.dropped + UInt64.ofNat (bytes.length - accepted) })

def read (room : Nat) (r : Ring π) : Bytes × Ring π :=
  let (bytes, pipe) := unload room r.pipe
  (bytes, { r with pipe := pipe })

def pending (r : Ring π) : Nat := Pipe.pending r.pipe

def toList (r : Ring π) : Bytes := Pipe.contents r.pipe

variable {capacity : Nat} [Pipe.Lawful π capacity]

open Pipe Pipe.Lawful

/-- However the room is cut into pieces, the pipe takes all that fits, in order. -/
theorem fill_eq (bytes : Bytes) (pipe : π) :
    (fill bytes pipe).1 = min bytes.length (capacity - (contents pipe).length) ∧
      contents (fill bytes pipe).2 =
        contents pipe ++ bytes.take (capacity - (contents pipe).length) := by
  fun_induction fill bytes pipe with
  | case1 bytes pipe nothing =>
    have := List.eq_nil_of_length_eq_zero nothing
    subst this
    simp
  | case2 bytes pipe some after call =>
    have appended := contents_tryWrite bytes pipe
    have full : ¬ (contents pipe).length < capacity := by
      intro room
      have progress := tryWrite_pos bytes pipe (List.ne_nil_of_length_pos (by omega)) room
      rw [call] at progress
      exact Nat.lt_irrefl 0 progress
    rw [call] at appended
    have no_room : capacity - (contents pipe).length = 0 := by omega
    rw [appended, no_room]
    simp
  | case3 bytes pipe some taken after call progress more last rest ih =>
    have within := tryWrite_le bytes pipe
    have appended := contents_tryWrite bytes pipe
    have bounded := length_contents_le after
    rw [call] at appended within
    rw [rest] at ih
    obtain ⟨count, order⟩ := ih
    dsimp only at appended within count order ⊢
    have filled : (contents after).length = (contents pipe).length + taken := by
      rw [appended, List.length_append, List.length_take]
      omega
    constructor
    · rw [count, List.length_drop]
      omega
    · have room : taken + (capacity - (contents after).length) =
          capacity - (contents pipe).length := by omega
      rw [order, appended, List.append_assoc, ← appended, ← List.take_add, room]

/-- However the bytes are cut into pieces, a read hands out the oldest ones, up to its room. -/
theorem unload_eq {capacity : Nat} [Pipe.Lawful π capacity] (room : Nat) (pipe : π) :
    (unload room pipe).1 = (contents pipe).take room ∧
      contents (unload room pipe).2 = (contents pipe).drop room := by
  fun_induction unload room pipe with
  | case1 pipe => simp
  | case2 room pipe asked piece after call nothing =>
    have split := contents_tryRead room pipe
    rw [call, List.eq_nil_of_length_eq_zero nothing] at split
    have empty : contents pipe = [] := by
      cases held : contents pipe with
      | nil => rfl
      | cons =>
        have progress := tryRead_ne_nil room pipe asked (by rw [held]; exact List.cons_ne_nil _ _)
        rw [call] at progress
        exact absurd (List.eq_nil_of_length_eq_zero nothing) progress
    rw [empty] at split
    have left : contents after = [] := split
    simp [empty, left]
  | case3 room pipe asked piece after call progress more last rest ih =>
    have split := contents_tryRead room pipe
    have within := length_tryRead_le room pipe
    rw [call] at split within
    rw [rest] at ih
    obtain ⟨front, back⟩ := ih
    dsimp only at split within front back ⊢
    have sum : room = piece.length + (room - piece.length) := by omega
    rw [← split, front, back]
    constructor
    · conv => rhs; rw [sum, List.take_length_add_append]
    · conv => rhs; rw [sum, List.drop_length_add_append]

theorem pending_eq {capacity : Nat} [Pipe.Lawful π capacity] (r : Ring π) :
    r.pending = r.toList.length := Pipe.Lawful.pending_eq r.pipe

theorem pending_le (r : Ring π) : r.pending ≤ capacity :=
  Nat.le_trans (Nat.le_of_eq (pending_eq r)) (length_contents_le r.pipe)

theorem accepted_write (bytes : Bytes) (r : Ring π) :
    (r.write bytes).1 = min bytes.length (capacity - r.pending) := by
  rw [pending_eq]
  exact (fill_eq bytes r.pipe).1

theorem toList_write (bytes : Bytes) (r : Ring π) :
    (r.write bytes).2.toList = r.toList ++ bytes.take (capacity - r.pending) := by
  rw [pending_eq]
  exact (fill_eq bytes r.pipe).2

theorem dropped_write (bytes : Bytes) (r : Ring π) :
    (r.write bytes).2.dropped =
      r.dropped + UInt64.ofNat (bytes.length - (r.write bytes).1) := rfl

/-- What a read returns is the front of the queue, and the rest stays. -/
theorem toList_read {capacity : Nat} [Pipe.Lawful π capacity] (room : Nat) (r : Ring π) :
    (r.read room).1 = r.toList.take room ∧ (r.read room).2.toList = r.toList.drop room :=
  unload_eq room r.pipe

theorem length_read {capacity : Nat} [Pipe.Lawful π capacity] (room : Nat) (r : Ring π) :
    (r.read room).1.length = min room r.pending := by
  rw [(toList_read room r).1, List.length_take, pending_eq]

theorem pending_read {capacity : Nat} [Pipe.Lawful π capacity] (room : Nat) (r : Ring π) :
    (r.read room).2.pending + (r.read room).1.length = r.pending := by
  rw [length_read, pending_eq, (toList_read room r).2, List.length_drop, ← pending_eq]
  omega

end Ring

end DeviceShell.Relay
