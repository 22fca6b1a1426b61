import DeviceShell.Proofs.Relay.Events
import DeviceShell.Proofs.Relay.Transfer
import Mathlib.Algebra.Order.Floor.Div

/-! How a session cuts up what is queued. Behind a last record its loop shows the queue in pieces of
one size and adds nothing, so only the places of the cuts depend on the size. -/
namespace DeviceShell.Relay

/-- Bytes cut into pieces of one size, of which the last may be shorter. -/
def pieces (size : Nat) (bytes : Bytes) : List Bytes :=
  if bytes = [] ∨ size = 0 then [] else bytes.take size :: pieces size (bytes.drop size)
termination_by bytes.length
decreasing_by
  rename_i some
  have := List.length_pos_of_ne_nil fun none => some (.inl none)
  simp only [List.length_drop]
  omega

section Pieces

variable {size : Nat} {bytes piece : Bytes}

theorem pieces_nil (size : Nat) : pieces size [] = [] := by
  rw [pieces, if_pos (.inl rfl)]

theorem pieces_of_ne_nil (pos : 0 < size) (some : bytes ≠ []) :
    pieces size bytes = bytes.take size :: pieces size (bytes.drop size) := by
  rw [pieces, if_neg (not_or.mpr ⟨some, Nat.ne_of_gt pos⟩)]

theorem flatten_pieces (pos : 0 < size) (bytes : Bytes) : (pieces size bytes).flatten = bytes := by
  fun_induction pieces size bytes with
  | case1 bytes nothing => exact (nothing.resolve_right (Nat.ne_of_gt pos)).symm
  | case2 bytes some ih => rw [List.flatten_cons, ih, List.take_append_drop]

theorem length_pieces (pos : 0 < size) (bytes : Bytes) :
    (pieces size bytes).length = bytes.length ⌈/⌉ size := by
  fun_induction pieces size bytes with
  | case1 bytes nothing =>
    rw [nothing.resolve_right (Nat.ne_of_gt pos), List.length_nil, List.length_nil, zero_ceilDiv]
  | case2 bytes some ih =>
    have filled := List.length_pos_of_ne_nil fun none => some (.inl none)
    rw [List.length_cons, ih, List.length_drop, Nat.ceilDiv_eq_add_pred_div,
      Nat.ceilDiv_eq_add_pred_div]
    by_cases last : bytes.length ≤ size
    · have one : (bytes.length + size - 1) / size = 1 := by
        rw [Nat.div_eq_iff pos]
        omega
      have none : (bytes.length - size + size - 1) / size = 0 := Nat.div_eq_of_lt (by omega)
      rw [one, none]
    · have more : bytes.length + size - 1 = bytes.length - size + size - 1 + size := by omega
      rw [more, Nat.add_div_right _ pos]

theorem length_of_mem_dropLast_pieces (pos : 0 < size)
    (member : piece ∈ (pieces size bytes).dropLast) : piece.length = size := by
  fun_induction pieces size bytes with
  | case1 bytes nothing => cases member
  | case2 bytes some ih =>
    by_cases last : bytes.drop size = []
    · rw [last, pieces_nil] at member
      cases member
    · rw [List.dropLast_cons_of_ne_nil (by rw [pieces_of_ne_nil pos last]; exact List.cons_ne_nil _ _)]
        at member
      rcases List.mem_cons.mp member with rfl | later
      · have beyond : size < bytes.length := by simpa using last
        rw [List.length_take, Nat.min_eq_left beyond.le]
      · exact ih later

end Pieces

/-- A ring that was empty, has been offered bytes and has not been read. -/
structure Ring.Offered {π : Type} [Pipe π] (capacity : Nat) (bytes : Bytes) (r : Ring π) : Prop where
  toList : r.toList = bytes.take capacity
  dropped : r.dropped = UInt64.ofNat (bytes.length - capacity)

section Offering

variable {π : Type} [Pipe π] {capacity : Nat} [Pipe.Lawful π capacity] {r : Ring π} {bytes : Bytes}

theorem Ring.offered_new : ({} : Ring π).Offered capacity [] where
  toList := by
    rw [List.take_nil]
    exact Pipe.Lawful.contents_empty
  dropped := by rw [List.length_nil, Nat.zero_sub]; rfl

/-- What was offered before takes its room first. -/
theorem Ring.Offered.write (offered : r.Offered capacity bytes) (more : Bytes) :
    (r.write more).2.Offered capacity (bytes ++ more) := by
  have held : r.pending = min capacity bytes.length := by
    rw [Ring.pending_eq, offered.toList, List.length_take]
  constructor
  · have room : capacity - min capacity bytes.length = capacity - bytes.length := by omega
    rw [Ring.toList_write, held, offered.toList, room, List.take_append]
  · rw [Ring.dropped_write, Ring.accepted_write, held, offered.dropped, ← UInt64.ofNat_add,
      List.length_append]
    congr 1
    omega

theorem Ring.Offered.acceptAll {inbox : Inbox π} (offered : inbox.ring.Offered capacity bytes)
    (records : List String) :
    (records.foldl Inbox.accept inbox).ring.Offered capacity
      (bytes ++ records.flatMap Text.encode) := by
  induction records generalizing inbox bytes with
  | nil => rwa [List.flatMap_nil, List.append_nil]
  | cons record later ih =>
    rw [List.foldl_cons, List.flatMap_cons, ← List.append_assoc]
    exact ih (offered.write (Text.encode record))

end Offering

/-- Nothing among the actions is for the log. -/
def Silent (actions : List Action) : Prop := ∀ e, .emit e ∉ actions

section Listening

variable {π : Type} [Pipe π] {d e full start done : Drain π} {others : List Log.SinkId}
  {actions : List Action} {segments : List Bytes}

theorem Silent.append {first second : List Action} :
    Silent (first ++ second) ↔ Silent first ∧ Silent second := by
  simp only [Silent, List.mem_append, not_or, forall_and]

theorem heard_of_silent (silent : Silent actions) (level : Log.Level) (clock : UInt64) :
    heard level clock actions = [] := by
  induction actions generalizing level clock with
  | nil => rfl
  | cons action later ih =>
    have rest : Silent later := fun e member => silent e (List.mem_cons_of_mem _ member)
    cases action with
    | emit e => exact absurd List.mem_cons_self (silent e)
    | setLevel new => exact ih rest new clock
    | setClock new => exact ih rest level new
    | raise => exact ih rest level clock
    | input byte => exact ih rest level clock

namespace Drain

theorem ring_act_of_silent {action : Action} (silent : Silent [action]) :
    (d.act action).ring = d.ring := by
  cases action with
  | emit e => exact absurd (List.mem_singleton_self _) (silent e)
  | setLevel new => rfl
  | setClock new => rfl
  | raise => rfl
  | input byte => rfl

theorem ring_actAll_of_silent (silent : Silent actions) : (d.actAll actions).ring = d.ring := by
  induction actions generalizing d with
  | nil => rfl
  | cons action later ih =>
    obtain ⟨first, rest⟩ := Silent.append.mp (List.singleton_append ▸ silent)
    exact (ih rest).trans (ring_act_of_silent first)

/-- An inbox accepts what is heard of all actions, in order. -/
theorem inbox_actAll (listens : d.Listens others) (actions : List Action) :
    (d.actAll actions).toInbox =
      (heard d.shared.log.hub.level d.shared.log.clock actions).foldl Inbox.accept d.toInbox := by
  induction actions generalizing d with
  | nil => rfl
  | cons action later ih =>
    have after : (d.act action).Listens others :=
      ⟨(Shared.sinks_actAll d.shared [action]).trans listens.sinks, listens.fresh⟩
    have level : (d.act action).shared.log.hub.level = lastLevel d.shared.log.hub.level [action] :=
      Shared.level_actAll d.shared [action]
    have clock : (d.act action).shared.log.clock = lastClock d.shared.log.clock [action] :=
      Shared.clock_actAll d.shared [action]
    rw [← List.singleton_append, heard_append, List.foldl_append, ← inbox_act listens, ← level, ← clock]
    exact ih after

/-- The loop `d` has shown segments of what was queued when it was `full`, and nothing else was
said. -/
structure Delivers (full d : Drain π) (segments : List Bytes) : Prop where
  chunk : d.chunk = full.chunk
  flushed : d.console.flushed.toList = full.console.flushed.toList ++ segments
  tail : d.console.tail = []
  relayed : d.relayed = full.relayed + UInt64.ofNat segments.flatten.length
  dropped : d.ring.dropped = full.ring.dropped
  rest : segments ++ pieces (chunkSize full.chunk) d.ring.toList =
    pieces (chunkSize full.chunk) full.ring.toList

theorem Delivers.idled [Pipe.Lawful π ringSize] (delivers : full.Delivers d segments)
    (nothing : d.nextChunk = []) : full.Delivers d.idled segments := by
  have dry : d.idled.ring.toList = d.ring.toList := by
    rw [nextChunk_eq] at nothing
    rw [toList_idled, ← List.nil_append (d.ring.toList.drop _), ← nothing, List.take_append_drop]
  exact ⟨delivers.chunk, delivers.flushed, delivers.tail, delivers.relayed, delivers.dropped,
    dry ▸ delivers.rest⟩

theorem Delivers.showed [Pipe.Lawful π ringSize] (delivers : full.Delivers d segments)
    (something : d.nextChunk ≠ []) : full.Delivers d.showed (segments ++ [d.nextChunk]) where
  chunk := delivers.chunk
  flushed := by
    rw [flushed_showed, delivers.flushed, delivers.tail, List.nil_append, List.append_assoc]
  tail := rfl
  relayed := by
    have grown : d.showed.relayed = d.relayed + UInt64.ofNat d.nextChunk.length := rfl
    rw [grown, delivers.relayed, UInt64.add_assoc, ← UInt64.ofNat_add, List.flatten_append,
      List.flatten_singleton, List.length_append]
  dropped := delivers.dropped
  rest := by
    have queued : d.ring.toList ≠ [] := by
      intro none
      rw [nextChunk_eq, none, List.take_nil] at something
      exact something rfl
    have left : d.showed.ring.toList = d.ring.toList.drop (chunkSize d.chunk) := d.toList_idled
    rw [left, nextChunk_eq, List.append_assoc, List.singleton_append, delivers.chunk,
      ← pieces_of_ne_nil (chunkSize_pos _) queued]
    exact delivers.rest

/-- As long as nothing more is said, a loop only cuts up what is queued. -/
theorem kept_delivers [Pipe.Lawful π ringSize] (full : Drain π) :
    Kept fun d => ∃ later, d.outside.toList = full.outside.toList ++ later ∧
      (Silent later → ∃ segments, full.Delivers d segments) where
  act {d} action kept := by
    obtain ⟨later, outside, delivers⟩ := kept
    refine ⟨later ++ [action], ?_, fun silent => ?_⟩
    · simp [Drain.act, outside]
    · obtain ⟨before, quiet⟩ := Silent.append.mp silent
      obtain ⟨segments, delivers⟩ := delivers before
      have ring := ring_act_of_silent (d := d) quiet
      exact ⟨segments, delivers.chunk, delivers.flushed, delivers.tail, delivers.relayed,
        ring ▸ delivers.dropped, ring ▸ delivers.rest⟩
  script _ kept := by
    obtain ⟨later, outside, delivers⟩ := kept
    refine ⟨later, outside, fun silent => ?_⟩
    obtain ⟨segments, delivers⟩ := delivers silent
    exact ⟨segments, delivers.chunk, delivers.flushed, delivers.tail, delivers.relayed,
      delivers.dropped, delivers.rest⟩
  idled kept nothing := by
    obtain ⟨later, outside, delivers⟩ := kept
    refine ⟨later, outside, fun silent => ?_⟩
    obtain ⟨segments, delivers⟩ := delivers silent
    exact ⟨segments, delivers.idled nothing⟩
  showed kept something := by
    obtain ⟨later, outside, delivers⟩ := kept
    refine ⟨later, outside, fun silent => ?_⟩
    obtain ⟨segments, delivers⟩ := delivers silent
    exact ⟨_, delivers.showed something⟩

/-- At a flush others say what they have come to say, whether or not somebody cancels the
session. -/
theorem heard_flushActions (d : Drain π) (level : Log.Level) (clock : UInt64) :
    heard level clock d.flushActions = heard level clock (d.script.flushes.headD {}).actions := by
  have raise : Silent [.raise] := fun e member => nomatch List.mem_singleton.mp member
  rw [flushActions, heard_append]
  split
  · rw [heard_of_silent raise, List.append_nil]
  · exact List.append_nil _

/-- What is said at the first flush is queued as far as the ring has room. -/
theorem offered_flush [Pipe.Lawful π ringSize] (listens : start.Listens others)
    (empty : start.toInbox = {}) :
    start.flush.ring.Offered ringSize
      ((heard start.shared.log.hub.level start.shared.log.clock
        (start.script.flushes.headD {}).actions).flatMap Text.encode) := by
  have listens : start.flushing.Listens others := ⟨listens.sinks, listens.fresh⟩
  have unread : start.flushing.toInbox = {} := empty
  rw [flush_eq_actAll, inbox_actAll listens, unread]
  have told : heard start.flushing.shared.log.hub.level start.flushing.shared.log.clock
      start.flushActions = heard start.shared.log.hub.level start.shared.log.clock
        (start.script.flushes.headD {}).actions := heard_flushActions ..
  have nothing : ({} : Inbox π).ring.Offered ringSize [] := Ring.offered_new
  rw [told]
  exact nothing.acceptAll _

theorem frame_actAll (d : Drain π) (actions : List Action) :
    (d.actAll actions).chunk = d.chunk ∧ (d.actAll actions).relayed = d.relayed := by
  induction actions generalizing d with
  | nil => exact ⟨rfl, rfl⟩
  | cons action later ih => exact ih (d.act action)

theorem delivers_self (flushed : d.console.tail = []) : d.Delivers d [] where
  chunk := rfl
  flushed := (List.append_nil _).symm
  tail := flushed
  relayed := (UInt64.add_zero _).symm
  dropped := rfl
  rest := List.nil_append _

end Drain

end Listening

end DeviceShell.Relay
