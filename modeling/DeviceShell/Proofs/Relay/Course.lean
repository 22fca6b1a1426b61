import DeviceShell.Relay.Session

/-! The course of a session's loop. It is made of four kinds of change; what each of them keeps is
kept by a whole run. -/
namespace DeviceShell.Relay

/-- The script when one of its moments is over. -/
def Script.passed (s : Script) : Script := { s with flushes := s.flushes.tail }

theorem Script.passed_of_nil {s : Script} (nothing : s.flushes = []) : s.passed = s := by
  obtain ⟨flushes, waits, stops⟩ := s
  cases nothing
  rfl

namespace Drain

variable {π : Type} [Pipe π]

/-- A read that found nothing. -/
def idled (d : Drain π) : Drain π :=
  { d with ring := (d.ring.read (chunkSize d.chunk)).2, reads := d.reads + 1 }

/-- The bytes that the next read takes. -/
def nextChunk (d : Drain π) : Bytes := (d.ring.read (chunkSize d.chunk)).1

/-- A read whose bytes have been pushed to the terminal. -/
def showed (d : Drain π) : Drain π :=
  { d.idled with
    console := (d.console.writeBytes d.nextChunk).flush
    relayed := d.relayed + UInt64.ofNat d.nextChunk.length }

theorem flushed_showed (d : Drain π) :
    d.showed.console.flushed.toList = d.console.flushed.toList ++ [d.console.tail ++ d.nextChunk] := by
  simp [showed, Console.writeBytes, Console.flush]

/-- A property that survives every change the loop makes. -/
structure Kept (P : Drain π → Prop) : Prop where
  act {d : Drain π} (action : Action) : P d → P (d.act action)
  script {d : Drain π} (s : Script) : P d → P { d with script := s }
  idled {d : Drain π} : P d → d.nextChunk = [] → P d.idled
  showed {d : Drain π} : P d → d.nextChunk ≠ [] → P d.showed

theorem run_of_isCancelled [Pipe.Lawful π ringSize] {d : Drain π} (cancelled : d.isCancelled = true) :
    d.run = some d := by
  rw [Drain.run, if_pos cancelled]

theorem run_of_step [Pipe.Lawful π ringSize] {d e : Drain π} (running : d.isCancelled = false)
    (next : d.step = some e) : d.run = e.run := by
  rw [Drain.run, if_neg (by simp [running])]
  split
  · rename_i stuck
    rw [stuck] at next
    cases next
  · rename_i found
    rw [found] at next
    cases next
    rfl

theorem step_of_pending {d : Drain π} (queued : d.ring.pending ≠ 0) : d.step = some d.receive :=
  if_neg queued

/-- A flush pushes what was written, then has its moment. -/
theorem flush_eq (d : Drain π) :
    d.flush = ({ d with console := d.console.flush, script := d.script.passed } : Drain π).visit
      (d.script.flushes.headD {}) := by
  unfold flush
  split
  · rename_i nothing
    rw [nothing, Script.passed_of_nil nothing]
    rfl
  · rename_i moment later coming
    rw [coming, Script.passed, coming]
    rfl

theorem receive_of_nil {d : Drain π} (nothing : d.nextChunk = []) : d.receive = d.idled := by
  have empty : (d.ring.read (chunkSize d.chunk)).1.isEmpty = true := List.isEmpty_iff.mpr nothing
  unfold receive display
  rw [if_pos empty]
  rfl

theorem receive_of_ne_nil {d : Drain π} (something : d.nextChunk ≠ []) :
    d.receive = ({ d.showed with script := d.script.passed } : Drain π).visit
      (d.script.flushes.headD {}) := by
  have full : ¬ (d.ring.read (chunkSize d.chunk)).1.isEmpty = true :=
    fun empty => something (List.isEmpty_iff.mp empty)
  unfold receive display
  rw [if_neg full]
  exact flush_eq _

namespace Kept

variable {P : Drain π → Prop} (kept : Kept P) {d e : Drain π}
include kept

theorem actAll (actions : List Action) (start : P d) : P (d.actAll actions) := by
  induction actions generalizing d with
  | nil => exact start
  | cons action later ih => exact ih (kept.act action start)

theorem visit (moment : Moment) (start : P d) : P (d.visit moment) := by
  have acted := kept.actAll moment.actions start
  unfold Drain.visit settle
  split
  · exact kept.act .raise acted
  · exact acted

theorem flush (start : P { d with console := d.console.flush }) : P d.flush := by
  rw [flush_eq]
  exact kept.visit _ (kept.script _ start)

theorem receive (start : P d) : P d.receive := by
  by_cases chunk : d.nextChunk = []
  · rw [receive_of_nil chunk]
    exact kept.idled start chunk
  · rw [receive_of_ne_nil chunk]
    exact kept.visit _ (kept.script _ (kept.showed start chunk))

theorem step (start : P d) (next : d.step = some e) : P e := by
  unfold Drain.step at next
  split at next
  · split at next
    · contradiction
    · cases next
      exact kept.receive (kept.actAll _ (kept.script _ start))
  · cases next
    exact kept.receive start

/-- The run rule: a session leaves its loop with what every change keeps. -/
theorem run [Pipe.Lawful π ringSize] (start : P d) (left : d.run = some e) : P e := by
  fun_induction Drain.run d with
  | case1 d cancelled =>
    cases left
    exact start
  | case2 d running stuck => contradiction
  | case3 d running next step ih => exact ih (kept.step start step) left

end Kept

/-- A loop is only left when its token is cancelled. -/
theorem isCancelled_of_run [Pipe.Lawful π ringSize] {d e : Drain π} (left : d.run = some e) :
    e.isCancelled = true := by
  fun_induction Drain.run d with
  | case1 d cancelled =>
    cases left
    exact cancelled
  | case2 d running stuck => contradiction
  | case3 d running next step ih => exact ih left

end Drain

end DeviceShell.Relay
