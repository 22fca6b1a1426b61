import DeviceShell.Proofs.Interrupts.Handles
import DeviceShell.Proofs.Relay.Stopping

/-! A session can always be stopped: one that waits for ever returns if somebody interrupts it at
last. -/
namespace DeviceShell

/-- A token that interrupts go to. -/
structure Interrupts.Heeds (token : Token) (i : Interrupts) : Prop where
  armed : i.armed = some token
  inside : token.flag < i.flags.length

namespace Interrupts

variable {token : Token} {i j : Interrupts}

theorem Heeds.of_alike (heeds : i.Heeds token) (alike : i.Alike j) : j.Heeds token :=
  ⟨alike.armed.trans heeds.armed, by rw [alike.flags]; exact heeds.inside⟩

theorem Heeds.raise (heeds : i.Heeds token) : i.raise.isCancelled token = true :=
  (isCancelled_raise i heeds.inside).mpr (.inr heeds.armed)

end Interrupts

theorem Shared.alike_interrupts_act (s : Shared) (action : Action) :
    s.interrupts.Alike (s.act action).interrupts := by
  cases action with
  | raise => exact s.interrupts.alike_raise
  | input byte => exact Interrupts.alike_take byte s.interrupts
  | emit e => exact .refl _
  | setLevel level => exact .refl _
  | setClock clock => exact .refl _

theorem Shared.alike_interrupts_actAll (s : Shared) (actions : List Action) :
    s.interrupts.Alike (s.actAll actions).interrupts := by
  induction actions generalizing s with
  | nil => exact .refl _
  | cons action later ih => exact (s.alike_interrupts_act action).trans (ih (s.act action))

namespace Relay

/-- The script of those who interrupt the session if nothing else is left to do. -/
def Script.interrupted (s : Script) : Script := { s with waits := s.waits ++ [[.raise]] }

namespace Drain

variable {π : Type} [Pipe π] {d e : Drain π}

def interrupted (d : Drain π) : Drain π := { d with script := d.script.interrupted }

theorem kept_heeds (token : Token) :
    Kept fun d : Drain π => d.token = token ∧ d.shared.interrupts.Heeds token where
  act {d} action held := ⟨held.1, held.2.of_alike (d.shared.alike_interrupts_act action)⟩
  script _ held := held
  idled held _ := held
  showed held _ := held

theorem actAll_interrupted (d : Drain π) (actions : List Action) :
    d.interrupted.actAll actions = (d.actAll actions).interrupted := by
  induction actions generalizing d with
  | nil => rfl
  | cons action later ih => exact ih (d.act action)

theorem flush_interrupted (d : Drain π) : d.interrupted.flush = d.flush.interrupted := by
  have actions : d.interrupted.flushActions = d.flushActions := by
    have same : d.interrupted.flushing = d.flushing.interrupted := rfl
    simp only [flushActions, same, actAll_interrupted]
    rfl
  rw [flush_eq_actAll, flush_eq_actAll, actions, ← actAll_interrupted]
  rfl

theorem receive_interrupted (d : Drain π) : d.interrupted.receive = d.receive.interrupted := by
  by_cases chunk : d.nextChunk = []
  · have same : d.interrupted.nextChunk = [] := chunk
    rw [receive_of_nil chunk, receive_of_nil same]
    rfl
  · have same : d.interrupted.nextChunk ≠ [] := chunk
    rw [receive_of_chunk chunk, receive_of_chunk same, ← flush_interrupted]
    rfl

theorem step_interrupted (next : d.step = some e) : d.interrupted.step = some e.interrupted := by
  unfold step at next
  split at next
  · rename_i dry
    split at next
    · cases next
    · rename_i actions later waits
      cases next
      have more : d.interrupted.script.waits = actions :: (later ++ [[.raise]]) := by
        rw [interrupted, Script.interrupted, waits, List.cons_append]
      rw [step, if_pos (show d.interrupted.ring.pending = 0 from dry), more, ← receive_interrupted,
        ← actAll_interrupted]
      rfl
  · rename_i queued
    cases next
    rw [step_of_pending (show d.interrupted.ring.pending ≠ 0 from queued), receive_interrupted]

/-- A session that would wait for ever is interrupted instead. -/
theorem step_interrupted_of_stuck (heeds : d.shared.interrupts.Heeds d.token) (stuck : d.step = none) :
    ∃ e, d.interrupted.step = some e ∧ e.isCancelled = true := by
  unfold step at stuck
  split at stuck
  · rename_i dry
    split at stuck
    · rename_i last
      refine ⟨_, step_of_coming fun _ => ?_, kept_isCancelled.receive ?_⟩
      · simp [interrupted, Script.interrupted]
      · have inside : d.interrupted.readActions = [.raise] := by
          rw [readActions, if_pos (show d.interrupted.ring.pending = 0 from dry), interrupted,
            Script.interrupted, last]
          rfl
        have reading : d.interrupted.reading.shared = d.shared ∧
            d.interrupted.reading.token = d.token := by
          unfold reading
          split <;> exact ⟨rfl, rfl⟩
        rw [inside]
        change Interrupts.isCancelled d.interrupted.reading.token
          d.interrupted.reading.shared.interrupts.raise = true
        rw [reading.1, reading.2]
        exact heeds.raise
    · cases stuck
  · cases stuck

theorem run_interrupted [Pipe.Lawful π ringSize] (heeds : d.shared.interrupts.Heeds d.token) :
    ∃ done, d.interrupted.run = some done := by
  fun_induction Drain.run d with
  | case1 d cancelled => exact ⟨_, run_of_isCancelled cancelled⟩
  | case2 d running stuck =>
    have going : d.interrupted.isCancelled = false := Bool.eq_false_iff.mpr running
    obtain ⟨e, next, cancelled⟩ := step_interrupted_of_stuck heeds stuck
    rw [run_of_step going next]
    exact ⟨e, run_of_isCancelled cancelled⟩
  | case3 d running e next ih =>
    have going : d.interrupted.isCancelled = false := Bool.eq_false_iff.mpr running
    rw [run_of_step going (step_interrupted next)]
    obtain ⟨token, heeds⟩ := (kept_heeds d.token).step ⟨rfl, heeds⟩ next
    exact ih (token.symm ▸ heeds)

end Drain

/-- A session returns if somebody interrupts it when nothing else is left to do. -/
theorem run_interrupted (π : Type) [Pipe π] [Pipe.Lawful π ringSize] {token : Token}
    {shared : Shared}
    (heeds : shared.interrupts.Heeds token) (chunk : Nat) (args : String) (script : Script)
    (console : Console) :
    ∃ ended, run π chunk args script.interrupted token shared console = .ok ended := by
  by_cases accepted : Request.ofArgs args = .help
  · exact ⟨_, by rw [run, accepted]⟩
  · rcases Nat.lt_or_ge shared.log.hub.sinks.length Log.Hub.capacity with room | full
    · let start := opening π chunk (Request.ofArgs args).level? script token shared console
      have held : start.flush.token = token ∧ start.flush.shared.interrupts.Heeds token := by
        refine (Drain.kept_heeds token).flush ⟨rfl, ?_⟩
        change start.shared.interrupts.Heeds token
        rwa [interrupts_opening]
      obtain ⟨done, left⟩ := Drain.run_interrupted (held.1.symm ▸ held.2)
      rw [← Drain.flush_interrupted] at left
      exact ⟨_, (run_of_accepted accepted).trans (listen_of_left accepted room left)⟩
    · obtain ⟨ended, returned, -⟩ := run_of_full π accepted full
      exact ⟨ended, returned⟩

end Relay

end DeviceShell
