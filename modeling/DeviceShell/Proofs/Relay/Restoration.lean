import DeviceShell.Proofs.Log.Registration
import DeviceShell.Proofs.Relay.Ending
import DeviceShell.Relay.Circle
import Mathlib.Data.List.Chain

/-! A session leaves the log as it found it, whichever way it ends. -/
namespace DeviceShell.Relay

/-- The documented order of the stages. -/
inductive Stage.Next : Stage → Stage → Prop
  | refuse : Next .idle .closed
  | override : Next .idle .levelOverridden
  | listen : Next .idle .relaying
  | listenAtLevel : Next .levelOverridden .relaying
  | stop : Next .relaying .draining
  | unregister : Next .draining .restoring
  | restore : Next .restoring .closed

/-- A path from the first stage to the last. -/
structure Stage.Complete (path : List Stage) : Prop where
  first : path.head? = some .idle
  last : path.getLast? = some .closed
  steps : path.IsChain Stage.Next

theorem Request.complete_stages (request : Request) : Stage.Complete request.stages := by
  cases request with
  | help => exact ⟨rfl, rfl, .cons_cons .refuse (.singleton _)⟩
  | keepLevel =>
    exact ⟨rfl, rfl, .cons_cons .listen (.cons_cons .stop (.cons_cons .unregister
      (.cons_cons .restore (.singleton _))))⟩
  | override level =>
    exact ⟨rfl, rfl, .cons_cons .override (.cons_cons .listenAtLevel (.cons_cons .stop
      (.cons_cons .unregister (.cons_cons .restore (.singleton _)))))⟩

section Naming

variable (args : String)

theorem ofArgs_eq_help_iff : Request.ofArgs args = .help ↔
    Text.trim args ≠ "" ∧ Log.Level.ofName? (Text.trim args) = none := by
  unfold Request.ofArgs
  dsimp only
  cases named : Log.Level.ofName? (Text.trim args) with
  | none => by_cases empty : Text.trim args = "" <;> simp [empty]
  | some level => by_cases empty : Text.trim args = "" <;> simp [empty]

/-- A session is asked for the level that its argument names. -/
theorem level?_ofArgs : (Request.ofArgs args).level? = Log.Level.ofName? (Text.trim args) := by
  unfold Request.ofArgs
  dsimp only
  by_cases empty : Text.trim args = ""
  · rw [empty]
    rfl
  · rw [if_neg (by simpa using empty)]
    cases Log.Level.ofName? (Text.trim args) <;> rfl

/-- A name that a level has is accepted. -/
theorem ofArgs_of_name {level : Log.Level} (named : Text.trim args = level.name) :
    Request.ofArgs args = .override level := by
  have some_name : level.name.isEmpty = false := by cases level <;> decide
  simp [Request.ofArgs, named, some_name, Log.Level.ofName?_name]

/-- The stages that lie between the first one and the listening. -/
theorem stages_of_accepted (accepted : Request.ofArgs args ≠ .help) :
    (Request.ofArgs args).stages =
      .idle :: ((Log.Level.ofName? (Text.trim args)).toList.map fun _ => .levelOverridden) ++
        [.relaying, .draining, .restoring, .closed] := by
  rw [← level?_ofArgs]
  cases request : Request.ofArgs args with
  | help => exact absurd request accepted
  | keepLevel => rfl
  | override level => rfl

end Naming

variable {π : Type} [Pipe π] [Pipe.Lawful π ringSize] {chunk : Nat} {args : String}
  {script : Script} {token : Token} {shared : Shared} {console : Console} {ended : Ended}

private theorem writeLines (lines : List String) (console : Console) :
    lines.foldl (fun c line => c.write line) console =
      console.writeBytes (lines.flatMap Text.encode) := by
  induction lines generalizing console with
  | nil => simp [Console.writeBytes]
  | cons line later ih =>
    rw [List.foldl_cons, ih]
    simp [Console.write, Console.writeBytes]

/-- The level that a session leaves: the one that it found, if it was asked for another one. -/
theorem level_ended (returned : run π chunk args script token shared console = .ok ended) :
    ended.shared.log.hub.level =
      match Log.Level.ofName? (Text.trim args) with
      | some _ => shared.log.hub.level
      | none => lastLevel shared.log.hub.level
          (meanwhile π chunk args script token shared console) := by
  rw [← level?_ofArgs]
  rcases run_cases returned with ⟨asked, nowhere, rfl⟩ | ⟨-, nowhere, -, -, -, level, -⟩ |
    ⟨done, -, somewhere, -, left, rfl⟩
  · rw [asked, meanwhile, nowhere]
    rfl
  · rw [level, meanwhile, nowhere]
    cases (Request.ofArgs args).level? <;> rfl
  · have level := (follows_of_run _ (by rfl) left).level
    rw [level_opening] at level
    rw [Drain.hub_ended, Drain.level_restored, level, meanwhile, somewhere]
    cases (Request.ofArgs args).level? <;> rfl

/-- A session that returns leaves the sinks as it found them, if its own had a new identity; so it
had if the log had registered fewer than 2^32 sinks before. It leaves the level as it found it, even
if others changed it meanwhile, when its argument names a level; otherwise theirs is the last
word. -/
theorem run_restores (returned : run π chunk args script token shared console = .ok ended) :
    let name := Text.trim args
    let named := Log.Level.ofName? name
    (shared.log.hub.nextId ∉ shared.log.hub.sinks →
      ended.shared.log.hub.sinks = shared.log.hub.sinks) ∧
    (∀ level calls, shared.log.hub = ({ level := level } : Log.Hub).callAll calls →
      calls.count .addSink < UInt32.size →
      ended.shared.log.hub.sinks = shared.log.hub.sinks) ∧
    (ended.shared.log.hub.level =
      match named with
      | some _ => shared.log.hub.level
      | none => lastLevel shared.log.hub.level
          (meanwhile π chunk args script token shared console)) ∧
    (name ≠ "" → named = none →
      ended.shared = shared ∧ ended.asked.toList = [] ∧
      ended.console.output = console.output ++ levelHelp.flatMap Text.encode ∧
      ended.console.flushed = console.flushed ∧
      ended.console.tail = console.tail ++ levelHelp.flatMap Text.encode) ∧
    ∀ report, ended.result = .ok report →
      report.visited =
        (if name ≠ "" ∧ named = none then [.idle, .closed]
        else .idle :: (named.toList.map fun _ => .levelOverridden) ++
          [.relaying, .draining, .restoring, .closed]) ∧
      Stage.Complete report.visited ∧
      report.restored = named.map fun _ => shared.log.hub.level := by
  intro name named
  have sinks (fresh : shared.log.hub.nextId ∉ shared.log.hub.sinks) :=
    sinks_of_run fresh returned
  refine ⟨sinks, fun _ _ made few => sinks (Log.Hub.nextId_notMem_callAll made few),
    level_ended returned, fun some_name none => ?_, fun report ok => ?_⟩
  · have asked : Request.ofArgs args = .help := (ofArgs_eq_help_iff args).mpr ⟨some_name, none⟩
    rcases run_cases returned with ⟨-, -, rfl⟩ | ⟨accepted, -⟩ | ⟨-, accepted, -⟩
    · rw [writeLines]
      exact ⟨rfl, rfl, Console.output_writeBytes _ _, rfl, rfl⟩
    · exact absurd asked accepted
    · exact absurd asked accepted
  · rcases run_cases returned with ⟨asked, -, rfl⟩ | ⟨-, -, -, failed, -⟩ |
      ⟨done, accepted, -, -, -, rfl⟩
    · obtain ⟨some_name, none⟩ := (ofArgs_eq_help_iff args).mp asked
      cases ok
      rw [if_pos ⟨some_name, none⟩]
      refine ⟨rfl, Request.complete_stages .help, ?_⟩
      simp only [named, name, none]
      rfl
    · rw [failed] at ok
      cases ok
    · obtain rfl : done.report _ _ = report := Except.ok.inj ok
      rw [if_neg (mt (ofArgs_eq_help_iff args).mpr accepted)]
      simp only [Drain.report]
      refine ⟨stages_of_accepted args accepted, Request.complete_stages _, ?_⟩
      rw [level?_ofArgs]

/-- A log that two sinks listen to, while a command runs that the interrupt byte stops. -/
def watched : Shared where
  log := { hub := { level := .warn, nextId := ⟨3⟩, sinks := [⟨1⟩, ⟨2⟩] } }
  interrupts := { byte := 3, flags := [false], armed := some ⟨0⟩ }

/-- The level is changed from outside while the session has one of its own, and is found again. -/
theorem run_restores_watched :
    ∃ ended,
      run (Circle ringSize) 64 " debug " { flushes := [{ actions := [.setLevel .error, .raise] }] } ⟨0⟩
          watched {} = .ok ended ∧
      ended.shared.log.hub.sinks = [⟨1⟩, ⟨2⟩] ∧ ended.shared.log.hub.level = .warn := by
  have asked : Request.ofArgs " debug " = .override .debug := ofArgs_of_name _ (by decide +kernel)
  have accepted : Request.ofArgs " debug " ≠ .help := by
    rw [asked]
    exact Request.noConfusion
  have returned : run (Circle ringSize) 64 " debug "
      { flushes := [{ actions := [.setLevel .error, .raise] }] } ⟨0⟩ watched {} = .ok _ :=
    (run_of_accepted accepted).trans
      (listen_of_left accepted (by decide) (Drain.run_of_isCancelled (by decide +kernel)))
  obtain ⟨sinks, -, level, -⟩ := run_restores returned
  refine ⟨_, returned, sinks (by decide), ?_⟩
  rw [level, ← level?_ofArgs, asked]
  rfl

end DeviceShell.Relay
