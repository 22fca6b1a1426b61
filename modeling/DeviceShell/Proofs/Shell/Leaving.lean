import DeviceShell.Proofs.Monitor.Course
import DeviceShell.Proofs.Shell.Looping

/-! What a line leaves behind when it returns, whatever others did meanwhile. -/
namespace DeviceShell

/-- From `d` to `e` a device keeps its sinks, its level unless others set one, and whether an
application is open. At most one identity for sinks has been used up. -/
structure Device.Left (others : List Action) (d e : Device) : Prop where
  appRunning : e.flags.appRunning = d.flags.appRunning
  sinks : d.shared.log.hub.nextId ∉ d.shared.log.hub.sinks →
    e.shared.log.hub.sinks = d.shared.log.hub.sinks
  level : (∀ level, .setLevel level ∉ others) →
    e.shared.log.hub.level = d.shared.log.hub.level
  numbered {asked : Nat} : d.shared.log.hub.Numbered asked →
    ∃ more ≤ 1, e.shared.log.hub.Numbered (asked + more)

namespace Device

variable {others : List Action} {d e : Device}

/-- What does not touch the hub leaves it. -/
theorem Left.of_hub (hub : e.shared.log.hub = d.shared.log.hub)
    (appRunning : e.flags.appRunning = d.flags.appRunning) : d.Left others e where
  appRunning := appRunning
  sinks _ := by rw [hub]
  level _ := by rw [hub]
  numbered numbered := ⟨0, Nat.zero_le 1, by rwa [hub]⟩

theorem Left.of_actAll {actions : List Action}
    (shared : e.shared = d.shared.actAll actions)
    (appRunning : e.flags.appRunning = d.flags.appRunning) : d.Left actions e where
  appRunning := appRunning
  sinks _ := by rw [shared, Shared.sinks_actAll]
  level untouched := by rw [shared, Shared.level_actAll, lastLevel_of_untouched untouched]
  numbered numbered := by
    rw [shared]
    exact ⟨0, Nat.zero_le 1, Shared.numbered_actAll numbered actions⟩

end Device

namespace Shell

/-- What others do while a task that returns after some pauses is carried out. -/
def othersDuring (shell : Shell) (task : Command.Task) (args : String) (meanwhile : Meanwhile)
    (token : Token) (device : Device) (console : Console) (pauses : Nat) : List Action :=
  match task with
  | .log =>
    Relay.meanwhile (Relay.Circle Relay.ringSize) shell.config.relayChunk.toNat args meanwhile.relay
      token device.shared console
  | .top => (meanwhile.pauses.take pauses).flatten
  | _ => []

/-- What others do while a line that returns after some pauses is carried out. -/
def others (shell : Shell) (line : String) (meanwhile : Meanwhile) (device : Device)
    (console : Console) (pauses : Nat) : List Action :=
  match shell.starting line device with
  | none => []
  | some (entry, args) =>
    shell.othersDuring entry.task args meanwhile (armed entry device).1 (armed entry device).2
      (console.write "\r\n") pauses

variable {shell : Shell} {args line : String} {meanwhile : Meanwhile} {token : Token}
  {device : Device} {console : Console} {effect : Effect} {done : Execution}

/-- A device that is watched changes only by what others do. -/
theorem watch_actAll (token : Token) (pauses : List (List Action)) (device : Device) :
    ((view token).watch (pauses.map Device.actAll) device).shared =
        device.shared.actAll pauses.flatten ∧
      ((view token).watch (pauses.map Device.actAll) device).flags = device.flags := by
  induction pauses generalizing device with
  | nil => exact ⟨rfl, rfl⟩
  | cons actions later ih =>
    obtain ⟨shared, flags⟩ := ih (device.advance.actAll actions)
    refine ⟨shared.trans ?_, flags⟩
    rw [List.flatten_cons, Shared.actAll_append]
    rfl

theorem left_log (performed : shell.log args meanwhile.relay token device console = .ok effect) :
    device.Left (Relay.meanwhile (Relay.Circle Relay.ringSize) shell.config.relayChunk.toNat args
      meanwhile.relay token device.shared console) effect.device := by
  unfold log at performed
  generalize returned : Relay.run (Relay.Circle Relay.ringSize) _ _ _ _ _ _ = result at performed
  cases result with
  | error halt => cases performed
  | ok ended =>
    cases performed
    exact ⟨rfl, fun fresh => Relay.sinks_of_run fresh returned,
      fun untouched => Relay.level_of_run untouched returned,
      fun numbered => Relay.numbered_of_run numbered returned⟩

theorem left_top (performed : shell.top args meanwhile.pauses token device console = .ok effect) :
    device.Left (meanwhile.pauses.take effect.pauses.length).flatten effect.device := by
  unfold top at performed
  split at performed
  · cases performed
    exact .of_hub rfl rfl
  · generalize redrawn : Monitor.redraw _ _ _ _ _ = result at performed
    cases result with
    | error halt => cases performed
    | ok drawn =>
      cases performed
      rcases Monitor.redraw_ok redrawn with ⟨subject, -⟩ | watched
      · refine .of_hub ?_ ?_ <;>
          · dsimp only
            rw [subject]
            rfl
      · rw [← List.map_take] at watched
        obtain ⟨shared, flags⟩ := watch_actAll token
          (meanwhile.pauses.take drawn.pauses.toList.length) device
        rw [← watched] at shared flags
        exact .of_actAll shared (congrArg Flags.appRunning flags)

theorem left_perform {task : Command.Task}
    (performed : shell.perform task args meanwhile token device console = .ok effect) :
    device.Left (shell.othersDuring task args meanwhile token device console effect.pauses.length)
      effect.device := by
  cases task with
  | log =>
    rw [perform] at performed
    exact left_log performed
  | top =>
    rw [perform] at performed
    exact left_top performed
  | help =>
    unfold perform at performed
    generalize Command.help _ _ _ = text at performed
    cases text <;> cases performed
    exact .of_hub rfl rfl
  | info all =>
    cases performed
    refine .of_hub ?_ ?_ <;>
      · unfold info
        split <;> rfl
  | sysctl =>
    cases performed
    unfold sysctl
    split
    · exact .of_hub rfl rfl
    · exact .of_hub rfl rfl
    · rename_i switch _
      cases switch <;> exact .of_hub rfl rfl
  | free | uptime | source | clear | neofetch =>
    cases performed
    exact .of_hub rfl rfl

/-- A line that returns starts nothing and at most leaves a word in the log, or it starts a command
and concludes it. -/
theorem execute_cases (executed : shell.execute line meanwhile device console = .ok done) :
    (shell.starting line device = none ∧
      (done.device = device ∨ ∃ notice, done.device = device.announce notice)) ∨
    ∃ entry args effect, shell.starting line device = some (entry, args) ∧
      shell.perform entry.task args meanwhile (armed entry device).1 (armed entry device).2
        (console.write "\r\n") = .ok effect ∧
      done = conclude entry args effect := by
  cases starts : shell.starting line device with
  | some started =>
    obtain ⟨entry, args⟩ := started
    rw [execute_of_starting starts, launch_eq] at executed
    generalize performed : shell.perform _ _ _ _ _ _ = result at executed
    cases result with
    | error halt => cases executed
    | ok effect =>
      cases executed
      exact .inr ⟨entry, args, effect, rfl, performed, rfl⟩
  | none =>
    refine .inl ⟨rfl, ?_⟩
    rcases execute_of_idle starts meanwhile console with ⟨-, same⟩ | ⟨-, -, same⟩ | ⟨entry, -, same⟩
    · rw [same] at executed
      cases executed
      exact .inl rfl
    · rw [same] at executed
      generalize Command.help _ _ _ = text at executed
      cases text <;> cases executed
      exact .inr ⟨_, rfl⟩
    · rw [same] at executed
      cases executed
      exact .inl rfl

/-- Whatever a line comes to, when it returns the interrupts go to nobody. -/
theorem armed_execute (disarmed : device.shared.interrupts.armed = none)
    (executed : shell.execute line meanwhile device console = .ok done) :
    done.device.shared.interrupts.armed = none := by
  rcases execute_cases executed with ⟨-, same | ⟨notice, said⟩⟩ | ⟨entry, args, effect, -, -, rfl⟩
  · rw [same, disarmed]
  · rw [said]
    exact disarmed
  · rfl

theorem left_execute (executed : shell.execute line meanwhile device console = .ok done) :
    device.Left (shell.others line meanwhile device console done.pauses.length) done.device := by
  rcases execute_cases executed with ⟨-, same | ⟨notice, said⟩⟩ |
    ⟨entry, args, effect, starts, performed, rfl⟩
  · rw [same]
    exact .of_hub rfl rfl
  · rw [said]
    exact .of_hub rfl rfl
  · have left := left_perform performed
    rw [others, starts]
    exact ⟨left.appRunning, left.sinks, left.level, left.numbered⟩

end Shell

end DeviceShell
