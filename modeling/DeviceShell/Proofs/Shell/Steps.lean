import DeviceShell.Proofs.Shell.Leaving

/-! A shell that is at work for a long time. Between its lines the table, the log and the flags may
change, and interrupts may come that nobody waits for. -/
namespace DeviceShell.Shell

/-- A shell, with the device and the console that it works on. -/
structure Desk where
  shell : Shell
  device : Device
  console : Console := {}

/-- What happens between two lines. -/
inductive Change where
  | addCommand (entry : Command.Entry)
  | removeCommand (name : String)
  | setAppRunning (running : Bool)
  | act (action : Action)
  | addSink
  | removeSink (id : Log.SinkId)
  | prompt

inductive Step where
  | line (text : String) (meanwhile : Meanwhile)
  | change (change : Change)

/-- An interrupt between two lines, or a byte that could be one. -/
def Step.interrupts : Step → Bool
  | .change (.act .raise) | .change (.act (.input _)) => true
  | _ => false

namespace Desk

def withTable (table : Command.Table) (d : Desk) : Desk :=
  { d with shell := { d.shell with table := table } }

def withLog (log : Log.Station) (d : Desk) : Desk :=
  { d with device := { d.device with shared := { d.device.shared with log := log } } }

def change (d : Desk) : Change → Desk
  | .addCommand entry => d.withTable ((d.shell.table.add entry).toOption.getD d.shell.table)
  | .removeCommand name => d.withTable (d.shell.table.remove name).2
  | .setAppRunning running =>
    { d with device := { d.device with flags := { d.device.flags with appRunning := running } } }
  | .act action => { d with device := d.device.actAll [action] }
  | .addSink => d.withLog d.device.shared.log.addSink.2
  | .removeSink id => d.withLog (d.device.shared.log.removeSink id).2
  | .prompt => { d with console := d.shell.prompt d.console }

/-- Carry out a line: what came of it, and the desk after it. -/
def line (text : String) (meanwhile : Meanwhile) (d : Desk) : Except Halt (Execution × Desk) :=
  (d.shell.execute text meanwhile d.device d.console).map fun done =>
    (done, { d with device := done.device, console := done.console })

/-- Steps in turn: what came of each line, and the desk after them. -/
def run : List Step → Desk → Except Halt (List Execution × Desk)
  | [], d => .ok ([], d)
  | .change change :: later, d => run later (d.change change)
  | .line text meanwhile :: later, d => do
    let (done, next) ← d.line text meanwhile
    let (answers, last) ← run later next
    return (done :: answers, last)

def hub (d : Desk) : Log.Hub := d.device.shared.log.hub

/-- After a line everything is as it was before: nobody is armed, and the commands, the sinks, the
flag for an open application and the level are the same. The sinks are if the hub's next identity
was not in use, and the level is if others have not set it during the line. -/
structure Resumed (others : List Action) (before after : Desk) : Prop where
  disarmed : after.device.shared.interrupts.isArmed = false
  table : after.shell.table = before.shell.table
  sinks : before.hub.nextId ∉ before.hub.sinks → after.hub.sinks = before.hub.sinks
  appRunning : after.device.flags.appRunning = before.device.flags.appRunning
  level : (∀ level, .setLevel level ∉ others) → after.hub.level = before.hub.level

/-- Between lines: nobody is armed, and of the identities for sinks some are spent. -/
structure Ready (asked : Nat) (d : Desk) : Prop where
  disarmed : d.device.shared.interrupts.armed = none
  numbered : d.hub.Numbered asked

variable {asked : Nat} {d e : Desk} {text : String} {meanwhile : Meanwhile} {done : Execution}
  {steps : List Step} {answers : List Execution}

theorem line_ok (carried : d.line text meanwhile = .ok (done, e)) :
    d.shell.execute text meanwhile d.device d.console = .ok done ∧
      e = { d with device := done.device, console := done.console } := by
  unfold line at carried
  generalize d.shell.execute _ _ _ _ = result at carried ⊢
  cases result with
  | error halt => cases carried
  | ok ended =>
    cases carried
    exact ⟨rfl, rfl⟩

theorem run_line_ok {later : List Step}
    (ran : run (.line text meanwhile :: later) d = .ok (answers, e)) :
    ∃ done next rest, d.line text meanwhile = .ok (done, next) ∧ run later next = .ok (rest, e) ∧
      answers = done :: rest := by
  rw [run] at ran
  cases carried : d.line text meanwhile with
  | error halt =>
    rw [carried] at ran
    cases ran
  | ok answer =>
    obtain ⟨done, next⟩ := answer
    rw [carried] at ran
    dsimp only [bind, Except.bind] at ran
    cases ended : run later next with
    | error halt =>
      rw [ended] at ran
      cases ran
    | ok rest =>
      rw [ended] at ran
      cases ran
      exact ⟨done, next, rest.1, rfl, ended, rfl⟩

/-- An interrupt that finds nobody is lost. -/
theorem change_of_interrupts (disarmed : d.device.shared.interrupts.armed = none) {change : Change}
    (interrupts : (Step.change change).interrupts = true) : d.change change = d := by
  have lost : d.device.shared.interrupts.raise = d.device.shared.interrupts := by
    rw [Interrupts.raise, disarmed]
  cases change with
  | act action =>
    cases action with
    | raise =>
      simp only [Desk.change, Device.actAll, Shared.actAll, List.foldl_cons, List.foldl_nil,
        Shared.act, Shared.raise, lost]
    | input byte =>
      have taken : (d.device.shared.interrupts.take byte).2 = d.device.shared.interrupts := by
        unfold Interrupts.take
        split
        · exact lost
        · rfl
      simp only [Desk.change, Device.actAll, Shared.actAll, List.foldl_cons, List.foldl_nil,
        Shared.act, taken]
    | emit e => cases interrupts
    | setLevel level => cases interrupts
    | setClock clock => cases interrupts
  | addCommand entry => cases interrupts
  | removeCommand name => cases interrupts
  | setAppRunning running => cases interrupts
  | addSink => cases interrupts
  | removeSink id => cases interrupts
  | prompt => cases interrupts

/-- Only a line arms anybody. -/
theorem armed_change (d : Desk) (change : Change) :
    (d.change change).device.shared.interrupts.armed = d.device.shared.interrupts.armed := by
  cases change with
  | act action =>
    cases action with
    | raise => exact (Interrupts.alike_raise _).armed
    | input byte => exact (Interrupts.alike_take byte _).armed
    | emit e => rfl
    | setLevel level => rfl
    | setClock clock => rfl
  | addCommand entry => rfl
  | removeCommand name => rfl
  | setAppRunning running => rfl
  | addSink => rfl
  | removeSink id => rfl
  | prompt => rfl

namespace Ready

theorem change (ready : d.Ready asked) (change : Change) :
    ∃ more ≤ 1, (d.change change).Ready (asked + more) := by
  have disarmed := (d.armed_change change).trans ready.disarmed
  cases change with
  | act action =>
    exact ⟨0, Nat.zero_le 1, disarmed, Shared.numbered_actAll ready.numbered [action]⟩
  | addSink => exact ⟨1, Nat.le_refl 1, disarmed, ready.numbered.addSink⟩
  | removeSink id => exact ⟨0, Nat.zero_le 1, disarmed, ready.numbered.removeSink id⟩
  | addCommand entry => exact ⟨0, Nat.zero_le 1, disarmed, ready.numbered⟩
  | removeCommand name => exact ⟨0, Nat.zero_le 1, disarmed, ready.numbered⟩
  | setAppRunning running => exact ⟨0, Nat.zero_le 1, disarmed, ready.numbered⟩
  | prompt => exact ⟨0, Nat.zero_le 1, disarmed, ready.numbered⟩

theorem line (ready : d.Ready asked) (carried : d.line text meanwhile = .ok (done, e)) :
    ∃ more ≤ 1, e.Ready (asked + more) := by
  obtain ⟨executed, rfl⟩ := line_ok carried
  obtain ⟨more, few, numbered⟩ := (left_execute executed).numbered ready.numbered
  exact ⟨more, few, armed_execute ready.disarmed executed, numbered⟩

/-- The run rule: a desk that was ready is ready again after any steps, and no more identities are
spent than there were steps. -/
theorem run (ready : d.Ready asked) (ran : run steps d = .ok (answers, e)) :
    ∃ more ≤ steps.length, e.Ready (asked + more) := by
  induction steps generalizing d asked answers with
  | nil =>
    cases ran
    exact ⟨0, Nat.le_refl 0, ready⟩
  | cons step later ih =>
    have next : ∃ (middle : Desk) (more : Nat) (rest : List Execution), more ≤ 1 ∧
        middle.Ready (asked + more) ∧ Desk.run later middle = .ok (rest, e) := by
      cases step with
      | change change =>
        obtain ⟨more, few, ready⟩ := ready.change change
        exact ⟨_, more, answers, few, ready, ran⟩
      | line text meanwhile =>
        obtain ⟨done, middle, rest, carried, ended, -⟩ := run_line_ok ran
        obtain ⟨more, few, ready⟩ := ready.line carried
        exact ⟨middle, more, rest, few, ready, ended⟩
    obtain ⟨middle, more, rest, few, ready, ended⟩ := next
    obtain ⟨others, fewer, last⟩ := ih ready ended
    refine ⟨more + others, ?_, ?_⟩
    · rw [List.length_cons]
      omega
    · rw [← Nat.add_assoc]
      exact last

end Ready

theorem resumed (ready : d.Ready asked) (carried : d.line text meanwhile = .ok (done, e)) :
    d.Resumed (d.shell.others text meanwhile d.device d.console done.pauses.length) e := by
  obtain ⟨executed, rfl⟩ := line_ok carried
  have left := left_execute executed
  have disarmed := armed_execute ready.disarmed executed
  exact ⟨congrArg Option.isSome disarmed, rfl, left.sinks, left.appRunning, left.level⟩

/-- Interrupts between the lines make no difference to anything. -/
theorem run_filter (disarmed : d.device.shared.interrupts.armed = none) (steps : List Step) :
    run (steps.filter fun step => !step.interrupts) d = run steps d := by
  induction steps generalizing d with
  | nil => rfl
  | cons step later ih =>
    cases interrupts : step.interrupts with
    | true =>
      rw [List.filter_cons_of_neg (by simp [interrupts]), ih disarmed]
      cases step with
      | change change => rw [run, change_of_interrupts disarmed interrupts]
      | line text meanwhile => cases interrupts
    | false =>
      rw [List.filter_cons_of_pos (by simp [interrupts])]
      cases step with
      | change change => exact ih ((d.armed_change change).trans disarmed)
      | line text meanwhile =>
        rw [run, run]
        cases carried : d.line text meanwhile with
        | error halt => rfl
        | ok answer =>
          obtain ⟨done, next⟩ := answer
          obtain ⟨executed, rfl⟩ := line_ok carried
          dsimp only [bind, Except.bind]
          rw [ih]
          exact armed_execute disarmed executed

/-- A shell that starts with nobody armed, on a hub that may have been in use before, takes any
steps. Every line that returns leaves things as it found them, the sinks as long as the hub has not
come round with its identities. Interrupts between the lines change neither what comes of any line
nor the desk. -/
theorem lines_resume (shell : Shell) (device : Device) (console : Console)
    (past : List Log.Hub.Call) (steps : List Step)
    (disarmed : device.shared.interrupts.armed = none)
    (made : device.shared.log.hub = ({} : Log.Hub).callAll past) :
    (∀ earlier text meanwhile later answers d done e,
      steps = earlier ++ .line text meanwhile :: later →
      run earlier ⟨shell, device, console⟩ = .ok (answers, d) →
      d.line text meanwhile = .ok (done, e) →
      d.Resumed (d.shell.others text meanwhile d.device d.console done.pauses.length) e ∧
      (past.count .addSink + earlier.length < UInt32.size → e.hub.sinks = d.hub.sinks)) ∧
    run (steps.filter fun step => !step.interrupts) ⟨shell, device, console⟩ =
      run steps ⟨shell, device, console⟩ := by
  have opened : ({} : Log.Hub).Numbered 0 := ⟨rfl, fun _ member => absurd member List.not_mem_nil⟩
  have numbered := opened.callAll past
  rw [Nat.zero_add, ← made] at numbered
  have ready : (⟨shell, device, console⟩ : Desk).Ready (past.count .addSink) := ⟨disarmed, numbered⟩
  refine ⟨?_, run_filter disarmed steps⟩
  intro earlier text meanwhile later answers d done e split ran carried
  obtain ⟨more, fewer, ready⟩ := ready.run ran
  have after := resumed ready carried
  refine ⟨after, fun few => after.sinks ?_⟩
  exact ready.numbered.nextId_notMem (by omega)

/-- An interrupt that is lost, and a session for the log that the next one ends. -/
theorem lines_resume_log :
    let device : Device := { shared := { interrupts := { byte := 3 } } }
    let meanwhile : Meanwhile := { relay := { flushes := [{ actions := [.input 3] }] } }
    let steps : List Step := [.change (.act (.input 3)), .line "log debug" meanwhile]
    device.shared.interrupts.armed = none ∧ device.shared.log.hub = ({} : Log.Hub).callAll [] ∧
      ∃ done e, run steps ⟨{}, device, {}⟩ = .ok ([done], e) ∧
        run [.line "log debug" meanwhile] ⟨{}, device, {}⟩ = .ok ([done], e) ∧
        done.dispatch = .ran "log" ∧ e.hub.sinks = [] ∧ e.hub.level = .unset := by
  intro device meanwhile steps
  let log : Command.Entry := { name := "log", parallelSafe := true, task := .log }
  have starts : ({} : Shell).starting "log debug" device = some (log, "debug") := by decide +kernel
  have asked : Relay.Request.ofArgs "debug" = .override .debug := by decide +kernel
  have accepted : Relay.Request.ofArgs "debug" ≠ .help := by
    rw [asked]
    exact Relay.Request.noConfusion
  have stopped : (Relay.opening (Relay.Circle Relay.ringSize)
      ({} : Shell).config.relayChunk.toNat (Relay.Request.ofArgs "debug").level? meanwhile.relay
      (armed log device).1 (armed log device).2.shared
      (({} : Console).write "\r\n")).flush.isCancelled = true := by
    decide +kernel
  obtain ⟨leaving, ended, returned⟩ := Relay.run_of_stopped accepted (by decide) stopped
  have carried : ∃ done e, (⟨{}, device, {}⟩ : Desk).line "log debug" meanwhile = .ok (done, e) ∧
      done.dispatch = .ran "log" ∧ done.pauses = [] := by
    rw [line, execute_of_starting starts, launch_eq, perform, Shell.log, returned]
    exact ⟨_, _, rfl, rfl, rfl⟩
  obtain ⟨done, e, carried, dispatch, pauses⟩ := carried
  have ran : run [.line "log debug" meanwhile] ⟨{}, device, {}⟩ = .ok ([done], e) := by
    rw [run, carried]
    rfl
  obtain ⟨resumes, filtered⟩ := lines_resume {} device {} [] steps rfl rfl
  have after := resumes [.change (.act (.input 3))] "log debug" meanwhile [] [] ⟨{}, device, {}⟩ done e
    rfl rfl carried
  have quiet : ({} : Shell).others "log debug" meanwhile device {} done.pauses.length =
      [.input 3, .raise] := by
    rw [others, starts]
    change Relay.meanwhile (Relay.Circle Relay.ringSize) _ _ _ _ _ _ = _
    rw [Relay.meanwhile, leaving]
    decide +kernel
  refine ⟨rfl, rfl, done, e, filtered.symm.trans ran, ran, dispatch, after.2 (by decide), ?_⟩
  refine after.1.level fun level member => ?_
  rw [quiet] at member
  simp at member

end Desk

end DeviceShell.Shell
