import DeviceShell.Program.Run
import DeviceShell.Proofs.Command.Listing
import DeviceShell.Proofs.Monitor.Course
import DeviceShell.Proofs.Relay.Ending
import DeviceShell.Proofs.Shell.Alike

/-! What a line comes to while nobody does anything else. Some lines start a command that goes on
until it is interrupted. -/
namespace DeviceShell

namespace Relay

variable {π : Type} [Pipe π] {chunk : Nat} {args : String} {token : Token} {shared : Shared}
  {console : Console} {ended : Ended}

theorem alike_ended [Pipe.Lawful π ringSize] {script : Script}
    (returned : run π chunk args script token shared console = .ok ended) :
    shared.Alike ended.shared := by
  rcases run_cases returned with ⟨-, -, rfl⟩ | ⟨-, -, -, -, sinks, -, same⟩ |
    ⟨done, -, -, room, left, rfl⟩
  · exact .refl shared
  · exact ⟨congrArg List.length sinks, congrArg Interrupts.byte same⟩
  · have follows := follows_of_run _ (by rfl) left
    constructor
    · rw [sinks_ended _ _ room left,
        List.length_erase_of_mem (List.mem_append_right _ List.mem_cons_self)]
      simp
    · have acted := Shared.alike_actAll
        (opening π chunk (Request.ofArgs args).level? script token shared console).shared
        done.outside.toList
      rw [← follows.shared] at acted
      rw [Drain.interrupts_ended, acted.byte, interrupts_opening]

theorem run_opening_of_isCancelled [Pipe.Lawful π ringSize] {level : Option Log.Level}
    (cancelled : shared.interrupts.isCancelled token = true) :
    (opening π chunk level Program.nobody.relay token shared console).flush.run =
      some (opening π chunk level Program.nobody.relay token shared console).flush := by
  refine Drain.run_of_isCancelled ?_
  change (opening π chunk level Program.nobody.relay token shared
    console).shared.interrupts.isCancelled token = true
  rw [interrupts_opening, cancelled]

/-- A session that nobody visits waits for ever. -/
theorem run_opening_of_not_isCancelled [Pipe.Lawful π ringSize] {level : Option Log.Level}
    (running : shared.interrupts.isCancelled token = false) :
    (opening π chunk level Program.nobody.relay token shared console).flush.run = none := by
  have going : (opening π chunk level Program.nobody.relay token shared
      console).flush.isCancelled = false := by
    change (opening π chunk level Program.nobody.relay token shared
      console).shared.interrupts.isCancelled token = false
    rw [interrupts_opening, running]
  have empty : (opening π chunk level Program.nobody.relay token shared console).flush.ring.pending =
      0 := by
    rw [Ring.pending_eq]
    have nothing : Pipe.contents (Pipe.empty : π) = [] := Pipe.Lawful.contents_empty
    exact congrArg List.length nothing
  have stuck : (opening π chunk level Program.nobody.relay token shared console).flush.step = none :=
    if_pos empty
  rw [Drain.run, if_neg (by simp [going])]
  split
  · rfl
  · rename_i next
    rw [stuck] at next
    cases next

/-- An undisturbed session waits for ever if it gets to its loop and is not stopped already. -/
theorem run_nobody (π : Type) [Pipe π] [Pipe.Lawful π ringSize] (chunk : Nat) (args : String)
    (token : Token) (shared : Shared) (console : Console) :
    ((Request.ofArgs args ≠ .help ∧ shared.log.hub.sinks.length < Log.Hub.capacity ∧
        shared.interrupts.isCancelled token = false) ∧
      run π chunk args Program.nobody.relay token shared console = .error .endless) ∨
    (¬ (Request.ofArgs args ≠ .help ∧ shared.log.hub.sinks.length < Log.Hub.capacity ∧
        shared.interrupts.isCancelled token = false) ∧
      ∃ ended, run π chunk args Program.nobody.relay token shared console = .ok ended) := by
  by_cases asked : Request.ofArgs args = .help
  · exact .inr ⟨fun waits => waits.1 asked, _, by rw [run, asked]⟩
  rw [run_of_accepted asked]
  rcases Nat.lt_or_ge shared.log.hub.sinks.length Log.Hub.capacity with room | full
  · cases stopped : shared.interrupts.isCancelled token with
    | true =>
      refine .inr ⟨fun waits => Bool.noConfusion waits.2.2, ?_⟩
      rw [listen_of_left asked room (run_opening_of_isCancelled stopped)]
      exact ⟨_, rfl⟩
    | false =>
      refine .inl ⟨⟨asked, room, rfl⟩, ?_⟩
      simp only [listen, register_of_lt _ _ _ _ _ _ room, run_opening_of_not_isCancelled stopped]
  · obtain ⟨ended, refused, -⟩ :=
      register_of_le π chunk (Request.ofArgs args).level? Program.nobody.relay token console full
    refine .inr ⟨fun waits => absurd waits.2.1 (Nat.not_lt.mpr full), ended, ?_⟩
    simp only [listen, refused]

end Relay

namespace Shell

/-- Tasks that go on until they are interrupted: showing the log, if there is a place for its sink,
and redrawing the monitor. -/
def Lasts (shell : Shell) (task : Command.Task) (args : String) (device : Device) : Prop :=
  match task with
  | .log =>
    Relay.Request.ofArgs args ≠ .help ∧ device.shared.log.hub.sinks.length < Log.Hub.capacity
  | .top => ∃ interval, Monitor.Mode.ofArgs args shell.config.topInterval = .ok (.every interval)
  | _ => False

/-- The entry that a line starts, with its arguments. -/
def starting (shell : Shell) (line : String) (device : Device) : Option (Command.Entry × String) :=
  let (name, args) := Text.splitWord line
  if name.isEmpty then none
  else
    match shell.table.get? name with
    | none => none
    | some entry =>
      if !entry.parallelSafe && device.flags.appRunning then none else some (entry, args)

/-- Lines that start a task which goes on until it is interrupted. -/
def Loops (shell : Shell) (line : String) (device : Device) : Prop :=
  ∃ entry args, shell.starting line device = some (entry, args) ∧
    shell.Lasts entry.task args device

/-- The listing of the commands is too wide to be printed. -/
def Unlistable (shell : Shell) : Prop :=
  ∀ missing, Command.help shell.columns shell.table missing = .error .fieldTooWide

/-- Lines that have the commands listed: they ask for that, or name none of them. -/
def Lists (shell : Shell) (line : String) (device : Device) : Prop :=
  match shell.starting line device with
  | some (entry, _) => entry.task = .help
  | none =>
    (Text.splitWord line).1.isEmpty = false ∧ shell.table.get? (Text.splitWord line).1 = none

/-- Lines that the program does not survive. -/
def Breaks (shell : Shell) (line : String) (device : Device) : Prop :=
  shell.Unlistable ∧ shell.Lists line device

variable {shell : Shell} {device other : Device}

theorem starting_congr (alike : device.Alike other) (line : String) :
    shell.starting line other = shell.starting line device := by
  simp only [starting, alike.appRunning]

theorem lasts_congr (alike : device.Alike other) (task : Command.Task) (args : String) :
    shell.Lasts task args other ↔ shell.Lasts task args device := by
  cases task <;> simp only [Lasts, alike.shared.places]

theorem loops_congr (alike : device.Alike other) (line : String) :
    shell.Loops line other ↔ shell.Loops line device := by
  simp only [Loops, starting_congr alike, lasts_congr alike]

theorem breaks_congr (alike : device.Alike other) (line : String) :
    shell.Breaks line other ↔ shell.Breaks line device := by
  simp only [Breaks, Lists, starting_congr alike]

theorem not_loops_of_breaks {line : String} (breaks : shell.Breaks line device) :
    ¬ shell.Loops line device := by
  rintro ⟨entry, args, starts, lasts⟩
  obtain ⟨-, lists⟩ : shell.Unlistable ∧ shell.Lists line device := breaks
  simp only [Lists, starts] at lists
  rw [lists] at lasts
  exact lasts

theorem breaks_of_starting {line : String} {entry : Command.Entry} {args : String}
    (starts : shell.starting line device = some (entry, args)) :
    shell.Breaks line device ↔ shell.Unlistable ∧ entry.task = .help := by
  simp only [Breaks, Lists, starts]

/-- What comes of a task while nobody does anything else. -/
inductive Outcome (shell : Shell) (task : Command.Task) (args : String) (token : Token)
    (device : Device) : Except Halt Effect → Prop
  | waits : shell.Lasts task args device → device.isCancelled token = false →
      Outcome shell task args token device (.error .endless)
  | ends (effect : Effect) : ¬ (shell.Lasts task args device ∧ device.isCancelled token = false) →
      ¬ (shell.Unlistable ∧ task = .help) → device.Alike effect.device →
      Outcome shell task args token device (.ok effect)
  | breaks : shell.Unlistable → task = .help →
      Outcome shell task args token device (.error .fieldTooWide)

theorem Outcome.endless_iff {task : Command.Task} {args : String} {token : Token}
    {result : Except Halt Effect} (outcome : shell.Outcome task args token device result) :
    result = .error .endless ↔
      shell.Lasts task args device ∧ device.isCancelled token = false := by
  cases outcome with
  | waits lasts running => exact ⟨fun _ => ⟨lasts, running⟩, fun _ => rfl⟩
  | ends effect ready _ alike =>
    refine ⟨fun stuck => ?_, fun waits => absurd waits ready⟩
    cases stuck
  | breaks unlistable listing =>
    cases listing
    refine ⟨fun stuck => ?_, fun waits => absurd waits.1 id⟩
    cases stuck

theorem Outcome.at_once {task : Command.Task} {args : String} {token : Token} {effect : Effect}
    (short : ¬ shell.Lasts task args device) (other : task ≠ .help)
    (alike : device.Alike effect.device) :
    shell.Outcome task args token device (.ok effect) :=
  .ends effect (fun waits => short waits.1) (fun lists => other lists.2) alike

theorem outcome_log (shell : Shell) (args : String) (token : Token) (device : Device)
    (console : Console) : shell.Outcome .log args token device
      (shell.log args Program.nobody.relay token device console) := by
  unfold log
  rcases Relay.run_nobody (Relay.Circle Relay.ringSize) shell.config.relayChunk.toNat args token
    device.shared console with
    ⟨⟨asked, room, running⟩, stuck⟩ | ⟨ready, ended, returned⟩
  · rw [stuck]
    exact .waits ⟨asked, room⟩ running
  · rw [returned]
    refine .ends _ (fun waits => ready ⟨waits.1.1, waits.1.2, waits.2⟩) (fun lists => ?_) ⟨?_, rfl⟩
    · cases lists.2
    · exact Relay.alike_ended returned

theorem outcome_top (shell : Shell) (args : String) (token : Token) (device : Device)
    (console : Console) : shell.Outcome .top args token device
      (shell.top args Program.nobody.pauses token device console) := by
  unfold top
  cases mode : Monitor.Mode.ofArgs args shell.config.topInterval with
  | error failure =>
    refine .at_once (fun lasts => ?_) Command.Task.noConfusion (.refl device)
    obtain ⟨interval, same⟩ := lasts
    rw [mode] at same
    cases same
  | ok mode' =>
    cases mode' with
    | once =>
      refine .at_once (fun lasts => ?_) Command.Task.noConfusion ⟨.refl _, rfl⟩
      obtain ⟨interval, same⟩ := lasts
      rw [mode] at same
      cases same
    | every interval =>
      cases stopped : device.isCancelled token with
      | true =>
        simp only [Monitor.redraw]
        rw [Monitor.Drawn.every_of_isCancelled]
        · refine .ends _ (fun waits => ?_) (fun lists => ?_) (.refl device)
          · rw [stopped] at waits
            cases waits.2
          · cases lists.2
        · exact stopped
      | false =>
        simp only [Monitor.redraw, Program.nobody, List.map_nil]
        rw [Monitor.Drawn.every_nil]
        · exact .waits ⟨interval, mode⟩ stopped
        · exact stopped

theorem outcome_sysctl (shell : Shell) (args : String) (token : Token) (device : Device)
    (console : Console) :
    shell.Outcome .sysctl args token device (.ok (sysctl args device console)) := by
  refine .at_once id Command.Task.noConfusion ?_
  unfold sysctl
  split
  · exact .refl device
  · exact .refl device
  · rename_i switch _
    cases switch <;> exact ⟨⟨rfl, rfl⟩, rfl⟩

/-- What any task comes to while nobody does anything else. -/
theorem outcome_perform (shell : Shell) (task : Command.Task) (args : String) (token : Token)
    (device : Device) (console : Console) : shell.Outcome task args token device
      (shell.perform task args Program.nobody token device console) := by
  cases task with
  | help =>
    simp only [perform]
    rcases Command.help_cases shell.columns shell.table with unlistable | listable
    · rw [unlistable args]
      exact .breaks unlistable rfl
    · obtain ⟨text, listing⟩ := listable args
      rw [listing]
      refine .ends _ (fun waits => waits.1) (fun lists => ?_) (.refl device)
      rw [lists.1 args] at listing
      cases listing
  | log => exact outcome_log shell args token device console
  | top => exact outcome_top shell args token device console
  | info all =>
    refine .at_once id Command.Task.noConfusion ?_
    unfold info
    split <;> exact .refl device
  | sysctl => exact outcome_sysctl shell args token device console
  | free => exact .at_once id Command.Task.noConfusion (.refl device)
  | uptime => exact .at_once id Command.Task.noConfusion (.refl device)
  | source => exact .at_once id Command.Task.noConfusion (.refl device)
  | clear => exact .at_once id Command.Task.noConfusion (.refl device)
  | neofetch => exact .at_once id Command.Task.noConfusion (.refl device)

theorem execute_of_starting {line : String} {entry : Command.Entry} {args : String}
    (starts : shell.starting line device = some (entry, args)) (meanwhile : Meanwhile)
    (console : Console) : shell.execute line meanwhile device console =
      shell.launch entry args meanwhile device (console.write "\r\n") := by
  unfold starting at starts
  unfold execute
  dsimp only at starts ⊢
  by_cases named : (Text.splitWord line).1.isEmpty = true
  · rw [if_pos named] at starts
    cases starts
  · rw [if_neg named] at starts ⊢
    cases found : shell.table.get? (Text.splitWord line).1 with
    | none =>
      rw [found] at starts
      cases starts
    | some chosen =>
      rw [found] at starts
      dsimp only at starts
      by_cases busy : (!chosen.parallelSafe && device.flags.appRunning) = true
      · rw [if_pos busy] at starts
        cases starts
      · rw [if_neg busy] at starts
        cases starts
        exact if_neg busy

/-- A line that starts nothing is blank, or names no command, or names one that has to wait. -/
theorem execute_of_idle {line : String} (idle : shell.starting line device = none)
    (meanwhile : Meanwhile) (console : Console) :
    ((Text.splitWord line).1.isEmpty = true ∧ shell.execute line meanwhile device console =
        .ok { dispatch := .empty, device := device, console := console }) ∨
    ((Text.splitWord line).1.isEmpty = false ∧ shell.table.get? (Text.splitWord line).1 = none ∧
      shell.execute line meanwhile device console =
        (Command.help shell.columns shell.table (Text.splitWord line).1).map fun text =>
          { dispatch := .notFound
            device := device.announce (.unknownCommand (Text.splitWord line).1)
            console := (console.write "\r\n").write text }) ∨
    ∃ entry, shell.table.get? (Text.splitWord line).1 = some entry ∧
      shell.execute line meanwhile device console =
        .ok { dispatch := .refused entry.name
              device := device
              console := (console.write "\r\n").write refusal } := by
  unfold starting at idle
  unfold execute
  dsimp only at idle ⊢
  split at idle
  · rename_i blank
    exact .inl ⟨blank, if_pos blank⟩
  · rename_i named
    rw [if_neg named]
    split at idle
    · rename_i missing
      rw [missing]
      exact .inr (.inl ⟨Bool.not_eq_true _ ▸ named, rfl, rfl⟩)
    · rename_i entry found
      rw [found]
      split at idle
      · rename_i refused
        exact .inr (.inr ⟨entry, rfl, if_pos refused⟩)
      · cases idle

theorem execute_of_not_starting {line : String} (idle : shell.starting line device = none)
    (meanwhile : Meanwhile) (console : Console) :
    (¬ shell.Breaks line device ∧ ∃ done, shell.execute line meanwhile device console = .ok done ∧
        device.Alike done.device) ∨
      (shell.Breaks line device ∧
        shell.execute line meanwhile device console = .error .fieldTooWide) := by
  have breaks : shell.Breaks line device ↔ shell.Unlistable ∧
      (Text.splitWord line).1.isEmpty = false ∧ shell.table.get? (Text.splitWord line).1 = none := by
    simp only [Breaks, Lists, idle]
  rw [breaks]
  rcases execute_of_idle idle meanwhile console with ⟨blank, executed⟩ |
    ⟨named, missing, executed⟩ | ⟨entry, found, executed⟩
  · rw [executed]
    refine .inl ⟨fun lists => ?_, _, rfl, .refl device⟩
    rw [lists.2.1] at blank
    cases blank
  · rw [executed]
    rcases Command.help_cases shell.columns shell.table with unlistable | listable
    · rw [unlistable]
      exact .inr ⟨⟨unlistable, named, missing⟩, rfl⟩
    · obtain ⟨text, listing⟩ := listable (Text.splitWord line).1
      rw [listing]
      refine .inl ⟨fun lists => ?_, _, rfl, ⟨rfl, rfl⟩, rfl⟩
      rw [lists.1] at listing
      cases listing
  · rw [executed]
    refine .inl ⟨fun lists => ?_, _, rfl, .refl device⟩
    rw [lists.2.2] at found
    cases found

/-- The device when a command has its token. -/
def armed (entry : Command.Entry) (device : Device) : Token × Device :=
  (device.announce (.dispatching entry.name)).arm

theorem alike_armed (entry : Command.Entry) (device : Device) :
    device.Alike (armed entry device).2 := ⟨⟨rfl, rfl⟩, rfl⟩

/-- Nobody has raised a new token. -/
theorem isCancelled_armed (entry : Command.Entry) (device : Device) :
    (armed entry device).2.isCancelled (armed entry device).1 = false := by
  simp [armed, Device.arm, Device.isCancelled, Interrupts.arm, Interrupts.newToken,
    Interrupts.isCancelled]

theorem launch_eq (entry : Command.Entry) (args : String) (meanwhile : Meanwhile)
    (device : Device) (console : Console) :
    shell.launch entry args meanwhile device console =
      (shell.perform entry.task args meanwhile (armed entry device).1 (armed entry device).2
        console).map (conclude entry args) := rfl

theorem perform_ok {task : Command.Task} {args : String} {token : Token} {console : Console}
    {effect : Effect}
    (performed : shell.perform task args Program.nobody token device console = .ok effect) :
    ¬ (shell.Unlistable ∧ task = .help) ∧ device.Alike effect.device := by
  have outcome := outcome_perform shell task args token device console
  rw [performed] at outcome
  cases outcome with
  | ends _ _ whole alike => exact ⟨whole, alike⟩

theorem alike_conclude (entry : Command.Entry) (args : String) (effect : Effect) :
    effect.device.Alike (conclude entry args effect).device := ⟨⟨rfl, rfl⟩, rfl⟩

/-- What comes of a line while nobody does anything else. -/
inductive Answer (shell : Shell) (line : String) (device : Device) : Except Halt Execution → Prop
  | waits : shell.Loops line device → Answer shell line device (.error .endless)
  | ends (done : Execution) : ¬ shell.Loops line device → ¬ shell.Breaks line device →
      device.Alike done.device → Answer shell line device (.ok done)
  | breaks : shell.Breaks line device → Answer shell line device (.error .fieldTooWide)

/-- What any line comes to while nobody does anything else. -/
theorem answer_execute (shell : Shell) (line : String) (device : Device) (console : Console) :
    shell.Answer line device (shell.execute line Program.nobody device console) := by
  cases starts : shell.starting line device with
  | none =>
    rcases execute_of_not_starting starts Program.nobody console with
      ⟨whole, done, executed, alike⟩ | ⟨breaks, broken⟩
    · rw [executed]
      refine .ends done ?_ whole alike
      rintro ⟨entry, args, started, -⟩
      rw [starts] at started
      cases started
    · rw [broken]
      exact .breaks breaks
  | some started =>
    obtain ⟨entry, args⟩ := started
    have begun := alike_armed entry device
    have outcome := outcome_perform shell entry.task args (armed entry device).1
      (armed entry device).2 (console.write "\r\n")
    rw [execute_of_starting starts, launch_eq]
    generalize shell.perform entry.task args _ _ _ _ = result at outcome ⊢
    cases outcome with
    | waits lasts running =>
      exact .waits ⟨entry, args, starts, (lasts_congr begun entry.task args).mp lasts⟩
    | ends effect ready whole alike =>
      refine .ends _ ?_ (fun breaks => whole ((breaks_of_starting starts).mp breaks))
        (begun.trans (alike.trans (alike_conclude entry args effect)))
      rintro ⟨_, _, started, lasts⟩
      rw [starts] at started
      cases started
      exact ready ⟨(lasts_congr begun entry.task args).mpr lasts, isCancelled_armed entry device⟩
    | breaks unlistable listing => exact .breaks ((breaks_of_starting starts).mpr ⟨unlistable, listing⟩)

theorem execute_ok {line : String} {console : Console} {done : Execution}
    (executed : shell.execute line Program.nobody device console = .ok done) :
    ¬ shell.Breaks line device ∧ device.Alike done.device := by
  have answer := shell.answer_execute line device console
  rw [executed] at answer
  cases answer with
  | ends _ _ whole alike => exact ⟨whole, alike⟩

/-- Carried out while nobody does anything else, the lines that start such a task never end, and no
others. -/
theorem execute_endless_iff (shell : Shell) (line : String) (device : Device) (console : Console) :
    shell.execute line Program.nobody device console = .error .endless ↔
      shell.Loops line device := by
  have answer := shell.answer_execute line device console
  generalize shell.execute line _ _ _ = result at answer ⊢
  cases answer with
  | waits loops => exact ⟨fun _ => loops, fun _ => rfl⟩
  | ends done short _ alike =>
    refine ⟨fun stuck => ?_, fun loops => absurd loops short⟩
    cases stuck
  | breaks breaks =>
    refine ⟨fun stuck => ?_, fun loops => absurd loops (not_loops_of_breaks breaks)⟩
    cases stuck

/-- The lines that the program does not survive are those that it gives no answer to. -/
theorem execute_broken_iff (shell : Shell) (line : String) (device : Device) (console : Console) :
    shell.execute line Program.nobody device console = .error .fieldTooWide ↔
      shell.Breaks line device := by
  have answer := shell.answer_execute line device console
  generalize shell.execute line _ _ _ = result at answer ⊢
  cases answer with
  | waits loops =>
    refine ⟨fun broken => ?_, fun breaks => absurd loops (not_loops_of_breaks breaks)⟩
    cases broken
  | ends done _ whole alike =>
    refine ⟨fun broken => ?_, fun breaks => absurd breaks whole⟩
    cases broken
  | breaks breaks => exact ⟨fun _ => breaks, fun _ => rfl⟩

end Shell

end DeviceShell
