import DeviceShell.Proofs.Shell.Steps
import DeviceShell.Proofs.Shell.Surviving
import DeviceShell.Proofs.Text.Words

/-! How a line is handled, told from its words; what the lines that run nothing leave alone; and
which lines throw the switches of the device. -/
namespace DeviceShell

/-- The switch that the words behind a command ask for. -/
def Switch.ofWords? : List String → Option Switch
  | ["debug", "0"] => some (.debug false)
  | ["debug", "1"] => some (.debug true)
  | ["heap_track", "none"] => some (.heapTracking .none)
  | ["heap_track", "main"] => some (.heapTracking .main)
  | _ => none

/-- The flags that users can change. -/
def Flags.switched (f : Flags) : Bool × HeapTracking := (f.debug, f.heapTracking)

/-- The same device, but for what its log has delivered. -/
def Device.Idle (d e : Device) : Prop :=
  ∃ journal, e = { d with shared := { d.shared with log := { d.shared.log with journal := journal } } }

theorem Switch.switched_foldl {f g : Flags} (same : f.switched = g.switched) (thrown : List Switch) :
    (thrown.foldl apply f).switched = (thrown.foldl apply g).switched := by
  induction thrown generalizing f g with
  | nil => exact same
  | cons switch later ih =>
    obtain ⟨debug, tracking⟩ := Prod.mk.inj same
    refine ih ?_
    cases switch with
    | debug on => exact Prod.ext rfl tracking
    | heapTracking mode => exact Prod.ext debug rfl

namespace Command

variable {args : String} {switch : Switch}

/-- A switch is thrown by the two words that name it, wherever the blanks are. -/
theorem switchOfArgs_eq_some :
    switchOfArgs args = .ok (some switch) ↔ Switch.ofWords? (Text.words args) = some switch := by
  cases named : (Text.splitWord args).1.isEmpty with
  | true =>
    rw [Text.isEmpty_splitWord.mp named, switchOfArgs]
    rw [String.isEmpty_iff] at named
    simp [named, Switch.ofWords?]
  | false =>
    have reads (value : String) (isWord : Text.IsWord value.toList) :
        (Text.splitWord args).2 = value ↔ Text.words (Text.splitWord args).2 = [value] :=
      Text.splitWord_snd_eq isWord
    rw [Text.words_of_splitWord named]
    simp only [switchOfArgs, reads "0" (by decide), reads "1" (by decide),
      reads "none" (by decide), reads "main" (by decide)]
    clear reads
    generalize Text.words (Text.splitWord args).2 = rest
    generalize (Text.splitWord args).1 = group
    constructor
    · intro thrown
      repeat' split at thrown
      all_goals
        cases thrown <;> simp_all only [Switch.ofWords?]
    · intro thrown
      unfold Switch.ofWords? at thrown
      split at thrown <;> simp_all

end Command

namespace Shell

variable {shell : Shell} {line : String} {meanwhile : Meanwhile} {device : Device} {console : Console}
  {done : Execution} {entry : Command.Entry} {args : String}

/-- An entry that has to wait while an application is open, and one is. -/
def Waits (entry : Command.Entry) (device : Device) : Prop :=
  entry.parallelSafe = false ∧ device.flags.appRunning = true

instance (entry : Command.Entry) (device : Device) : Decidable (Waits entry device) :=
  inferInstanceAs (Decidable (_ ∧ _))

/-- How a line that returns was handled. -/
inductive Handled (shell : Shell) (line : String) (meanwhile : Meanwhile) (device : Device)
    (console : Console) : Execution → Prop
  | blank : Text.words line = [] →
      Handled shell line meanwhile device console
        { dispatch := .empty, device := device, console := console }
  | unknown (word text : String) : (Text.words line).head? = some word →
      shell.table.get? word = none →
      Handled shell line meanwhile device console
        { dispatch := .notFound
          device := device.announce (.unknownCommand word)
          console := (console.write "\r\n").write text }
  | refused (entry : Command.Entry) : (Text.words line).head? = some entry.name →
      shell.table.get? entry.name = some entry → Waits entry device →
      Handled shell line meanwhile device console
        { dispatch := .refused entry.name
          device := device
          console := (console.write "\r\n").write refusal }
  | started (entry : Command.Entry) (args : String) (effect : Effect) :
      Text.words line = entry.name :: Text.words args →
      shell.table.get? entry.name = some entry → ¬ Waits entry device →
      shell.perform entry.task args meanwhile (armed entry device).1 (armed entry device).2
        (console.write "\r\n") = .ok effect →
      Handled shell line meanwhile device console (conclude entry args effect)

theorem handled_execute (sorted : Command.Table.Sorted shell.table.entries)
    (executed : shell.execute line meanwhile device console = .ok done) :
    shell.Handled line meanwhile device console done := by
  unfold execute at executed
  dsimp only at executed
  split at executed
  · rename_i blank
    cases executed
    exact .blank (Text.isEmpty_splitWord.mp blank)
  · rename_i named
    have words := Text.words_of_splitWord (Bool.eq_false_iff.mpr named)
    have first : (Text.words line).head? = some (Text.splitWord line).1 := by rw [words]; rfl
    split at executed
    · rename_i missing
      generalize Command.help _ _ _ = listing at executed
      cases listing with
      | error halt => cases executed
      | ok text =>
        cases executed
        exact .unknown _ text first missing
    · rename_i entry found
      obtain ⟨-, same⟩ := (Command.Table.get?_eq_some sorted).mp found
      rw [← same] at found first words
      have waits : (!entry.parallelSafe && device.flags.appRunning) = true ↔ Waits entry device := by
        simp [Waits]
      split at executed
      · rename_i busy
        cases executed
        exact .refused entry first found (waits.mp busy)
      · rename_i free
        rw [launch_eq] at executed
        generalize performed : shell.perform _ _ _ _ _ _ = result at executed
        cases result with
        | error halt => cases executed
        | ok effect =>
          cases executed
          exact .started entry _ effect words found (fun busy => free (waits.mpr busy)) performed

/-- How a line has to be handled: by its first word, the entry of that name, and whether it
waits. -/
def handling (shell : Shell) (line : String) (device : Device) : Dispatch :=
  match (Text.words line).head? with
  | none => .empty
  | some word =>
    match shell.table.get? word with
    | none => .notFound
    | some entry => if Waits entry device then .refused word else .ran word

theorem Handled.dispatch (handled : shell.Handled line meanwhile device console done) :
    done.dispatch = shell.handling line device := by
  unfold handling
  cases handled with
  | blank none => rw [none]; rfl
  | unknown word text first missing => rw [first]; dsimp only; rw [missing]
  | refused entry first found waits => rw [first]; dsimp only; rw [found]; exact (if_pos waits).symm
  | started entry args effect words found free _ =>
    rw [words, List.head?_cons]
    dsimp only
    rw [found]
    exact (if_neg free).symm

section Outcomes

variable {word : String}

theorem exists_named {P : Command.Entry → Prop} (sorted : Command.Table.Sorted shell.table.entries) :
    (∃ entry ∈ shell.table.entries, entry.name = word ∧ P entry) ↔
      ∃ entry, shell.table.get? word = some entry ∧ P entry := by
  simp only [Command.Table.get?_eq_some sorted, and_assoc]

theorem handling_eq_empty : shell.handling line device = .empty ↔ Text.words line = [] := by
  unfold handling
  cases words : Text.words line with
  | nil => exact iff_of_true rfl rfl
  | cons word later =>
    refine iff_of_false ?_ (List.cons_ne_nil _ _)
    dsimp only [List.head?_cons]
    split
    · exact Dispatch.noConfusion
    · split <;> exact Dispatch.noConfusion

theorem handling_eq_notFound (sorted : Command.Table.Sorted shell.table.entries) :
    shell.handling line device = .notFound ↔ ∃ word, (Text.words line).head? = some word ∧
      ∀ entry ∈ shell.table.entries, entry.name ≠ word := by
  simp only [← Command.Table.get?_eq_none sorted]
  unfold handling
  cases (Text.words line).head? with
  | none => simp
  | some word =>
    cases found : shell.table.get? word with
    | none => simp [found]
    | some entry =>
      simp only [Option.some.injEq, exists_eq_left', found, reduceCtorEq, iff_false]
      split <;> exact Dispatch.noConfusion

theorem handling_eq_of_ne {answer : Dispatch} (blank : answer ≠ .empty)
    (unknown : answer ≠ .notFound) :
    shell.handling line device = answer ↔ ∃ first entry, (Text.words line).head? = some first ∧
      shell.table.get? first = some entry ∧
      (if Waits entry device then .refused first else .ran first) = answer := by
  unfold handling
  cases (Text.words line).head? with
  | none => simpa using blank.symm
  | some first =>
    cases found : shell.table.get? first with
    | none => simpa [found] using unknown.symm
    | some entry => simp [found]

theorem handling_eq_refused (sorted : Command.Table.Sorted shell.table.entries) :
    shell.handling line device = .refused word ↔ (Text.words line).head? = some word ∧
      ∃ entry ∈ shell.table.entries, entry.name = word ∧ Waits entry device := by
  rw [exists_named sorted, handling_eq_of_ne Dispatch.noConfusion Dispatch.noConfusion]
  constructor
  · rintro ⟨first, entry, head, found, answer⟩
    split at answer
    · rename_i waits
      cases answer
      exact ⟨head, entry, found, waits⟩
    · cases answer
  · rintro ⟨head, entry, found, waits⟩
    exact ⟨word, entry, head, found, if_pos waits⟩

theorem handling_eq_ran (sorted : Command.Table.Sorted shell.table.entries) :
    shell.handling line device = .ran word ↔ (Text.words line).head? = some word ∧
      ∃ entry ∈ shell.table.entries, entry.name = word ∧ ¬ Waits entry device := by
  rw [exists_named sorted, handling_eq_of_ne Dispatch.noConfusion Dispatch.noConfusion]
  constructor
  · rintro ⟨first, entry, head, found, answer⟩
    split at answer
    · cases answer
    · rename_i free
      cases answer
      exact ⟨head, entry, found, free⟩
  · rintro ⟨head, entry, found, free⟩
    exact ⟨word, entry, head, found, if_neg free⟩

end Outcomes

/-- A command whose words ask for a switch throws it and says so. -/
theorem sysctl_of_ofWords? {switch : Switch}
    (asked : Switch.ofWords? (Text.words args) = some switch) :
    sysctl args device console =
      { device := device.flip switch, console := console.write switch.confirmation } := by
  rw [sysctl, Command.switchOfArgs_eq_some.mpr asked]

/-- Nothing else touches the flags. -/
theorem flags_perform {task : Command.Task} {token : Token} {effect : Effect}
    (kept : task = .sysctl → Switch.ofWords? (Text.words args) = none)
    (performed : shell.perform task args meanwhile token device console = .ok effect) :
    effect.device.flags = device.flags := by
  cases task with
  | log =>
    rw [perform, log] at performed
    generalize Relay.run (Relay.Circle Relay.ringSize) _ _ _ _ _ _ = result at performed
    cases result <;> cases performed
    rfl
  | top =>
    rw [perform, top] at performed
    split at performed
    · cases performed
      rfl
    · generalize redrawn : Monitor.redraw _ _ _ _ _ = result at performed
      cases result with
      | error halt => cases performed
      | ok drawn =>
        cases performed
        rcases Monitor.redraw_ok redrawn with ⟨subject, -⟩ | watched
        · dsimp only
          rw [subject]
          rfl
        · rw [← List.map_take] at watched
          exact (congrArg Device.flags watched).trans (watch_actAll token _ device).2
  | help =>
    rw [perform] at performed
    generalize Command.help _ _ _ = listing at performed
    cases listing <;> cases performed
    rfl
  | info all =>
    cases performed
    unfold info
    split <;> rfl
  | sysctl =>
    cases performed
    unfold sysctl
    split
    · rfl
    · rfl
    · rename_i switch thrown
      cases (Command.switchOfArgs_eq_some.mp thrown).symm.trans (kept rfl)
  | free | uptime | source | clear | neofetch =>
    cases performed
    rfl

namespace Desk

variable {d e : Desk} {text : String} {answers : List Execution} {steps : List Step}

/-- The switch that a line throws: it ran an entry of `sysctl`, and its other words ask for one. -/
def switch? (d : Desk) (text : String) : Dispatch → Option Switch
  | .ran name =>
    if ∃ entry ∈ d.shell.table.entries, entry.name = name ∧ entry.task = .sysctl then
      Switch.ofWords? (Text.words text).tail
    else none
  | _ => none

/-- The switches that are thrown by some steps, in turn. -/
def switches : List Step → Desk → List Switch
  | [], _ => []
  | .change change :: later, d => switches later (d.change change)
  | .line text meanwhile :: later, d =>
    match d.line text meanwhile with
    | .ok (done, next) => (d.switch? text done.dispatch).toList ++ switches later next
    | .error _ => []

/-- The desk after a line of this name has thrown a switch: one flag has changed, the log has had
its two say, a token was made and is not armed any more, and the change is confirmed. -/
def switched (d : Desk) (name : String) (switch : Switch) : Desk :=
  { d with
    device := { d.device with
      flags := switch.apply d.device.flags
      shared :=
        { log := (d.device.shared.log.announce (.dispatching name)).announce switch.notice
          interrupts := { d.device.shared.interrupts with
            flags := d.device.shared.interrupts.flags ++ [false]
            armed := none } } }
    console := ((d.console.write "\r\n").write switch.confirmation).flush }

/-- What a line comes to that is answered, from the desk before it to the desk after it. -/
structure Dispatched (d : Desk) (text : String) (done : Execution) (e : Desk) : Prop where
  empty : done.dispatch = .empty ↔ ∀ c ∈ text.toList, Text.isBlank c = true
  notFound : done.dispatch = .notFound ↔
    ∃ word, (Text.words text).head? = some word ∧
      ∀ entry ∈ d.shell.table.entries, entry.name ≠ word
  refused (word : String) : done.dispatch = .refused word ↔
    (Text.words text).head? = some word ∧
      ∃ entry ∈ d.shell.table.entries, entry.name = word ∧ Waits entry d.device
  ran (word : String) : done.dispatch = .ran word ↔
    (Text.words text).head? = some word ∧
      ∃ entry ∈ d.shell.table.entries, entry.name = word ∧ ¬ Waits entry d.device
  shell : e.shell = d.shell
  nothing : done.dispatch = .empty → e = d
  idle : (∀ word, done.dispatch ≠ .ran word) → done.pauses = [] ∧ d.device.Idle e.device
  refusal (word : String) : done.dispatch = .refused word →
    e.console = (d.console.write "\r\n").write refusal
  thrown (switch : Switch) : d.switch? text done.dispatch = some switch →
    done.pauses = [] ∧ ∃ name, done.dispatch = .ran name ∧ e = d.switched name switch
  kept : d.switch? text done.dispatch = none → e.device.flags = d.device.flags

theorem switch?_ran (sorted : Command.Table.Sorted d.shell.table.entries)
    (found : d.shell.table.get? entry.name = some entry) :
    d.switch? text (.ran entry.name) =
      if entry.task = .sysctl then Switch.ofWords? (Text.words text).tail else none := by
  simp only [switch?, exists_named sorted, found, Option.some.injEq, exists_eq_left']

theorem dispatched (sorted : Command.Table.Sorted d.shell.table.entries)
    (carried : d.line text meanwhile = .ok (done, e)) : d.Dispatched text done e := by
  obtain ⟨executed, rfl⟩ := line_ok carried
  have handled := handled_execute sorted executed
  have answer := handled.dispatch
  refine ⟨?_, ?_, fun word => ?_, fun word => ?_, rfl, ?_, ?_, ?_, ?_, ?_⟩
  · rw [answer, handling_eq_empty, Text.words_eq_nil, Text.Blank]
  · rw [answer, handling_eq_notFound sorted]
  · rw [answer, handling_eq_refused sorted]
  · rw [answer, handling_eq_ran sorted]
  · intro blank
    cases handled with
    | blank none => rfl
    | _ => cases blank
  · intro other
    cases handled with
    | blank none => exact ⟨rfl, _, rfl⟩
    | unknown word text first missing => exact ⟨rfl, _, rfl⟩
    | refused entry first found waits => exact ⟨rfl, _, rfl⟩
    | started entry args effect words found free performed => exact absurd rfl (other entry.name)
  · intro word refused
    cases handled with
    | refused entry first found waits => rfl
    | _ => cases refused
  · intro switch thrown
    cases handled with
    | started entry args effect words found free performed =>
      rw [conclude, switch?_ran sorted found, words, List.tail_cons] at thrown
      split at thrown
      · rename_i sysctl
        rw [sysctl, perform, sysctl_of_ofWords? thrown] at performed
        cases performed
        exact ⟨rfl, entry.name, rfl, rfl⟩
      · cases thrown
    | _ => cases thrown
  · intro kept
    cases handled with
    | started entry args effect words found free performed =>
      rw [conclude, switch?_ran sorted found, words, List.tail_cons] at kept
      have same := flags_perform (fun sysctl => by rwa [if_pos sysctl] at kept) performed
      exact same
    | _ => rfl

theorem sorted_change (sorted : Command.Table.Sorted d.shell.table.entries) (change : Change) :
    Command.Table.Sorted (d.change change).shell.table.entries := by
  cases change with
  | addCommand entry =>
    rw [Desk.change, withTable]
    cases added : d.shell.table.add entry with
    | ok next => exact (Command.Table.added_of_add sorted added).sorted
    | error failure => exact sorted
  | removeCommand name => exact (Command.Table.removed sorted name).sorted
  | _ => exact sorted

theorem switched_change (d : Desk) (change : Change) :
    (d.change change).device.flags.switched = d.device.flags.switched := by
  cases change <;> rfl

/-- A line changes the flags as the switch that it throws does, if it throws one. -/
theorem Dispatched.flags (dispatched : d.Dispatched text done e) :
    e.device.flags = (d.switch? text done.dispatch).toList.foldl Switch.apply d.device.flags := by
  cases thrown : d.switch? text done.dispatch with
  | none => exact dispatched.kept thrown
  | some switch =>
    obtain ⟨-, name, -, rfl⟩ := dispatched.thrown switch thrown
    rfl

/-- The run rule: the commands stay in order, and the flags follow the switches that are thrown. -/
theorem switches_run (sorted : Command.Table.Sorted d.shell.table.entries)
    (ran : run steps d = .ok (answers, e)) :
    Command.Table.Sorted e.shell.table.entries ∧
      e.device.flags.switched = ((switches steps d).foldl Switch.apply d.device.flags).switched := by
  induction steps generalizing d answers with
  | nil =>
    cases ran
    exact ⟨sorted, rfl⟩
  | cons step later ih =>
    cases step with
    | change change =>
      obtain ⟨kept, flags⟩ := ih (sorted_change sorted change) ran
      exact ⟨kept, flags.trans (Switch.switched_foldl (d.switched_change change) _)⟩
    | line text meanwhile =>
      obtain ⟨done, next, rest, carried, ended, -⟩ := run_line_ok ran
      have dispatched := dispatched sorted carried
      obtain ⟨kept, flags⟩ := ih (dispatched.shell ▸ sorted) ended
      refine ⟨kept, flags.trans ?_⟩
      rw [switches, carried, dispatched.flags, List.foldl_append]

/-- On a table that any calls have filled, the lines among any steps. A line is answered, unless it
has the commands listed in columns that are too wide, or goes on until it is interrupted. It is
handled by its first word, and what does not run leaves the device alone. Over all the steps the
flags change exactly as the switches say that are thrown. -/
theorem lines_dispatched (config : Config) (preset : List Command.Entry)
    (calls : List Command.Call) (device : Device) (console : Console) (steps : List Step) :
    let start : Desk :=
      ⟨{ table := (Command.Table.addAll preset {}).after calls, config := config }, device, console⟩
    (∀ earlier text meanwhile later answers d,
      steps = earlier ++ .line text meanwhile :: later → run earlier start = .ok (answers, d) →
      (d.line text meanwhile = .error .fieldTooWide ↔
        Command.Columns.maxField < d.shell.config.helpWidth.toNat ∧ d.shell.Lists text d.device ∧
          ∃ position, d.shell.columns.Shows d.shell.table.labels position) ∧
      (d.line text meanwhile = .error .endless → d.shell.Loops text d.device ∧
        ∃ done e, d.line text meanwhile.interrupted = .ok (done, e)) ∧
      ∀ done e, d.line text meanwhile = .ok (done, e) → d.Dispatched text done e) ∧
    ∀ answers e, run steps start = .ok (answers, e) →
      e.device.flags.switched =
        ((switches steps start).foldl Switch.apply device.flags).switched := by
  intro start
  have sorted : Command.Table.Sorted start.shell.table.entries :=
    (Command.Table.holds_after preset calls).sorted
  refine ⟨?_, fun answers e ran => (switches_run sorted ran).2⟩
  intro earlier text meanwhile later answers d split ran
  obtain ⟨kept, -⟩ := switches_run sorted ran
  have failed (halt : Halt) : d.line text meanwhile = .error halt ↔
      d.shell.execute text meanwhile d.device d.console = .error halt := by
    rw [line]
    cases d.shell.execute text meanwhile d.device d.console <;> simp [Except.map]
  refine ⟨?_, ?_, ?_⟩
  · rw [failed, execute_breaks_iff, breaks_iff]
  · intro endless
    rcases execute_error ((failed _).mp endless) with ⟨-, loops⟩ | ⟨wide, -⟩
    · obtain ⟨done, executed⟩ := execute_interrupted
        (fun breaks => not_loops_of_breaks breaks loops) meanwhile d.console
      refine ⟨loops, done, ⟨d.shell, done.device, done.console⟩, ?_⟩
      rw [line, executed]
      rfl
    · cases wide
  · intro done e carried
    exact dispatched kept carried

/-- A table with one command. -/
private def lone : Command.Table := Command.Table.addAll [{ name := "x", task := .help }] {}

/-- A word that names no command, and no answer: the one command there is would be listed in columns
that are too wide. -/
theorem not_dispatched_unknown :
    ∃ config, Config.ofJson .standard "\x7b\"help_column_width\":65536\x7d" = .ok config ∧
      let d : Desk :=
        ⟨{ table := lone, config := config }, { shared := { interrupts := { byte := 3 } } }, {}⟩
      (Text.words "y").head? = some "y" ∧ (∀ entry ∈ d.shell.table.entries, entry.name ≠ "y") ∧
        d.line "y" {} = .error .fieldTooWide := by
  obtain ⟨config, accepted, width, columns⟩ := exists_ofJson_wide
  let shell : Shell := { table := lone, config := config }
  have idle : ({ table := lone } : Shell).starting "y" { shared := { interrupts := { byte := 3 } } } =
      none := by
    decide +kernel
  have lists : shell.Lists "y" { shared := { interrupts := { byte := 3 } } } := by
    have idle : shell.starting "y" _ = none := idle
    rw [Lists, idle]
    exact ⟨by decide +kernel, (by decide +kernel : lone.get? (Text.splitWord "y").1 = none)⟩
  have shown : (Command.Columns.ofCount 3 65536).Shows lone.labels 0 :=
    ⟨by decide +kernel, ⟨"x", false⟩, by decide +kernel, rfl⟩
  have breaks := (breaks_iff shell "y" _).mpr
    ⟨by rw [width]; decide, lists, 0, by rw [columns]; exact shown⟩
  have others : ∀ entry ∈ lone.entries, entry.name ≠ "y" := by decide +kernel
  refine ⟨config, accepted, by decide +kernel, others, ?_⟩
  rw [line, execute_of_breaks breaks]
  rfl

end Desk

end Shell

end DeviceShell
