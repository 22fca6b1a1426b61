import DeviceShell.Proofs.Shell.Steps
import DeviceShell.Proofs.Text.Words

/-! Commands that reject their argument. Nothing has happened by then, and the message shows the
very text that was rejected. -/
namespace DeviceShell

namespace Command

/-- An argument that a task rejects, with the error that it reports and the text that it could not
use: the whole trimmed argument, or what is left of it behind a sub-command. -/
inductive Rejects : Task → String → UsageError → String → Prop
  | interval {args : String} (misuse : Misuse) : (Text.trim args).isEmpty = false →
      (∀ n : UInt32, Text.signed64? (Text.trim args).toList ≠ some n.toNat) →
      Rejects .top args ⟨"top", "[interval_ms]", misuse⟩ (Text.trim args)
  | scope {args : String} (misuse : Misuse) : Text.trim args ≠ "device" → Text.trim args ≠ "power" →
      Rejects (.info false) args ⟨"info", "<device|power>", misuse⟩ (Text.trim args)
  | debug {args value : String} : Text.splitWord args = ("debug", value) → value ≠ "0" →
      value ≠ "1" → Rejects .sysctl args ⟨"sysctl debug", "<1|0>", .invalid⟩ value
  | heapTracking {args value : String} : Text.splitWord args = ("heap_track", value) →
      value ≠ "none" → value ≠ "main" →
      Rejects .sysctl args ⟨"sysctl heap_track", "<none|main>", .invalid⟩ value

/-- The words of a sub-command in the name of a command. -/
def subcommand (e : UsageError) : List (List Char) :=
  ((Text.words e.command).drop 1).map String.toList

variable {task : Task} {args text : String} {e : UsageError} {failure : Failure}

theorem splitWord_trim (args : String) : Text.splitWord (Text.trim args) = Text.splitWord args := by
  have same := Text.trimChars_of_trimmed (Text.trimmed_trimChars args.toList)
  simp only [Text.splitWord, Text.trim, Text.splitWordChars, String.toList_ofList, same]

/-- The text that the message shows is the text that was rejected. -/
theorem Rejects.offender (rejects : Rejects task args e text) : e.offender args = text := by
  cases rejects with
  | interval misuse _ _ =>
    have words : (Text.words "top").drop 1 = [] := by decide +kernel
    rw [UsageError.offender, words, dropWords]
  | scope misuse _ _ =>
    have words : (Text.words "info").drop 1 = [] := by decide +kernel
    rw [UsageError.offender, words, dropWords]
  | debug split _ _ =>
    have words : (Text.words "sysctl debug").drop 1 = ["debug"] := by decide +kernel
    rw [UsageError.offender, words, dropWords, splitWord_trim, split]
    rfl
  | heapTracking split _ _ =>
    have words : (Text.words "sysctl heap_track").drop 1 = ["heap_track"] := by decide +kernel
    rw [UsageError.offender, words, dropWords, splitWord_trim, split]
    rfl

/-- It is what the argument holds behind the words of the sub-command. -/
theorem Rejects.layout (rejects : Rejects task args e text) :
    Text.Layout (subcommand e) text.toList args.toList := by
  have behind {group value : String} (named : group.isEmpty = false)
      (split : Text.splitWord args = (group, value)) :
      Text.Layout [group.toList] value.toList args.toList := by
    have found : (Text.splitWord args).1.isEmpty = false := by rw [split]; exact named
    have layout := Text.layout_splitWord found (Text.layout_trim _)
    rwa [Text.trim_splitWord, split] at layout
  cases rejects with
  | interval misuse _ _ =>
    have none : subcommand ⟨"top", "[interval_ms]", misuse⟩ = [] := by
      cases misuse <;> decide +kernel
    rw [none]
    exact Text.layout_trim args
  | scope misuse _ _ =>
    have none : subcommand ⟨"info", "<device|power>", misuse⟩ = [] := by
      cases misuse <;> decide +kernel
    rw [none]
    exact Text.layout_trim args
  | debug split _ _ =>
    have one : subcommand ⟨"sysctl debug", "<1|0>", .invalid⟩ = ["debug".toList] := by
      decide +kernel
    rw [one]
    exact behind (by decide) split
  | heapTracking split _ _ =>
    have one : subcommand ⟨"sysctl heap_track", "<none|main>", .invalid⟩ =
        ["heap_track".toList] := by
      decide +kernel
    rw [one]
    exact behind (by decide) split

/-- An argument that is no interval is rejected: it is not blank, and no number of 32 bits. -/
theorem rejects_interval {preset : UInt32}
    (refused : Monitor.Mode.ofArgs args preset = .error failure) :
    ∃ e text, failure = .usage e ∧ Rejects .top args e text := by
  unfold Monitor.Mode.ofArgs at refused
  dsimp only at refused
  split at refused
  · cases refused
  · rename_i given
    have given := Bool.eq_false_iff.mpr given
    split at refused
    · rename_i unread
      cases refused
      exact ⟨_, _, rfl, .interval _ given fun n read => nomatch unread.symm.trans read⟩
    · rename_i value read
      split at refused
      · cases refused
      · rename_i outside
        cases refused
        refine ⟨_, _, rfl, .interval _ given fun n same => outside ?_⟩
        cases read.symm.trans same
        exact ⟨Int.natCast_nonneg _, Int.ofNat_lt.mpr n.toNat_lt⟩

theorem rejects_scope (refused : scopeOfArgs args = .error failure) :
    ∃ e text, failure = .usage e ∧ Rejects (.info false) args e text := by
  unfold scopeOfArgs at refused
  dsimp only at refused
  split at refused
  · cases refused
  · rename_i device
    split at refused
    · cases refused
    · rename_i power
      split at refused <;> cases refused <;> exact ⟨_, _, rfl, .scope _ device power⟩

/-- So is an argument that names no group of properties, unless all are shown anyway. -/
theorem rejects_info {facts : Facts} {all : Bool} (refused : info facts all args = .error failure) :
    ∃ e text, failure = .usage e ∧ Rejects (.info all) args e text := by
  cases all with
  | true => cases refused
  | false =>
    rw [info, if_neg Bool.false_ne_true] at refused
    cases scope : scopeOfArgs args with
    | ok found =>
      rw [scope] at refused
      cases refused
    | error failure =>
      rw [scope] at refused
      cases refused
      exact rejects_scope scope

/-- And one that names a switch, but no position of it. -/
theorem rejects_switch (refused : switchOfArgs args = .error failure) :
    ∃ e text, failure = .usage e ∧ Rejects .sysctl args e text := by
  unfold switchOfArgs at refused
  generalize parts : Text.splitWord args = split at refused
  obtain ⟨group, value⟩ := split
  dsimp only at refused
  split at refused
  · rename_i named
    subst named
    split at refused
    · cases refused
    · rename_i off
      split at refused
      · cases refused
      · rename_i on
        cases refused
        exact ⟨_, value, rfl, .debug parts off on⟩
  · split at refused
    · rename_i named
      subst named
      split at refused
      · cases refused
      · rename_i none
        split at refused
        · cases refused
        · rename_i main
          cases refused
          exact ⟨_, value, rfl, .heapTracking parts none main⟩
    · cases refused

end Command

namespace Shell

variable {shell : Shell} {task : Command.Task} {args : String} {meanwhile : Meanwhile} {token : Token}
  {device : Device} {console : Console} {effect : Effect} {e : UsageError}

/-- A session for the log fails for want of a place only. -/
theorem failure_log {script : Relay.Script}
    (performed : shell.log args script token device console = .ok effect) :
    effect.failure ≠ some (.usage e) := by
  rw [log] at performed
  generalize returned : Relay.run (Relay.Circle Relay.ringSize) _ _ _ _ _ _ = result at performed
  cases result with
  | error halt => cases performed
  | ok ended =>
    cases performed
    intro usage
    rcases Relay.run_cases returned with ⟨-, -, rfl⟩ | ⟨-, -, -, full, -⟩ | ⟨done, -, -, -, -, rfl⟩
    · cases usage
    · dsimp only at usage
      rw [full] at usage
      cases usage
    · cases usage

/-- A task that rejects its argument has done nothing yet. -/
theorem perform_usage
    (performed : shell.perform task args meanwhile token device console = .ok effect)
    (usage : effect.failure = some (.usage e)) :
    (∃ text, Command.Rejects task args e text) ∧
      effect = { failure := some (.usage e), device := device, console := console } := by
  cases task with
  | help =>
    rw [perform] at performed
    generalize Command.help _ _ _ = listing at performed
    cases listing <;> cases performed
    cases usage
  | log => exact absurd usage (failure_log performed)
  | top =>
    rw [perform, top] at performed
    split at performed
    · rename_i failure refused
      obtain ⟨e, text, rfl, rejects⟩ := Command.rejects_interval refused
      cases performed
      cases usage
      exact ⟨⟨text, rejects⟩, rfl⟩
    · generalize Monitor.redraw _ _ _ _ _ = drawn at performed
      cases drawn <;> cases performed
      cases usage
  | info all =>
    cases performed
    unfold info at usage ⊢
    cases refused : Command.info device.facts all args with
    | ok text =>
      rw [refused] at usage
      cases usage
    | error failure =>
      rw [refused] at usage
      obtain ⟨e, text, rfl, rejects⟩ := Command.rejects_info refused
      cases usage
      exact ⟨⟨text, rejects⟩, rfl⟩
  | sysctl =>
    cases performed
    unfold sysctl at usage ⊢
    cases refused : Command.switchOfArgs args with
    | ok asked =>
      rw [refused] at usage
      cases asked <;> cases usage
    | error failure =>
      rw [refused] at usage
      obtain ⟨e, value, rfl, rejects⟩ := Command.rejects_switch refused
      cases usage
      exact ⟨⟨value, rejects⟩, rfl⟩
  | free | uptime | source | clear | neofetch =>
    cases performed
    cases usage

namespace Desk

variable {d : Desk} {line shown : String} {entry : Command.Entry}

/-- The desk after the command of this name has reported a usage error: the log has had its say, a
token was made and is not armed any more, and the two lines of the message are on the console. -/
def misused (d : Desk) (name : String) (e : UsageError) (shown : String) : Desk :=
  { d with
    device := { d.device with
      shared :=
        { log := d.device.shared.log.announce (.dispatching name)
          interrupts := { d.device.shared.interrupts with
            flags := d.device.shared.interrupts.flags ++ [false]
            armed := none } } }
    console := ((d.console.write "\r\n").write
      (e.command ++ ": illegal option -- " ++ shown ++ "\r\nusage: " ++ e.command ++ " " ++
        e.usage)).flush }

/-- From one desk to the other no command, setting, flag, sink or level has changed, no thread was
sampled, and no token has been cancelled or made good again. -/
structure Untouched (before after : Desk) : Prop where
  shell : after.shell = before.shell
  hub : after.hub = before.hub
  flags : after.device.flags = before.device.flags
  sampled : after.device.sampled = before.device.sampled
  cancelled (token : Token) : after.device.isCancelled token = before.device.isCancelled token

theorem untouched_misused (d : Desk) (name : String) (e : UsageError) (shown : String) :
    d.Untouched (d.misused name e shown) := by
  refine ⟨rfl, rfl, rfl, rfl, fun token => ?_⟩
  -- The flag that is new is down, as are all that have not been made.
  simp only [Device.isCancelled, misused, Interrupts.isCancelled, List.getD_eq_getElem?_getD]
  rcases Nat.lt_or_ge token.flag d.device.shared.interrupts.flags.length with inside | beyond
  · rw [List.getElem?_append_left inside]
  · rw [List.getElem?_append_right beyond, List.getElem?_eq_none beyond]
    cases token.flag - d.device.shared.interrupts.flags.length <;> rfl

/-- The bytes of the message, behind the line break that ends the prompt, go to the terminal at
once. -/
theorem printed_misused (d : Desk) (name : String) (e : UsageError) (shown : String) :
    let printed := Text.encode ("\r\n" ++ (e.command ++ ": illegal option -- " ++ shown ++
      "\r\nusage: " ++ e.command ++ " " ++ e.usage))
    let next := d.misused name e shown
    next.console.output = d.console.output ++ printed ∧
      next.console.flushed.toList = d.console.flushed.toList ++ [d.console.tail ++ printed] ∧
      next.console.tail = [] := by
  intro printed next
  have pushed : next.console.flushed.toList =
      d.console.flushed.toList ++ [((d.console.write "\r\n").write _).tail] :=
    History.toList_push _ _
  refine ⟨?_, ?_, rfl⟩
  · simp only [next, printed, misused, Console.output_flush, Console.output_write,
      Text.encode_append, List.append_assoc]
  · rw [pushed, ← Console.write_append]
    rfl

/-- What a line that starts a command says behind the words that the command and its arguments are
laid out in. -/
theorem layout_starting {words : List (List Char)}
    (starts : d.shell.starting line d.device = some (entry, args))
    (behind : Text.Layout words shown.toList args.toList) :
    ∃ word, Text.Layout (word :: words) shown.toList line.toList := by
  unfold starting at starts
  dsimp only at starts
  split at starts
  · cases starts
  · rename_i named
    split at starts
    · cases starts
    · split at starts
      · cases starts
      · cases starts
        exact ⟨_, Text.layout_splitWord (Bool.eq_false_iff.mpr named) behind⟩

/-- A line whose command reports a usage error comes to the two lines of the message and to nothing
else. The message shows what the command rejected: all that the line holds behind its first word and
the word of the sub-command, without the blanks around it. -/
theorem line_misused (d : Desk) (line : String) (meanwhile : Meanwhile) (entry : Command.Entry)
    (args : String) (effect : Effect) (e : UsageError)
    (starts : d.shell.starting line d.device = some (entry, args))
    (performed : d.shell.perform entry.task args meanwhile (armed entry d.device).1
      (armed entry d.device).2 (d.console.write "\r\n") = .ok effect)
    (usage : effect.failure = some (.usage e)) :
    ∃ shown, Command.Rejects entry.task args e shown ∧ e.offender args = shown ∧
      (∃ word, Text.Layout (word :: Command.subcommand e) shown.toList line.toList) ∧
      let next := d.misused entry.name e shown
      let printed := Text.encode ("\r\n" ++ (e.command ++ ": illegal option -- " ++ shown ++
        "\r\nusage: " ++ e.command ++ " " ++ e.usage))
      d.line line meanwhile = .ok
        ({ dispatch := .ran entry.name, device := next.device, console := next.console }, next) ∧
      d.Untouched next ∧
      next.console.output = d.console.output ++ printed ∧
      next.console.flushed.toList = d.console.flushed.toList ++ [d.console.tail ++ printed] ∧
      next.console.tail = [] := by
  obtain ⟨⟨shown, rejects⟩, rfl⟩ := perform_usage performed usage
  refine ⟨shown, rejects, rejects.offender, layout_starting starts rejects.layout, ?_,
    d.untouched_misused entry.name e shown, d.printed_misused entry.name e shown⟩
  rw [Desk.line, execute_of_starting starts, launch_eq, performed]
  simp only [Except.map, conclude, Failure.rejection, rejects.offender]
  rfl

/-- A switch that is named twice. What it is shown to reject starts with its name. -/
theorem line_misused_debug :
    let d : Desk := ⟨{}, { shared := { interrupts := { byte := 3 } } }, {}⟩
    let e : UsageError := ⟨"sysctl debug", "<1|0>", .invalid⟩
    let line := " sysctl\tdebug  debug 7 "
    let args := "debug  debug 7"
    let entry : Command.Entry := { name := "sysctl", task := .sysctl }
    let effect : Effect :=
      { failure := some (.usage e)
        device := (armed entry d.device).2
        console := d.console.write "\r\n" }
    d.shell.starting line d.device = some (entry, args) ∧
      d.shell.perform entry.task args {} (armed entry d.device).1 (armed entry d.device).2
        (d.console.write "\r\n") = .ok effect ∧
      ∃ done, d.line line {} = .ok (done, d.misused "sysctl" e "debug 7") ∧ done.pauses = [] ∧
        done.console.output = Text.encode
          "\r\nsysctl debug: illegal option -- debug 7\r\nusage: sysctl debug <1|0>" := by
  intro d e line args entry effect
  have starts : d.shell.starting line d.device = some (entry, args) := by decide +kernel
  have split : Text.splitWord args = ("debug", "debug 7") := by decide +kernel
  have performed : d.shell.perform entry.task args {} (armed entry d.device).1
      (armed entry d.device).2 (d.console.write "\r\n") = .ok effect := by
    have refused : Command.switchOfArgs args = .error (.usage e) := by
      rw [Command.switchOfArgs, split]
      decide +kernel
    rw [perform, sysctl, refused]
  obtain ⟨shown, -, rfl, -, carried, -, output, -⟩ :=
    line_misused d line {} entry args effect e starts performed rfl
  have offender : e.offender args = "debug 7" := by decide +kernel
  rw [offender] at carried output
  exact ⟨starts, performed, _, carried, rfl, output⟩

end Desk

end Shell

end DeviceShell
