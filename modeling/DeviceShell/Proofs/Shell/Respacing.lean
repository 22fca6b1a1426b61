import DeviceShell.Proofs.Shell.Rejecting

/-! Lines that differ in their blanks only. At the ends of a line and behind the words that are
taken off it one blank is as good as any others, for a line and for all that follow it. -/
namespace DeviceShell

namespace Command

variable {args other text : String} {e : UsageError}

/-- What a switch rejects lies behind the first word of the argument. -/
theorem Rejects.eq_snd (rejects : Rejects .sysctl args e text) :
    text = (Text.splitWord args).2 := by
  cases rejects with
  | debug split => rw [split]
  | heapTracking split => rw [split]

end Command

namespace Shell

/-- The same line with other blanks: at its ends, behind its first word, and behind the second one
too if the command is one that throws switches. -/
inductive Respaced (shell : Shell) (text other : String) : Prop
  | blank : Text.Blank text.toList → Text.Blank other.toList → Respaced shell text other
  | command {word rest : List Char} : Text.Layout [word] rest text.toList →
      Text.Layout [word] rest other.toList → Respaced shell text other
  | switch {word group rest : List Char} {entry : Command.Entry} :
      shell.table.get? (String.ofList word) = some entry → entry.task = .sysctl →
      Text.Layout [word, group] rest text.toList → Text.Layout [word, group] rest other.toList →
      Respaced shell text other

variable {shell : Shell} {text other args : String} {entry : Command.Entry} {meanwhile : Meanwhile}
  {device : Device} {console : Console}

theorem execute_of_blank (blank : Text.Blank text.toList) :
    shell.execute text meanwhile device console =
      .ok { dispatch := .empty, device := device, console := console } := by
  have empty := Text.isEmpty_splitWord.mpr (Text.words_eq_nil.mpr blank)
  rw [execute]
  generalize Text.splitWord text = parts at empty
  exact if_pos empty

/-- A switch reads its argument by words, and so does the message if it rejects it. -/
theorem launch_sysctl (task : entry.task = .sysctl)
    (same : Text.splitWord args = Text.splitWord other) :
    shell.launch entry args meanwhile device console =
      shell.launch entry other meanwhile device console := by
  have read : Command.switchOfArgs args = Command.switchOfArgs other := by
    rw [Command.switchOfArgs, Command.switchOfArgs, same]
  simp only [launch, task, perform, Except.map, sysctl, read]
  cases refused : Command.switchOfArgs other with
  | ok asked => cases asked <;> rfl
  | error failure =>
    obtain ⟨e, shown, rfl, rejects⟩ := Command.rejects_switch refused
    obtain ⟨e', shown', same', rejects'⟩ := Command.rejects_switch (read.trans refused)
    cases same'
    have offender : e.offender args = e.offender other := by
      rw [rejects.offender, rejects'.offender, rejects.eq_snd, rejects'.eq_snd, same]
    simp only [conclude, Failure.rejection, offender]

theorem Respaced.execute (respaced : shell.Respaced text other) :
    shell.execute text meanwhile device console =
      shell.execute other meanwhile device console := by
  cases respaced with
  | blank first second => rw [execute_of_blank first, execute_of_blank second]
  | command first second =>
    have same := (Text.splitWord_of_layout first).trans (Text.splitWord_of_layout second).symm
    rw [Shell.execute, Shell.execute, same]
  | @switch word group rest entry found task first second =>
    obtain ⟨name, args⟩ := first.splitWord
    obtain ⟨name', args'⟩ := second.splitWord
    have same := (Text.splitWord_of_layout args).trans (Text.splitWord_of_layout args').symm
    rw [Shell.execute, Shell.execute]
    generalize Text.splitWord text = parts at name same
    generalize Text.splitWord other = parts' at name' same
    obtain ⟨first, args⟩ := parts
    obtain ⟨second, args'⟩ := parts'
    dsimp only at name name' same
    subst name name'
    simp only [found, launch_sysctl task same]

namespace Desk

/-- The same steps with other blanks in the lines. What a line runs is known only when it has its
turn, as commands may come and go before. -/
inductive Respaced : Desk → List Step → List Step → Prop
  | nil (d : Desk) : Respaced d [] []
  | change {d : Desk} {steps others : List Step} (change : Change) :
      Respaced (d.change change) steps others →
      Respaced d (.change change :: steps) (.change change :: others)
  | line {d : Desk} {text other : String} {steps others : List Step} (meanwhile : Meanwhile) :
      d.shell.Respaced text other →
      (∀ done e, d.line text meanwhile = .ok (done, e) → Respaced e steps others) →
      Respaced d (.line text meanwhile :: steps) (.line other meanwhile :: others)

variable {d : Desk} {steps others : List Step}

theorem line_respaced (respaced : d.shell.Respaced text other) :
    d.line text meanwhile = d.line other meanwhile := by
  rw [line, line, respaced.execute]

/-- Other blanks change nothing. A line has the same outcome, and leaves the same device and console
and the same pauses, or it has the same reason not to end; and so it is with any number of lines. -/
theorem run_respaced (d : Desk) :
    (∀ text other meanwhile, d.shell.Respaced text other →
      d.shell.execute text meanwhile d.device d.console =
        d.shell.execute other meanwhile d.device d.console) ∧
    ∀ steps others, d.Respaced steps others → run steps d = run others d := by
  refine ⟨fun text other meanwhile respaced => respaced.execute, fun steps others respaced => ?_⟩
  induction respaced with
  | nil d => rfl
  | change change _ ih => exact ih
  | @line d text other steps others meanwhile same later ih =>
    rw [run, run, line_respaced same]
    cases carried : d.line other meanwhile with
    | error halt => rfl
    | ok answer =>
      obtain ⟨done, e⟩ := answer
      have ended := ih done e ((line_respaced same).trans carried)
      simp only [bind, Except.bind, ended]

/-- A shell with the commands there are at first. -/
private def fresh : Desk := ⟨{}, { shared := { interrupts := { byte := 3 } } }, {}⟩

theorem run_respaced_fresh :
    let steps : List Step := [.line "sysctl debug 7" {}, .change .prompt, .line "uptime" {}]
    let others : List Step :=
      [.line "\u3000sysctl\t debug\u00A0\u2003 7\n" {}, .change .prompt, .line " uptime\u2028" {}]
    fresh.Respaced steps others ∧ run steps fresh = run others fresh := by
  intro steps others
  have value : Text.Layout [] "7".toList "7".toList := Text.layout_nil_iff.mpr (by decide +kernel)
  have nothing : Text.Layout [] [] "".toList := Text.layout_nil_iff.mpr (by decide +kernel)
  have switch (line args : String) (first : Text.splitWord line = ("sysctl", args))
      (second : Text.splitWord args = ("debug", "7")) :
      Text.Layout ["sysctl".toList, "debug".toList] "7".toList line.toList :=
    Text.layout_of_splitWord_eq first (by decide)
      (Text.layout_of_splitWord_eq second (by decide) value)
  have command (line : String) (first : Text.splitWord line = ("uptime", "")) :
      Text.Layout ["uptime".toList] [] line.toList :=
    Text.layout_of_splitWord_eq first (by decide) nothing
  have known : (fresh.shell.table.get? "sysctl").map (·.task) = some .sysctl := by decide +kernel
  obtain ⟨entry, found, task⟩ := Option.map_eq_some_iff.mp known
  rw [← String.ofList_toList (s := "sysctl")] at found
  have respaced : fresh.Respaced steps others := by
    refine .line {} (.switch found task (switch _ "debug 7" ?_ ?_)
      (switch _ "debug\u00A0\u2003 7" ?_ ?_)) fun _ _ _ => .change .prompt
        (.line {} (.command (command _ ?_) (command _ ?_)) fun _ e _ => .nil e) <;> decide +kernel
  exact ⟨respaced, (run_respaced fresh).2 steps others respaced⟩

end Desk

end Shell

end DeviceShell
