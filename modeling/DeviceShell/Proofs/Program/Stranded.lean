import DeviceShell.Proofs.Program.Ledger
import DeviceShell.Proofs.Program.Schedule

/-! A command that is started after the end of the input can no longer be interrupted. -/
namespace DeviceShell.Program.Parties

open Input (Mailbox Channel)

variable {χ : Type} [Mailbox χ] {shell : Shell} {s t : Parties χ}

/-- Nothing that happens frees a session that is stranded. -/
theorem Stranded.step (stranded : s.Stranded shell) (step : Step shell s t) :
    t.Stranded shell := by
  obtain ⟨told, sent, entry, args, token, running, lasts, unset⟩ := stranded
  cases step with
  | reads step =>
    cases step <;>
      · rename_i reading
        rw [told] at reading
        cases reading
  | serves step =>
    cases step with
    | take idle => cases running.symm.trans idle
    | leave idle => cases running.symm.trans idle
    | answer holding => cases running.symm.trans holding
    | launch holding => cases running.symm.trans holding
    | conclude same performed =>
      cases running.symm.trans same
      rw [(Shell.outcome_perform shell entry.task args token s.device s.console).endless_iff.mpr
        ⟨lasts, unset⟩] at performed
      cases performed
  | @logs action uses =>
    have alike : s.device.Alike (s.share (s.reader.typing.shared.act action)).device :=
      ⟨Shared.alike_act s.reader.typing.shared action, rfl⟩
    refine ⟨told, sent, entry, args, token, running, ?_, ?_⟩
    · exact (Shell.lasts_congr alike entry.task args).mpr lasts
    · cases action with
      | emit e => exact unset
      | setLevel level => exact unset
      | setClock clock => exact unset
      | raise => cases uses
      | input byte => cases uses

theorem Stranded.steps (stranded : s.Stranded shell) (steps : Steps shell s t) :
    t.Stranded shell := by
  induction steps with
  | refl => exact stranded
  | tail _ step ih => exact ih.step step

/-- The line that strands the session is one of those that the input completes, and the program has
survived the first lines before it. -/
theorem Accounted.loops {device : Device} {lines : List String}
    (accounted : s.Accounted shell device lines) (stranded : s.Stranded shell) :
    ∃ before line after, lines = before ++ line :: after ∧ shell.Loops line device ∧
      ∀ other ∈ before.take Mailbox.depth, ¬ shell.Breaks other device := by
  obtain ⟨completed, taken, queued, closing, rfl, account⟩ := accounted
  obtain ⟨entry, args, token, running, lasts, -⟩ := stranded.runs
  have served := account.served
  rw [running] at served
  obtain ⟨earlier, line, rfl, starts, survived⟩ := served
  have passed := account.passed
  rw [List.append_assoc] at passed
  obtain ⟨before, after, rfl, first⟩ := passed.origin
  refine ⟨before, line, after ++ s.coming, by simp, ?_, fun other member => ?_⟩
  · exact ⟨entry, args, starts, (Shell.lasts_congr account.alike _ _).mp lasts⟩
  · rw [first] at member
    exact survived other (List.mem_of_mem_take member)

/-- The first line that loops is ahead if any is. -/
theorem exists_ahead {device : Device} {lines before after : List String} {line : String}
    (split : lines = before ++ line :: after) (loops : shell.Loops line device)
    (whole : ∀ other ∈ before.take Mailbox.depth, ¬ shell.Breaks other device) :
    ∃ before line after, lines = before ++ line :: after ∧ Ahead shell device before line := by
  by_cases short : ∀ other ∈ before, ¬ shell.Loops other device
  · exact ⟨before, line, after, split, loops, short, whole⟩
  · obtain ⟨first, rest⟩ := not_forall.mp short
    obtain ⟨member, long⟩ := Classical.not_imp.mp rest
    obtain ⟨front, back, cut⟩ := List.append_of_mem member
    have earlier : lines = front ++ first :: (back ++ line :: after) := by
      rw [split, cut]
      simp
    have fewer : front.length < before.length := by
      rw [cut, List.length_append, List.length_cons]
      omega
    refine exists_ahead earlier (Classical.not_not.mp long) fun other found => whole other ?_
    rw [cut, List.take_append]
    exact List.mem_append_left _ found
termination_by before.length

theorem exists_stranded (χ : Type) [Mailbox χ] [Mailbox.Lawful χ Mailbox.depth] {device : Device}
    {input : List Input.Read} {before after : List String} {line : String}
    (split : ({ shared := device.shared } : Input.Typing).lines (Input.bytesOf input) =
      before ++ line :: after)
    (ahead : Ahead shell device before line) :
    ∃ s, Steps shell (start χ shell device input) s ∧ s.Stranded shell := by
  have delivered := delivers_input (s := start χ shell device input) rfl [] before line after
    (.refl device) rfl ⟨Mailbox.Lawful.queue_empty, Mailbox.Lawful.waiting_empty⟩ (Nat.zero_le _)
    split ahead
  exact delivered.strands (.refl device) ahead.loops

/-- Whatever the order of the steps, the session never gets into a command that nothing can stop any
more, exactly if no line that the input completes starts a command that goes on until it is stopped,
unless one of the first lines before it is the end of the program. Once there, it stays there. -/
theorem never_stranded_iff (χ : Type) [Mailbox χ] [Mailbox.Lawful χ Mailbox.depth] (shell : Shell)
    (device : Device) (input : List Input.Read) :
    ((∀ s, Steps shell (start χ shell device input) s → ¬ s.Stranded shell) ↔
      ∀ before line after,
        ({ shared := device.shared } : Input.Typing).lines (Input.bytesOf input) =
          before ++ line :: after →
        shell.Loops line device →
        ∃ other ∈ before.take Mailbox.depth, shell.Breaks other device) ∧
    ∀ s t : Parties χ, s.Stranded shell → Steps shell s t → t.Stranded shell ∧ t.serving ≠ .left := by
  refine ⟨⟨?_, ?_⟩, ?_⟩
  · intro never before line after split loops
    refine Classical.byContradiction fun survived => ?_
    obtain ⟨first, line, after, split, ahead⟩ := exists_ahead split loops
      fun other member breaks => survived ⟨other, member, breaks⟩
    obtain ⟨s, steps, stranded⟩ := exists_stranded χ split ahead
    exact never s steps stranded
  · intro broken s steps stranded
    obtain ⟨before, line, after, split, loops, whole⟩ :=
      ((accounted_start shell device input).steps steps).loops stranded
    obtain ⟨other, member, breaks⟩ := broken before line after split loops
    exact whole other member breaks
  · intro s t stranded steps
    have still := stranded.steps steps
    refine ⟨still, fun left => ?_⟩
    obtain ⟨entry, args, token, running, -⟩ := still.runs
    cases running.symm.trans left

/-- No order of the steps strands a session that is asked for the state of the heap. -/
theorem never_stranded_free :
    ¬ ∃ s, Steps {} (start Channel {} (simulatedDevice {})
      (Input.Read.atOnce (Text.encode "free\n"))) s ∧ s.Stranded {} := by
  have completed : ({ shared := (simulatedDevice {}).shared } : Input.Typing).lines
      (Input.bytesOf (Input.Read.atOnce (Text.encode "free\n"))) = ["free"] := by decide +kernel
  have starts : ({} : Shell).starting "free" (simulatedDevice {}) =
      some ({ name := "free", parallelSafe := true, task := .free }, "") := by decide +kernel
  rintro ⟨s, steps, stranded⟩
  refine (never_stranded_iff Channel {} (simulatedDevice {}) _).1.mpr ?_ s steps stranded
  intro before line after split loops
  rw [completed] at split
  cases before with
  | nil =>
    cases split
    obtain ⟨entry, args, started, lasts⟩ := loops
    rw [starts] at started
    cases started
    exact lasts.elim
  | cons first rest => cases rest <;> cases split

/-- A log session that the last line asks for can miss the end of the input. So it does when the
reader comes first. -/
theorem stranded_log :
    (∃ s, Steps {} (start Channel {} (simulatedDevice {}) (Input.Read.atOnce (Text.encode "log\n"))) s ∧
      s.Stranded {}) ∧
    converse {} (Text.encode "log\n") = .error .endless := by
  have completed : ({ shared := (simulatedDevice {}).shared } : Input.Typing).lines
      (Input.bytesOf (Input.Read.atOnce (Text.encode "log\n"))) = [] ++ "log" :: [] := by decide +kernel
  have starts : ({} : Shell).starting "log" (simulatedDevice {}) =
      some ({ name := "log", parallelSafe := true, task := .log }, "") := by decide +kernel
  have asked : Relay.Request.ofArgs "" = .keepLevel := by decide +kernel
  have lasts : ({} : Shell).Lasts .log "" (simulatedDevice {}) := by
    refine ⟨?_, by decide⟩
    rw [asked]
    exact Relay.Request.noConfusion
  have loops : ({} : Shell).Loops "log" (simulatedDevice {}) := ⟨_, _, starts, lasts⟩
  constructor
  · refine exists_stranded Channel completed ⟨loops, fun other member => ?_, fun other member => ?_⟩
    · cases member
    · cases member
  · have alike : (simulatedDevice {}).Alike
        { simulatedDevice {} with
          shared := (({ typing := { shared := (simulatedDevice {}).shared } } :
            Input.Reader Channel).run
            ((Input.Read.atOnce (Text.encode "log\n")).map .read)).typing.shared } :=
      ⟨⟨by decide +kernel, by decide +kernel⟩, rfl⟩
    have events : Mailbox.contents
        (({ typing := { shared := (simulatedDevice {}).shared } } : Input.Reader Channel).run
          ((Input.Read.atOnce (Text.encode "log\n")).map .read)).channel =
        [.line "log", .closed] := by
      decide +kernel
    have stuck := (Shell.execute_endless_iff {} "log" _ (Shell.prompt {} {})).mpr
      ((Shell.loops_congr alike "log").mpr loops)
    unfold converse
    dsimp only
    rw [events, Talk.run, stuck]
    rfl

end DeviceShell.Program.Parties
