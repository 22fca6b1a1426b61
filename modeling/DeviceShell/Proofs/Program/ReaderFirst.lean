import DeviceShell.Proofs.Program.Schedule

/-! The program as it is run, with the reader through before the session begins, is one of the
schedules. -/
namespace DeviceShell.Program

open Input (Mailbox Channel)

/-- What the session makes of events is what it comes to if the reader is through. -/
theorem Parties.serves_talk {χ : Type} [Mailbox χ] [Mailbox.Lawful χ Mailbox.depth]
    (shell : Shell) {s : Parties χ} {events : List Input.Event} (told : s.reading = .told)
    (idle : s.serving = .idle) (fair : Mailbox.Fair s.reader.channel)
    (contents : Mailbox.contents s.reader.channel = events) :
    (∀ talk, Talk.run shell events ⟨s.device, s.console⟩ = .ok talk →
      ∃ t, Steps shell s t ∧ t.device = talk.device ∧ t.console = talk.console) ∧
    (Talk.run shell events ⟨s.device, s.console⟩ = .error .endless →
      ∃ t, Steps shell s t ∧ t.Stranded shell) := by
  induction events generalizing s with
  | nil =>
    refine ⟨fun talk ran => ?_, fun stuck => by cases stuck⟩
    cases ran
    exact ⟨s, .refl, rfl, rfl⟩
  | cons event later ih =>
    obtain ⟨channel, received, rest, sent⟩ := fair.receive contents
    cases event with
    | closed =>
      refine ⟨fun talk ran => ?_, fun stuck => by cases stuck⟩
      cases ran
      exact ⟨_, .single (.serves (.leave idle received)), rfl, rfl⟩
    | line line =>
      have taken : Step shell s (s.receive (.holding line) channel) :=
        .serves (.take idle received)
      rw [Talk.run]
      generalize executed : shell.execute line nobody s.device s.console = result
      cases result with
      | ok done =>
        have served : Steps shell s _ := .head taken (serves_executed rfl executed)
        obtain ⟨answers, waits⟩ :=
          ih (s := (s.receive (.holding line) channel).serve .idle done.device
            (shell.prompt done.console)) told rfl (.inl sent) rest
        refine ⟨fun talk ran => ?_, fun stuck => ?_⟩
        · obtain ⟨t, steps, same⟩ := answers talk ran
          exact ⟨t, served.trans steps, same⟩
        · obtain ⟨t, steps, stranded⟩ := waits stuck
          exact ⟨t, served.trans steps, stranded⟩
      | error halt =>
        refine ⟨fun talk ran => ?_, fun stuck => ?_⟩
        · cases ran
        · cases stuck
          obtain ⟨entry, args, starts, lasts⟩ :=
            (Shell.execute_endless_iff shell line s.device s.console).mp executed
          refine ⟨_, .tail (.single taken) (.serves (.launch rfl starts)), told, sent, entry, args, _,
            rfl, ?_, Shell.isCancelled_armed entry _⟩
          exact (Shell.lasts_congr (Shell.alike_armed entry _) entry.task args).mpr lasts

/-- The program as it is run takes one of the orders in which its parties may take their steps. It
has no end if that order strands the session. -/
theorem converse_scheduled (config : Config) (input : Bytes) :
    (∀ outcome, converse config input = .ok outcome →
      ∃ s, Parties.Steps { config := config }
          (.start Channel { config := config } (simulatedDevice config) (Input.Read.atOnce input)) s ∧
        s.console.output = outcome.output) ∧
    (converse config input = .error .endless →
      ∃ s, Parties.Steps { config := config }
          (.start Channel { config := config } (simulatedDevice config) (Input.Read.atOnce input)) s ∧
        s.Stranded { config := config }) := by
  have alone : Parties.Steps { config := config }
      (.start Channel { config := config } (simulatedDevice config) (Input.Read.atOnce input)) _ :=
    Parties.steps_of_reads (Parties.reads_alone rfl)
  have fair := Input.Reader.fair_run (r :=
    ({ typing := { shared := (simulatedDevice config).shared } } : Input.Reader Channel)) rfl
    (Input.Read.atOnce input)
  obtain ⟨answers, waits⟩ := Parties.serves_talk { config := config }
    (s := { Parties.start Channel { config := config } (simulatedDevice config)
        (Input.Read.atOnce input) with
      reading := .told, reader := _ }) rfl rfl fair rfl
  unfold converse
  dsimp only
  generalize ran : Talk.run { config := config } _ _ = result
  cases result with
  | ok talk =>
    refine ⟨fun outcome done => ?_, fun stuck => ?_⟩
    · obtain ⟨s, steps, -, same⟩ := answers talk ran
      cases done
      exact ⟨s, alone.trans steps, congrArg Console.output same⟩
    · cases stuck
  | error halt =>
    refine ⟨fun outcome done => ?_, fun stuck => ?_⟩
    · cases done
    · cases stuck
      obtain ⟨s, steps, stranded⟩ := waits ran
      exact ⟨s, alone.trans steps, stranded⟩

end DeviceShell.Program
