import DeviceShell.Proofs.Input.Queue
import DeviceShell.Proofs.Program.Parties

/-! Where the lines are that the input has completed: taken by the session, in the channel, or
dropped. -/
namespace DeviceShell.Program.Parties

open Input (Mailbox)

variable {χ : Type} [Mailbox χ]

/-- The session has been through the lines that it took, and is not through with the last one. -/
def Served (shell : Shell) (device : Device) (taken : List String) : Serving → Prop
  | .idle | .left => ∀ line ∈ taken, ¬ shell.Breaks line device
  | .holding line =>
    ∃ earlier, taken = earlier ++ [line] ∧ ∀ line ∈ earlier, ¬ shell.Breaks line device
  | .running entry args _ =>
    ∃ earlier line, taken = earlier ++ [line] ∧
      shell.starting line device = some (entry, args) ∧
      ∀ line ∈ earlier, ¬ shell.Breaks line device

/-- Of the lines that are completed, `taken` have been taken and `queued` are in the channel. -/
structure Account (shell : Shell) (device : Device) (completed taken queued : List String)
    (closing : List Input.Event) (s : Parties χ) : Prop where
  alike : device.Alike s.device
  contents : Mailbox.contents s.reader.channel = queued.map .line ++ closing
  closed : ∀ event ∈ closing, event = .closed
  quiet : s.reading ≠ .told → Mailbox.waiting s.reader.channel = none ∧ closing = []
  passed : Input.Passed (taken ++ queued) completed
  served : Served shell device taken s.serving

/-- There is an account of the lines that the input is known to complete in the end. -/
def Accounted (shell : Shell) (device : Device) (lines : List String) (s : Parties χ) : Prop :=
  ∃ completed taken queued closing, completed ++ s.coming = lines ∧
    s.Account shell device completed taken queued closing

variable {shell : Shell} {device : Device} {lines completed taken queued : List String}
  {closing : List Input.Event} {s t : Parties χ}

/-- The reader goes on without the channel. -/
theorem Account.quietly (account : s.Account shell device completed taken queued closing)
    (unread : s.reading ≠ .told) (alike : device.Alike t.device)
    (channel : t.reader.channel = s.reader.channel) (serving : t.serving = s.serving) :
    t.Account shell device completed taken queued closing := by
  refine ⟨alike, ?_, account.closed, fun _ => ?_, account.passed, ?_⟩
  · rw [channel]
    exact account.contents
  · rw [channel]
    exact account.quiet unread
  · rw [serving]
    exact account.served

theorem Account.serve (account : s.Account shell device completed taken queued closing)
    (serving : Serving) (d : Device) (console : Console) (alike : device.Alike d)
    (served : Served shell device taken serving) :
    (s.serve serving d console).Account shell device completed taken queued closing :=
  ⟨alike, account.contents, account.closed, account.quiet, account.passed, served⟩

section Laws

variable [Mailbox.Lawful χ Mailbox.depth]

theorem Account.feed (account : s.Account shell device completed taken queued closing)
    (unread : s.reading ≠ .told) (b : UInt8) (alike : device.Alike t.device)
    (reader : t.reader = s.reader.feed b) (serving : t.serving = s.serving) :
    ∃ queued, t.Account shell device (completed ++ (s.reader.typing.feed b).1.toList) taken queued
      closing := by
  obtain ⟨ready, rfl⟩ := account.quiet unread
  have held := account.contents
  have fed := s.reader.queue_feed b
  have waiting := (s.reader.waiting_feed b).trans ready
  have served := account.served
  rw [← reader] at fed waiting
  rw [← serving] at served
  rw [List.append_nil, Mailbox.contents_of_ready ready] at held
  have contents := Mailbox.contents_of_ready waiting
  cases completes : (s.reader.typing.feed b).1 with
  | none =>
    rw [completes] at fed
    refine ⟨queued, alike, ?_, account.closed, fun _ => ⟨waiting, rfl⟩, ?_, served⟩
    · rw [contents, fed, held, List.append_nil]
    · simpa using account.passed
  | some line =>
    rw [completes] at fed
    dsimp only at fed
    rcases Nat.lt_or_ge (Mailbox.queue s.reader.channel).length Mailbox.depth with room | full
    · rw [if_pos room, held] at fed
      refine ⟨queued ++ [line], alike, ?_, account.closed, fun _ => ⟨waiting, rfl⟩, ?_, served⟩
      · rw [contents, fed]
        simp
      · rw [← List.append_assoc]
        exact account.passed.deliver line
    · rw [if_neg (Nat.not_lt.mpr full), List.append_nil, held] at fed
      refine ⟨queued, alike, ?_, account.closed, fun _ => ⟨waiting, rfl⟩, ?_, served⟩
      · rw [contents, fed, List.append_nil]
      · refine account.passed.drop ?_ line
        rw [held, List.length_map] at full
        rw [List.length_append]
        omega

theorem Accounted.reads (accounted : s.Accounted shell device lines) (step : Reads s t) :
    t.Accounted shell device lines := by
  have unread : s.reading ≠ .told := by
    intro told
    cases step <;>
      · rename_i reading
        rw [told] at reading
        cases reading
  obtain ⟨completed, taken, queued, closing, whole, account⟩ := accounted
  have alike := account.alike.trans step.alike
  have quietly (channel : t.reader.channel = s.reader.channel) (serving : t.serving = s.serving)
      (coming : t.coming = s.coming) : t.Accounted shell device lines :=
    ⟨completed, taken, queued, closing, coming ▸ whole,
      account.quietly unread alike channel serving⟩
  cases step with
  | @byte b bytes later reading =>
    obtain ⟨queued, fed⟩ := account.feed unread b alike rfl rfl
    refine ⟨_, taken, queued, closing, ?_, fed⟩
    rw [← whole, coming_of_feeding reading, coming_of_feeding rfl, List.cons_append,
      Input.Typing.lines_cons, List.append_assoc,
      Input.Typing.lines_congr (s.reader.alike_feed b).1]
  | data reading => exact quietly rfl rfl (coming_of_feeding reading).symm
  | wouldBlock reading => exact quietly rfl rfl (coming_of_feeding reading).symm
  | interrupted reading => exact quietly rfl rfl (coming_of_feeding reading).symm
  | failed reading => exact quietly rfl rfl (coming_of_feeding reading).symm
  | finish reading => exact quietly rfl rfl (coming_of_feeding reading).symm
  | cancel reading => exact quietly rfl rfl (by rw [coming, coming, reading])
  | hangUp reading =>
    obtain ⟨ready, rfl⟩ := account.quiet unread
    refine ⟨completed, taken, queued, [.closed], ?_, alike, ?_, ?_, ?_, account.passed,
      account.served⟩
    · rw [← whole, coming, coming, reading]
    · refine (Mailbox.contents_send ready).trans ?_
      rw [account.contents, List.append_nil]
    · intro event member
      exact List.mem_singleton.mp member
    · intro unread
      exact absurd rfl unread

/-- The session takes what has been in the channel longest. -/
theorem Account.receive (account : s.Account shell device completed taken queued closing)
    {event : Input.Event} {channel : χ}
    (received : Mailbox.receive s.reader.channel = (some event, channel)) :
    Mailbox.waiting channel = none ∧
      ((∃ line later, event = .line line ∧ queued = line :: later ∧
          Mailbox.contents channel = later.map .line ++ closing) ∨
        event = .closed ∧ ∃ later, closing = event :: later ∧ queued = [] ∧
          Mailbox.contents channel = later) := by
  obtain ⟨contents, sent⟩ := Mailbox.contents_of_receive received
  rw [account.contents] at contents
  refine ⟨sent, ?_⟩
  cases queued with
  | cons line later =>
    obtain ⟨rfl, rest⟩ := List.cons.inj contents
    exact .inl ⟨line, later, rfl, rfl, rest.symm⟩
  | nil =>
    cases closing with
    | nil => cases contents
    | cons first later =>
      obtain ⟨rfl, rest⟩ := List.cons.inj contents
      exact .inr ⟨account.closed _ List.mem_cons_self, later, rfl, rfl, rest.symm⟩

theorem Accounted.serves (accounted : s.Accounted shell device lines) (step : Serves shell s t) :
    t.Accounted shell device lines := by
  obtain ⟨completed, taken, queued, closing, whole, account⟩ := accounted
  have alike := account.alike.trans step.alike
  have coming : completed ++ t.coming = lines := by
    have shared := step.alike.shared
    have same : t.reading = s.reading ∧ s.reader.typing.Alike t.reader.typing := by
      cases step <;> exact ⟨rfl, rfl, shared.byte⟩
    rw [← whole, coming_congr same.1 same.2]
  have served := account.served
  cases step with
  | @take line channel idle received =>
    rw [idle] at served
    obtain ⟨sent, ⟨first, later, same, rfl, rest⟩ | ⟨closed, -⟩⟩ := account.receive received
    · cases same
      refine ⟨completed, taken ++ [line], later, closing, coming, alike, rest, account.closed,
        fun unread => ⟨sent, (account.quiet unread).2⟩, ?_, taken, rfl, served⟩
      rw [List.append_assoc]
      exact account.passed
    · cases closed
  | @leave channel idle received =>
    rw [idle] at served
    obtain ⟨sent, ⟨first, later, same, -⟩ | ⟨-, later, rfl, rfl, rest⟩⟩ := account.receive received
    · cases same
    · refine ⟨completed, taken, [], later, coming, alike, rest, ?_, ?_, account.passed, served⟩
      · intro event member
        exact account.closed event (List.mem_cons_of_mem _ member)
      · intro unread
        cases (account.quiet unread).2
  | @answer line done holding starts executed =>
    rw [holding] at served
    obtain ⟨earlier, rfl, survived⟩ := served
    refine ⟨completed, _, queued, closing, coming, account.serve _ _ _ alike ?_⟩
    refine List.forall_mem_append.mpr ⟨survived, List.forall_mem_singleton.mpr ?_⟩
    rw [← Shell.breaks_congr account.alike]
    exact (Shell.execute_ok executed).1
  | @launch line entry args holding starts =>
    rw [holding] at served
    obtain ⟨earlier, rfl, survived⟩ := served
    refine ⟨completed, _, queued, closing, coming, account.serve _ _ _ alike ?_⟩
    refine ⟨earlier, line, rfl, ?_, survived⟩
    rw [← Shell.starting_congr account.alike]
    exact starts
  | @conclude entry args token effect running performed =>
    rw [running] at served
    obtain ⟨earlier, line, rfl, starts, survived⟩ := served
    refine ⟨completed, _, queued, closing, coming, account.serve _ _ _ alike ?_⟩
    refine List.forall_mem_append.mpr ⟨survived, List.forall_mem_singleton.mpr ?_⟩
    rw [Shell.breaks_of_starting starts]
    exact (Shell.perform_ok performed).1

theorem Accounted.step (accounted : s.Accounted shell device lines) (step : Step shell s t) :
    t.Accounted shell device lines := by
  cases step with
  | reads step => exact accounted.reads step
  | serves step => exact accounted.serves step
  | @logs action uses =>
    obtain ⟨completed, taken, queued, closing, whole, account⟩ := accounted
    have acted := Shared.alike_act s.reader.typing.shared action
    have alike : s.device.Alike (s.share (s.reader.typing.shared.act action)).device := ⟨acted, rfl⟩
    have same : (s.share (s.reader.typing.shared.act action)).coming = s.coming :=
      coming_congr rfl ⟨rfl, acted.byte⟩
    exact ⟨completed, taken, queued, closing, same ▸ whole, account.alike.trans alike,
      account.contents, account.closed, account.quiet, account.passed, account.served⟩

/-- The run rule: no line is lost track of. -/
theorem Accounted.steps (accounted : s.Accounted shell device lines) (steps : Steps shell s t) :
    t.Accounted shell device lines := by
  induction steps with
  | refl => exact accounted
  | tail _ step ih => exact ih.step step

theorem accounted_start (shell : Shell) (device : Device) (input : List Input.Read) :
    (start χ shell device input).Accounted shell device
      (({ shared := device.shared } : Input.Typing).lines (Input.bytesOf input)) := by
  have nobody : Mailbox.waiting (Mailbox.empty : χ) = none := Mailbox.Lawful.waiting_empty
  have nothing : Mailbox.contents (Mailbox.empty : χ) = [] := by
    rw [Mailbox.contents_of_ready nobody, Mailbox.Lawful.queue_empty]
  refine ⟨[], [], [], [], rfl, .refl device, nothing, ?_, fun _ => ⟨nobody, rfl⟩, ⟨.refl _, rfl⟩, ?_⟩
  · intro event member
    cases member
  · intro line member
    cases member

end Laws

end DeviceShell.Program.Parties
