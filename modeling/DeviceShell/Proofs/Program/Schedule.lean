import DeviceShell.Proofs.Input.Queue
import DeviceShell.Proofs.Program.Parties

/-! Schedules: the reader on its own, and the session with one line at a time. -/
namespace DeviceShell.Program.Parties

open Input (Mailbox)

variable {χ : Type} [Mailbox χ] {shell : Shell} {s t : Parties χ}

/-- The reader can go through the bytes of a read at once. -/
theorem reads_bytes {bytes : Bytes} {later : List Input.Read}
    (feeding : s.reading = .feeding bytes later) :
    Relation.ReflTransGen Reads s
      { s with reading := .feeding [] later, reader := bytes.foldl Input.Reader.feed s.reader } := by
  induction bytes generalizing s with
  | nil =>
    obtain ⟨reading, reader, serving, rest, console⟩ := s
    cases feeding
    exact .refl
  | cons b bytes ih => exact .head (.byte feeding) (ih (by rfl))

/-- On its own the reader does what it does without a session. -/
theorem reads_alone {later : List Input.Read} (feeding : s.reading = .feeding [] later) :
    Relation.ReflTransGen Reads s
      { s with reading := .told, reader := s.reader.run (later.map .read) } := by
  induction later generalizing s with
  | nil => exact .head (.finish feeding) (.head (.cancel rfl) (.single (.hangUp rfl)))
  | cons read later ih =>
    cases read with
    | data bytes given =>
      have fed := reads_bytes (s := { s with reading := .feeding bytes later }) rfl
      exact .head (.data feeding) (fed.trans (ih rfl))
    | wouldBlock => exact .head (.wouldBlock feeding) (ih rfl)
    | interrupted => exact .head (.interrupted feeding) (ih rfl)
    | failed reason =>
      exact .head (.failed feeding) (.head (.cancel rfl) (.single (.hangUp rfl)))

theorem steps_of_reads (reads : Relation.ReflTransGen Reads s t) : Steps shell s t :=
  Relation.ReflTransGen.mono (fun _ _ step => .reads step) _ _ reads

/-- On its own the session carries a line out as the shell does. -/
theorem serves_executed {line : String} {done : Execution} (holding : s.serving = .holding line)
    (executed : shell.execute line nobody s.device s.console = .ok done) :
    Steps shell s (s.serve .idle done.device (shell.prompt done.console)) := by
  cases starts : shell.starting line s.device with
  | none => exact .single (.serves (.answer holding starts executed))
  | some started =>
    obtain ⟨entry, args⟩ := started
    rw [Shell.execute_of_starting starts, Shell.launch_eq] at executed
    generalize performed : shell.perform entry.task args nobody _ _ _ = result at executed
    cases result with
    | error halt => cases executed
    | ok effect =>
      cases executed
      exact .tail (.single (.serves (.launch holding starts))) (.serves (.conclude rfl performed))

/-- The session takes a line that it gets through, and is ready for the next one. -/
theorem serves_line [Mailbox.Lawful χ Mailbox.depth] {line : String} {rest : List Input.Event}
    (idle : s.serving = .idle)
    (queued : Mailbox.queue s.reader.channel = .line line :: rest)
    (short : ¬ shell.Loops line s.device) (whole : ¬ shell.Breaks line s.device) :
    ∃ t, Steps shell s t ∧ t.serving = .idle ∧ t.reading = s.reading ∧
      Mailbox.queue t.reader.channel = rest ++ (Mailbox.waiting s.reader.channel).toList ∧
      Mailbox.waiting t.reader.channel = none ∧
      s.reader.typing.Alike t.reader.typing := by
  have taken : Step shell s (s.receive (.holding line) _) :=
    .serves (.take idle (Mailbox.receive_cons queued))
  have answer := shell.answer_execute line s.device s.console
  generalize executed : shell.execute line nobody s.device s.console = result at answer
  cases answer with
  | waits loops => exact absurd loops short
  | ends done _ _ alike =>
    exact ⟨_, .head taken (serves_executed rfl executed), rfl, rfl,
      Mailbox.Lawful.queue_receive _ _ _ queued, Mailbox.Lawful.waiting_receive _ _ _ queued, rfl,
      alike.shared.byte⟩
  | breaks breaks => exact absurd breaks whole

/-- A line that loops, and lines before it that do not. The program survives the first of them, as
many as the channel has room for. -/
structure Ahead (shell : Shell) (device : Device) (earlier : List String) (line : String) :
    Prop where
  loops : shell.Loops line device
  short : ∀ other ∈ earlier, ¬ shell.Loops other device
  whole : ∀ other ∈ earlier.take Mailbox.depth, ¬ shell.Breaks other device

/-- These lines are queued, and nobody waits for room. -/
structure Holds (s : Parties χ) (queued : List String) : Prop where
  queue : Mailbox.queue s.reader.channel = queued.map .line
  waiting : Mailbox.waiting s.reader.channel = none

/-- The line gets into the channel behind lines that the session gets through. -/
def Delivered (shell : Shell) (device : Device) (line : String) (s : Parties χ) : Prop :=
  ∃ t bytes later queued, Steps shell s t ∧ t.reading = .feeding bytes later ∧ t.serving = .idle ∧
    Mailbox.queue t.reader.channel = (queued ++ [line]).map .line ∧
    ∀ other ∈ queued, ¬ shell.Loops other device ∧ ¬ shell.Breaks other device

theorem Delivered.of_steps {device : Device} {line : String} (steps : Steps shell s t)
    (delivered : t.Delivered shell device line) : s.Delivered shell device line := by
  obtain ⟨u, bytes, later, queued, more, rest⟩ := delivered
  exact ⟨u, bytes, later, queued, steps.trans more, rest⟩

/-- A line that is ahead can be delivered. Until then the session takes nothing, so that all lines
but the first ones are dropped, and then it makes room. -/
def Delivers (shell : Shell) (device : Device) (s : Parties χ) : Prop :=
  ∀ queued before line after, device.Alike s.device → s.serving = .idle →
    s.Holds queued → queued.length ≤ Mailbox.depth →
    s.coming = before ++ line :: after → Ahead shell device (queued ++ before) line →
    s.Delivered shell device line

variable {device : Device}

theorem Delivers.of_step (step : Reads s t) (serving : t.serving = s.serving)
    (holds : ∀ queued, s.Holds queued → t.Holds queued) (coming : t.coming = s.coming)
    (delivers : t.Delivers shell device) : s.Delivers shell device := by
  intro queued before line after alike idle held few split ahead
  exact .of_steps (.single (.reads step)) (delivers queued before line after
    (alike.trans step.alike) (serving.trans idle) (holds queued held) few (coming.trans split)
    ahead)

theorem Ahead.fine {queued before : List String} {line : String}
    (ahead : Ahead shell device (queued ++ before) line)
    (few : queued.length ≤ Mailbox.depth) :
    ∀ other ∈ queued, ¬ shell.Loops other device ∧ ¬ shell.Breaks other device := by
  intro other member
  refine ⟨ahead.short other (List.mem_append_left _ member), ahead.whole other ?_⟩
  rw [List.take_append, List.take_of_length_le few]
  exact List.mem_append_left _ member

theorem Ahead.drop {queued before : List String} {first line : String}
    (ahead : Ahead shell device (queued ++ first :: before) line)
    (full : queued.length = Mailbox.depth) : Ahead shell device (queued ++ before) line := by
  refine ⟨ahead.loops, fun other member => ahead.short other ?_, fun other member => ?_⟩
  · rcases List.mem_append.mp member with held | later
    · exact List.mem_append_left _ held
    · exact List.mem_append_right _ (List.mem_cons_of_mem _ later)
  · rw [← full, List.take_left] at member
    exact (ahead.fine (Nat.le_of_eq full) other member).2

theorem delivers_of_coming_eq_nil (nothing : s.coming = []) : s.Delivers shell device := by
  intro queued before line after _ _ _ _ split
  rw [nothing] at split
  cases before <;> cases split

section Laws

variable [Mailbox.Lawful χ Mailbox.depth]

section Holding

variable {b : UInt8} {queued : List String} {line : String}

/-- A byte that completes a line adds it to those that are queued, if there is room. -/
theorem Holds.feed (held : s.Holds queued) (reader : t.reader = s.reader.feed b) :
    t.Holds (queued ++
      if queued.length < Mailbox.depth then (s.reader.typing.feed b).1.toList else []) := by
  refine ⟨?_, by rw [reader, s.reader.waiting_feed, held.waiting]⟩
  rw [reader, s.reader.queue_feed, held.queue, List.length_map, List.map_append]
  cases (s.reader.typing.feed b).1 with
  | none => simp
  | some line =>
    dsimp only
    split <;> simp

theorem Holds.feed_of_none (held : s.Holds queued) (reader : t.reader = s.reader.feed b)
    (completes : (s.reader.typing.feed b).1 = none) : t.Holds queued := by
  simpa [completes] using held.feed reader

theorem Holds.feed_of_lt (held : s.Holds queued) (reader : t.reader = s.reader.feed b)
    (completes : (s.reader.typing.feed b).1 = some line) (room : queued.length < Mailbox.depth) :
    t.Holds (queued ++ [line]) := by
  simpa [completes, room] using held.feed reader

theorem Holds.feed_of_le (held : s.Holds queued) (reader : t.reader = s.reader.feed b)
    (full : Mailbox.depth ≤ queued.length) : t.Holds queued := by
  simpa [Nat.not_lt.mpr full] using held.feed reader

end Holding

/-- Where there is room the line can be delivered with its last byte. -/
theorem delivered_of_room {b : UInt8} {bytes : Bytes} {later : List Input.Read} {line : String}
    {queued : List String} (feeding : s.reading = .feeding (b :: bytes) later)
    (idle : s.serving = .idle) (held : s.Holds queued)
    (room : queued.length < Mailbox.depth)
    (completes : (s.reader.typing.feed b).1 = some line)
    (fine : ∀ other ∈ queued, ¬ shell.Loops other device ∧ ¬ shell.Breaks other device) :
    s.Delivered shell device line := by
  have after : Parties.Holds { s with
      reading := .feeding bytes later, reader := s.reader.feed b } (queued ++ [line]) :=
    held.feed_of_lt rfl completes room
  exact ⟨_, bytes, later, queued, .single (.reads (.byte feeding)), rfl, idle, after.queue, fine⟩

/-- The line comes next. If the channel is full, the session makes room for it. -/
theorem delivered_of_next {b : UInt8} {bytes : Bytes} {later : List Input.Read} {line : String}
    {queued : List String} (feeding : s.reading = .feeding (b :: bytes) later)
    (idle : s.serving = .idle) (held : s.Holds queued)
    (few : queued.length ≤ Mailbox.depth) (alike : device.Alike s.device)
    (completes : (s.reader.typing.feed b).1 = some line)
    (fine : ∀ other ∈ queued, ¬ shell.Loops other device ∧ ¬ shell.Breaks other device) :
    s.Delivered shell device line := by
  rcases Nat.lt_or_eq_of_le few with room | full
  · exact delivered_of_room feeding idle held room completes fine
  · cases queued with
    | nil => cases full
    | cons first rest =>
      obtain ⟨short, whole⟩ := fine first List.mem_cons_self
      obtain ⟨t, steps, ready, reading, behind, sent, typing⟩ := serves_line idle held.queue
        (fun loops => short ((Shell.loops_congr alike first).mp loops))
        (fun breaks => whole ((Shell.breaks_congr alike first).mp breaks))
      have shifted : t.Holds rest := by
        refine ⟨?_, sent⟩
        rw [behind, held.waiting, Option.toList_none, List.append_nil]
      have room : rest.length < Mailbox.depth := by
        rw [← full]
        exact Nat.lt_succ_self _
      refine .of_steps steps (delivered_of_room (reading.trans feeding) ready shifted room ?_
        fun other member => fine other (List.mem_cons_of_mem _ member))
      rw [← completes]
      exact (Input.Typing.feed_congr typing b).1

theorem delivers_byte {b : UInt8} {bytes : Bytes} {later : List Input.Read}
    (delivers : ∀ t : Parties χ, t.reading = .feeding bytes later → t.Delivers shell device)
    (feeding : s.reading = .feeding (b :: bytes) later) : s.Delivers shell device := by
  have step := Reads.byte feeding
  have coming := coming_of_feeding feeding
  rw [List.cons_append, Input.Typing.lines_cons,
    ← Input.Typing.lines_congr (s.reader.alike_feed b).1] at coming
  cases completes : (s.reader.typing.feed b).1 with
  | none =>
    rw [completes] at coming
    exact .of_step step rfl (fun _ held => held.feed_of_none rfl completes) coming.symm
      (delivers _ rfl)
  | some first =>
    rw [completes] at coming
    intro queued before line after alike idle held few split ahead
    rw [coming] at split
    cases before with
    | nil =>
      cases (List.cons.inj split).1
      exact delivered_of_next feeding idle held few alike completes (ahead.fine few)
    | cons other before =>
      obtain ⟨rfl, rest⟩ := List.cons.inj split
      refine .of_steps (.single (.reads step)) ?_
      rcases Nat.lt_or_eq_of_le few with room | full
      · exact delivers _ rfl (queued ++ [first]) before line after (alike.trans step.alike) idle
          (held.feed_of_lt rfl completes room) (by simpa using Nat.succ_le_of_lt room) rest
          (by simpa using ahead)
      · exact delivers _ rfl queued before line after (alike.trans step.alike) idle
          (held.feed_of_le rfl (Nat.le_of_eq full.symm)) few rest (ahead.drop full)

theorem delivers_bytes {bytes : Bytes} {later : List Input.Read}
    (delivers : ∀ t : Parties χ, t.reading = .feeding [] later → t.Delivers shell device)
    (feeding : s.reading = .feeding bytes later) : s.Delivers shell device := by
  induction bytes generalizing s with
  | nil => exact delivers s feeding
  | cons b bytes ih => exact delivers_byte (fun t reading => ih reading) feeding

theorem delivers_input {later : List Input.Read} (feeding : s.reading = .feeding [] later) :
    s.Delivers shell device := by
  induction later generalizing s with
  | nil => exact delivers_of_coming_eq_nil (coming_of_feeding feeding)
  | cons read later ih =>
    have coming := coming_of_feeding feeding
    cases read with
    | data bytes given =>
      refine .of_step (.data feeding) rfl (fun _ held => ⟨held.queue, held.waiting⟩) coming.symm ?_
      exact delivers_bytes (fun t reading => ih reading) rfl
    | wouldBlock =>
      exact .of_step (.wouldBlock feeding) rfl (fun _ held => ⟨held.queue, held.waiting⟩)
        coming.symm (ih rfl)
    | interrupted =>
      exact .of_step (.interrupted feeding) rfl (fun _ held => ⟨held.queue, held.waiting⟩)
        coming.symm (ih rfl)
    | failed reason => exact delivers_of_coming_eq_nil coming

/-- Behind lines that the session gets through, a line that loops strands it once the reader is
through. -/
theorem stranded_of_told {line : String} {queued : List String} {behind : List Input.Event}
    (told : s.reading = .told) (idle : s.serving = .idle) (alike : device.Alike s.device)
    (held : Mailbox.queue s.reader.channel = queued.map .line ++ .line line :: behind)
    (fine : ∀ other ∈ queued, ¬ shell.Loops other device ∧ ¬ shell.Breaks other device)
    (loops : shell.Loops line device) : ∃ t, Steps shell s t ∧ t.Stranded shell := by
  induction queued generalizing s behind with
  | nil =>
    obtain ⟨entry, args, starts, lasts⟩ := (Shell.loops_congr alike line).mpr loops
    have taken : Step shell s (s.receive (.holding line) _) :=
      .serves (.take idle (Mailbox.receive_cons held))
    refine ⟨_, .tail (.single taken) (.serves (.launch rfl starts)), told,
      Mailbox.Lawful.waiting_receive _ _ _ held, entry, args, _, rfl, ?_,
      Shell.isCancelled_armed entry _⟩
    exact (Shell.lasts_congr (Shell.alike_armed entry _) entry.task args).mpr lasts
  | cons first rest ih =>
    obtain ⟨short, whole⟩ := fine first List.mem_cons_self
    obtain ⟨t, steps, ready, reading, moved, -, -⟩ := serves_line idle held
      (fun loops => short ((Shell.loops_congr alike first).mp loops))
      (fun breaks => whole ((Shell.breaks_congr alike first).mp breaks))
    have still : Mailbox.queue t.reader.channel = rest.map .line ++
        .line line :: (behind ++ (Mailbox.waiting s.reader.channel).toList) := by
      rw [moved]
      simp
    obtain ⟨u, more, stranded⟩ := ih (reading.trans told) ready (alike.trans steps.alike) still
      fun other member => fine other (List.mem_cons_of_mem _ member)
    exact ⟨u, steps.trans more, stranded⟩

/-- The reader gets through whatever the session is at, and leaves what is queued in its place. -/
theorem exists_told (shell : Shell) {bytes : Bytes} {later : List Input.Read}
    (feeding : s.reading = .feeding bytes later) :
    ∃ t, Steps shell s t ∧ t.reading = .told ∧ t.serving = s.serving ∧
      Mailbox.queue s.reader.channel <+: Mailbox.queue t.reader.channel :=
  ⟨_, steps_of_reads ((reads_bytes feeding).trans (reads_alone rfl)), rfl, rfl,
    (s.reader.prefix_foldl_feed bytes).trans (Input.Reader.prefix_run _ later)⟩

theorem Delivered.strands {line : String} (delivered : s.Delivered shell device line)
    (alike : device.Alike s.device) (loops : shell.Loops line device) :
    ∃ t, Steps shell s t ∧ t.Stranded shell := by
  obtain ⟨t, bytes, later, queued, steps, feeding, idle, held, fine⟩ := delivered
  obtain ⟨u, through, told, serving, behind, front⟩ := exists_told shell feeding
  rw [held, List.map_append, List.append_assoc] at front
  have all : Steps shell s u := steps.trans through
  obtain ⟨v, more, stranded⟩ := stranded_of_told told (serving.trans idle)
    (alike.trans all.alike) front.symm fine loops
  exact ⟨v, all.trans more, stranded⟩

end Laws

end DeviceShell.Program.Parties
