import DeviceShell.Proofs.Monitor.Course

/-! A redraw told by when it is stopped. It goes round once for each pause up to the one in which it
is cancelled, and gives the cursor back at the end. A single frame asks nobody whether to stop. -/
namespace DeviceShell.Monitor

variable {σ : Type} {view : View σ} {interval : UInt32} {changes : List (σ → σ)} {subject : σ}
  {console : Console} {round : Nat}

/-- The redraw is cancelled in the pause of this number, or with 0 before it starts. -/
structure View.StopsIn (view : View σ) (changes : List (σ → σ)) (subject : σ) (round : Nat) :
    Prop where
  within : round ≤ changes.length
  running : ∀ earlier < round, view.isCancelled (view.watch (changes.take earlier) subject) = false
  stopped : view.isCancelled (view.watch (changes.take round) subject) = true

/-- Later on, the same pause has a smaller number. -/
theorem View.StopsIn.later {change : σ → σ} {later : List (σ → σ)}
    (stops : view.StopsIn (change :: later) subject (round + 1)) :
    view.StopsIn later (change (view.frame subject).2) round where
  within := Nat.le_of_succ_le_succ stops.within
  running earlier before := stops.running (earlier + 1) (Nat.succ_lt_succ before)
  stopped := stops.stopped

theorem View.StopsIn.earlier {change : σ → σ} {later : List (σ → σ)}
    (running : view.isCancelled subject = false)
    (stops : view.StopsIn later (change (view.frame subject).2) round) :
    view.StopsIn (change :: later) subject (round + 1) where
  within := Nat.succ_le_succ stops.within
  running earlier before := by
    cases earlier with
    | zero => exact running
    | succ earlier => exact stops.running earlier (Nat.lt_of_succ_lt_succ before)
  stopped := stops.stopped

/-- As many rounds as there are pauses until it is cancelled, and as many frames. -/
theorem Drawn.every_of_stopsIn {d : Drawn σ} (stops : view.StopsIn changes d.subject round) :
    every view interval changes d = .ok
      { frames := d.frames + UInt32.ofNat round
        cancelled := true
        pauses := d.pauses.append (List.replicate round interval)
        subject := view.watch (changes.take round) d.subject
        console := d.console.publish
          (view.looks (fun subject => Escape.cursorOrigin ++ (view.frame subject).1)
            (changes.take round) d.subject) } := by
  -- On the rounds, not on the changes: those behind the last round are never made.
  induction round generalizing changes d with
  | zero =>
    rw [every_of_isCancelled stops.stopped]
    simp [History.append, View.watch, View.looks, Console.publish]
  | succ round ih =>
    cases changes with
    | nil => exact absurd stops.within (Nat.not_succ_le_zero round)
    | cons change later =>
      have frames : d.frames + 1 + UInt32.ofNat round = d.frames + UInt32.ofNat (round + 1) := by
        rw [UInt32.ofNat_add, UInt32.add_assoc, UInt32.add_comm 1]
        rfl
      have pauses : (d.pauses.push interval).append (List.replicate round interval) =
          d.pauses.append (List.replicate (round + 1) interval) := by
        rw [← History.toList_inj]
        simp [List.replicate_succ]
      rw [every_cons (stops.running 0 (Nat.succ_pos round)), ih stops.later, List.take_succ_cons,
        View.looks, Console.publish_cons, Console.write_append, ← frames, ← pauses]
      rfl

theorem Drawn.exists_stopsIn {d e : Drawn σ} (drawn : every view interval changes d = .ok e) :
    ∃ round, view.StopsIn changes d.subject round := by
  induction changes generalizing d with
  | nil =>
    by_cases cancelled : view.isCancelled d.subject = true
    · exact ⟨0, Nat.le_refl 0, fun _ before => absurd before (Nat.not_lt_zero _), cancelled⟩
    · rw [every_nil (Bool.eq_false_iff.mpr cancelled)] at drawn
      cases drawn
  | cons change later ih =>
    by_cases cancelled : view.isCancelled d.subject = true
    · exact ⟨0, Nat.zero_le _, fun _ before => absurd before (Nat.not_lt_zero _), cancelled⟩
    · have running := Bool.eq_false_iff.mpr cancelled
      rw [every_cons running] at drawn
      obtain ⟨round, stops⟩ := ih drawn
      exact ⟨round + 1, stops.earlier running⟩

theorem exists_stopsIn {d : Drawn σ}
    (drawn : redraw view (.every interval) changes subject console = .ok d) :
    ∃ round, view.StopsIn changes subject round := by
  unfold redraw at drawn
  dsimp only at drawn
  generalize result : Drawn.every view interval changes _ = ran at drawn
  cases ran with
  | error halt => cases drawn
  | ok last => exact Drawn.exists_stopsIn result

/-- The frames that are drawn, one before each change. -/
def View.frames (view : View σ) (changes : List (σ → σ)) (subject : σ) : List String :=
  view.looks (fun subject => (view.frame subject).1) changes subject

/-- One frame has been drawn where the cursor was. -/
structure Drawn.Single (view : View σ) (subject : σ) (console : Console) (d : Drawn σ) : Prop where
  frames : d.frames = 1
  cancelled : d.cancelled = false
  pauses : d.pauses.toList = []
  looked : d.subject = (view.frame subject).2
  output : d.console.output = console.output ++ Text.encode (view.frame subject).1
  flushed : d.console.flushed.toList =
    console.flushed.toList ++ [console.tail ++ Text.encode (view.frame subject).1]

/-- Whatever counts the looks counts one before each change. -/
theorem View.count_watch {count : σ → Nat} (looks : ∀ s, count (view.frame s).2 = count s + 1)
    (keeps : ∀ change ∈ changes, ∀ s, count (change s) = count s) (subject : σ) :
    count (view.watch changes subject) = count subject + changes.length := by
  induction changes generalizing subject with
  | nil => rfl
  | cons change later ih =>
    obtain ⟨first, rest⟩ := List.forall_mem_cons.mp keeps
    have after : view.watch (change :: later) subject =
        view.watch later (change (view.frame subject).2) := rfl
    rw [after, ih rest, first, looks, List.length_cons, Nat.add_assoc, Nat.add_comm 1]

/-- A redraw has gone round so many times, with a change in each pause, and was then found
cancelled. -/
structure Drawn.Cycled (view : View σ) (interval : UInt32) (changes : List (σ → σ)) (round : Nat)
    (subject : σ) (console : Console) (d : Drawn σ) : Prop where
  frames : d.frames.toNat = round % UInt32.size
  cancelled : d.cancelled = true
  pauses : d.pauses.toList = List.replicate round interval
  /-- There is a look before each change, and none behind the last. -/
  looked : d.subject = view.watch (changes.take round) subject
  counted (count : σ → Nat) : (∀ s, count (view.frame s).2 = count s + 1) →
    (∀ change ∈ changes, ∀ s, count (change s) = count s) → count d.subject = count subject + round
  /-- The screen is emptied and the cursor hidden, each frame starts at the top left, and the cursor
  is shown again. -/
  output : d.console.output = console.output ++
    Text.encode (Escape.clearScreen ++ Escape.hideCursor ++
    String.join ((view.frames (changes.take round) subject).map (Escape.cursorOrigin ++ ·)) ++
      Escape.showCursor)
  /-- There is a flush behind each frame, and one at the end. -/
  flushed : d.console.flushed.toList = console.flushed.toList ++
    (((view.frames (changes.take round) subject).map (Escape.cursorOrigin ++ ·) ++
      [Escape.showCursor]).map Text.encode).modifyHead
        (console.tail ++ Text.encode (Escape.clearScreen ++ Escape.hideCursor) ++ ·)
  tail : d.console.tail = []

theorem redraw_once (view : View σ) (changes : List (σ → σ)) (subject : σ) (console : Console) :
    ∃ d, redraw view .once changes subject console = .ok d ∧ d.Single view subject console := by
  refine ⟨_, rfl, rfl, rfl, rfl, rfl, ?_, ?_⟩
  · simp [Drawn.draw, Console.output_write, Text.encode]
  · simp [Drawn.draw, Console.flush, Console.write, Console.writeBytes, Text.encode]

theorem redraw_of_stopsIn (stops : view.StopsIn changes subject round) :
    ∃ d, redraw view (.every interval) changes subject console = .ok d ∧
      d.Cycled view interval changes round subject console := by
  let opened : Drawn σ :=
    { subject := subject
      console := (console.write Escape.clearScreen).write Escape.hideCursor }
  have gone : Drawn.every view interval changes opened = .ok _ := Drawn.every_of_stopsIn stops
  have texts : view.looks (fun subject => Escape.cursorOrigin ++ (view.frame subject).1)
      (changes.take round) subject =
      (view.frames (changes.take round) subject).map (Escape.cursorOrigin ++ ·) :=
    view.looks_map (fun subject => (view.frame subject).1) (Escape.cursorOrigin ++ ·) _ _
  have closed (texts : List String) :
      ((opened.console.publish texts).write Escape.showCursor).flush =
        opened.console.publish (texts ++ [Escape.showCursor]) := by
    rw [Console.publish_append]
    rfl
  unfold redraw
  refine ⟨_, congrArg (Except.map _) gone, ?_, rfl, ?_, rfl, ?_, ?_, ?_, rfl⟩
  · exact (congrArg UInt32.toNat (UInt32.zero_add _)).trans UInt32.toNat_ofNat
  · exact History.toList_append _ _
  · intro count looks keeps
    have kept : ∀ change ∈ changes.take round, ∀ s, count (change s) = count s :=
      fun change member => keeps change (List.mem_of_mem_take member)
    refine (View.count_watch looks kept subject).trans ?_
    rw [List.length_take_of_le stops.within]
  · have printed : String.join ((view.frames (changes.take round) subject).map
        (Escape.cursorOrigin ++ ·) ++ [Escape.showCursor]) =
        String.join ((view.frames (changes.take round) subject).map (Escape.cursorOrigin ++ ·)) ++
          Escape.showCursor := by
      simp
    dsimp only
    rw [texts, closed, Console.output_publish, Console.output_write, Console.output_write, printed]
    simp only [Text.encode_append, List.append_assoc]
  · have start : opened.console.tail =
        console.tail ++ Text.encode (Escape.clearScreen ++ Escape.hideCursor) := by
      rw [Text.encode_append, ← List.append_assoc]
      rfl
    dsimp only
    rw [texts, closed, Console.flushed_publish, start]
    rfl

/-- An interval of zero shows one frame, whatever has been cancelled. Any other goes round until it
is cancelled, and ends in no other way. -/
theorem redraw_ofInterval (view : View σ) (interval : UInt32) (changes : List (σ → σ)) (subject : σ)
    (console : Console) :
    (interval = 0 → ∃ d, redraw view (.ofInterval interval) changes subject console = .ok d ∧
      d.Single view subject console) ∧
    (interval ≠ 0 →
      (∀ round, view.StopsIn changes subject round →
        ∃ d, redraw view (.ofInterval interval) changes subject console = .ok d ∧
          d.Cycled view interval changes round subject console) ∧
      ∀ d, redraw view (.ofInterval interval) changes subject console = .ok d →
        ∃ round, view.StopsIn changes subject round ∧
          d.Cycled view interval changes round subject console) := by
  constructor
  · rintro rfl
    exact redraw_once view changes subject console
  · intro periodic
    rw [Mode.ofInterval, if_neg periodic]
    refine ⟨fun round stops => redraw_of_stopsIn stops, fun d drawn => ?_⟩
    obtain ⟨round, stops⟩ := exists_stopsIn drawn
    obtain ⟨e, again, cycled⟩ : ∃ e, redraw view (.every interval) changes subject console = .ok e ∧
        e.Cycled view interval changes round subject console := redraw_of_stopsIn stops
    rw [drawn] at again
    cases again
    exact ⟨round, stops, cycled⟩

/-- Two rounds of a view that numbers its frames, behind something that has not been flushed. -/
theorem redraw_ofInterval_twice :
    let view : View (Nat × Bool) :=
      { frame := fun s => (Text.decimal s.1, (s.1 + 1, s.2))
        isCancelled := fun s => s.2 }
    let changes : List (Nat × Bool → Nat × Bool) := [id, fun s => (s.1, true), id]
    (250 : UInt32) ≠ 0 ∧ view.StopsIn changes (8, false) 2 ∧
      ∃ d, redraw view (.ofInterval 250) changes (8, false) { tail := [42] } = .ok d ∧
        d.frames.toNat = 2 ∧ d.pauses.toList = [250, 250] ∧ d.subject = (10, true) ∧
        d.console.flushed.toList.map Text.decode? =
          [some "*\x1b[2J\x1b[?25l\x1b[0;0f8", some "\x1b[0;0f9", some "\x1b[?25h"] := by
  intro view changes
  have stops : view.StopsIn changes (8, false) 2 := ⟨by decide, by decide, by decide⟩
  obtain ⟨-, periodic⟩ := redraw_ofInterval view 250 changes (8, false) { tail := [42] }
  obtain ⟨d, drawn, cycled⟩ := (periodic (by decide)).1 2 stops
  refine ⟨by decide, stops, d, drawn, cycled.frames, cycled.pauses, cycled.looked, ?_⟩
  rw [cycled.flushed]
  decide +kernel

end DeviceShell.Monitor
