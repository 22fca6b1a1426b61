import DeviceShell.Proofs.Monitor.Course
import DeviceShell.Proofs.Monitor.Lines
import DeviceShell.Shell.Execute

/-! What stays of earlier frames. The screen is emptied once, and after that each frame only erases
the rows that it has lines for. -/
namespace DeviceShell.Monitor

variable {σ : Type} {view : View σ} {look : σ → Frame} {s t : Screen} {f : Frame}

theorem shows_cell_eq_iff {rows lines : Nat → String} (first : s.Shows rows)
    (second : t.Shows lines) :
    s.cell = t.cell ↔ ∀ r k, (rows r).toList.getD k ' ' = (lines r).toList.getD k ' ' := by
  simp only [funext_iff, first.cell, second.cell]

/-- A frame on an empty screen. -/
theorem shows_alone (named : f.Named) :
    (({} : Screen).display f.render).Shows (Frame.remains [f]) := by
  have empty : ({} : Screen).Shows fun _ => "" := ⟨rfl, fun _ _ => rfl⟩
  have shows := Frame.shows_onto empty rfl named
  rwa [Screen.display_append, Screen.display_cursorOrigin rfl] at shows

/-- The screen that is emptied, and the frames that are drawn on it. -/
theorem shows_remains {frames : List Frame} (idle : s.sequence = none)
    (named : ∀ f ∈ frames, f.Named) :
    (s.display (Escape.clearScreen ++ Escape.hideCursor ++
      String.join (frames.map fun f => Escape.cursorOrigin ++ f.render))).Shows
        (Frame.remains frames) := by
  have emptied : ({ s with cell := fun _ _ => ' ' } : Screen).sequence = none := idle
  rw [Screen.display_append, Screen.display_append, Screen.display_clearScreen idle,
    Screen.display_hideCursor emptied]
  exact Frame.shows_foldl_onto ⟨idle, fun _ _ => rfl⟩ rfl named

/-- What a periodic redraw has sent to the terminal by the time that it has drawn some frames. -/
theorem flatten_take_redraw {interval : UInt32} {changes : List (σ → σ)} {subject : σ}
    {console : Console} {d : Drawn σ}
    (drawn : redraw view (.every interval) changes subject console = .ok d) :
    d.pauses.size ≤ changes.length ∧ ∀ count, 0 < count → count ≤ d.pauses.size →
      (d.console.flushed.toList.take (console.flushed.size + count)).flatten =
        console.output ++ Text.encode (Escape.clearScreen ++ Escape.hideCursor ++ String.join
          ((view.looks (fun subject => Escape.cursorOrigin ++ (view.frame subject).1)
            (changes.take d.pauses.size) subject).take count)) := by
  obtain ⟨inside, last, went, ended⟩ := redraw_every_ok drawn
  refine ⟨inside, fun count some_frame few => ?_⟩
  generalize frames : view.looks _ (changes.take d.pauses.size) subject = texts
  have enough : count ≤ texts.length := by
    rw [← frames, View.length_looks, List.length_take, Nat.min_eq_left inside]
    exact few
  have published : last.console =
      ((console.write Escape.clearScreen).write Escape.hideCursor).publish texts := by
    rw [went.console, ← frames]
  have sent : console.flushed.size + count ≤ last.console.flushed.size := by
    rw [published, Console.size_flushed_publish]
    exact Nat.add_le_add_left enough _
  have start := Console.flatten_take_publish (c := (console.write Escape.clearScreen).write
    Escape.hideCursor) some_frame enough
  rw [Console.output_write, Console.output_write, List.append_assoc, List.append_assoc,
    ← Text.encode_append, ← Text.encode_append, ← String.append_assoc] at start
  rw [ended, Console.take_flushed_flush sent, published]
  exact start

/-- A periodic redraw of the monitor, on a terminal that may show anything. After each frame's flush
a row shows what the last frame says in it that comes down to it. So the screen is that of the frame
alone exactly if no earlier frame had more threads. -/
theorem redraw_shows (view : View σ) (look : σ → Frame) (interval : UInt32)
    (changes : List (σ → σ)) (subject : σ) (console : Console) (terminal : Screen) (d : Drawn σ)
    (renders : ∀ subject, (view.frame subject).1 = (look subject).render)
    (named : ∀ f ∈ view.looks look (changes.take d.pauses.size) subject, f.Named)
    (idle : terminal.sequence = none)
    (drawn : redraw view (.every interval) changes subject console = .ok d) :
    (view.looks look (changes.take d.pauses.size) subject).length = d.pauses.size ∧
      ∀ earlier f later,
        view.looks look (changes.take d.pauses.size) subject = earlier ++ f :: later →
        ∃ text, (d.console.flushed.toList.take
            (console.flushed.size + (earlier.length + 1))).flatten =
              console.output ++ Text.encode text ∧
          (terminal.display text).Shows (Frame.remains (earlier ++ [f])) ∧
          ((terminal.display text).cell = (({} : Screen).display f.render).cell ↔
            ∀ g ∈ earlier, g.threads.rows.length ≤ f.threads.rows.length) := by
  obtain ⟨inside, sent⟩ := flatten_take_redraw drawn
  have frames : (view.looks look (changes.take d.pauses.size) subject).length = d.pauses.size := by
    rw [View.length_looks, List.length_take, Nat.min_eq_left inside]
  refine ⟨frames, fun earlier f later split => ?_⟩
  have count : earlier.length + 1 ≤ d.pauses.size := by
    rw [← frames, split, List.length_append, List.length_cons]
    omega
  have texts : view.looks (fun subject => Escape.cursorOrigin ++ (view.frame subject).1)
      (changes.take d.pauses.size) subject =
        (earlier ++ f :: later).map fun f => Escape.cursorOrigin ++ f.render := by
    simp only [renders]
    rw [← split]
    exact view.looks_map look (fun f => Escape.cursorOrigin ++ f.render) _ _
  have first : (earlier ++ f :: later).take (earlier.length + 1) = earlier ++ [f] := by
    rw [List.take_append, List.take_of_length_le (Nat.le_succ _), Nat.add_sub_cancel_left]
    rfl
  have seen : ∀ g ∈ earlier ++ [f], g.Named := by
    intro g member
    refine named g (split ▸ ?_)
    rw [← first] at member
    exact List.mem_of_mem_take member
  have alone := shows_alone (seen f (List.mem_append_right _ (List.mem_singleton_self f)))
  have shows := shows_remains idle seen
  rw [sent _ (Nat.succ_pos _) count, texts, ← List.map_take, first]
  refine ⟨_, rfl, shows, ?_⟩
  rw [shows_cell_eq_iff shows alone, Frame.remains_eq_iff]

/-- A thread of this name. -/
private def named (name : String) : Thread :=
  { app := "app", name := name, activity := .ready, priority := 1 }

/-- A device that is sampled with a token armed. -/
private def sampled (samples : List Threads) : Device :=
  { shared := { interrupts := { byte := 3, flags := [false], armed := some ⟨0⟩ } }
    samples := samples }

/-- Nothing happens in the first pause, and an interrupt in the second. -/
private def interrupted : List (Device → Device) := [[], [.raise]].map Device.actAll

private def seen (device : Device) : Frame := ⟨device.nextSample, device.heap, device.clock⟩

/-- One thread, and then two, behind a line that was printed before. -/
theorem redraw_shows_growing :
    let one : Threads := { rows := [named "a"] }
    let two : Threads := { rows := [named "a", named "b"] }
    let console := ({} : Console).write "\r\n"
    ∃ d text, redraw (Shell.view ⟨0⟩) (.every 5) interrupted (sampled [one, two]) console = .ok d ∧
      (d.console.flushed.toList.take 2).flatten = console.output ++ Text.encode text ∧
      (({} : Screen).display text).cell =
        (({} : Screen).display (Frame.render ⟨two, {}, 0⟩)).cell := by
  intro one two console
  have ends : (redraw (Shell.view ⟨0⟩) (.every 5) interrupted (sampled [one, two])
      console).toOption.map (fun d => d.pauses.size) = some 2 := by
    decide +kernel
  cases drawn : redraw (Shell.view ⟨0⟩) (.every 5) interrupted (sampled [one, two]) console with
  | error halt =>
    rw [drawn] at ends
    cases ends
  | ok d =>
    rw [drawn] at ends
    have pauses : d.pauses.size = 2 := Option.some.inj ends
    have looks : (Shell.view ⟨0⟩).looks seen (interrupted.take d.pauses.size) (sampled [one, two]) =
        [⟨one, {}, 0⟩, ⟨two, {}, 0⟩] := by
      rw [pauses]
      rfl
    have names : ∀ f ∈ (Shell.view ⟨0⟩).looks seen (interrupted.take d.pauses.size)
        (sampled [one, two]), f.Named := by
      rw [looks]
      unfold Frame.Named
      decide +kernel
    obtain ⟨-, after⟩ := redraw_shows (Shell.view ⟨0⟩) seen 5 interrupted (sampled [one, two])
      console {} d (fun _ => rfl) names rfl drawn
    obtain ⟨text, sent, -, same⟩ := after [⟨one, {}, 0⟩] ⟨two, {}, 0⟩ [] looks
    exact ⟨d, text, rfl, sent, same.mpr (by decide +kernel)⟩

/-- Two threads, and then one: the second frame does not erase the row of the thread that is
gone. -/
theorem not_shown_alone :
    let two : Threads := { rows := [named "a", named "b"] }
    let one : Threads := { rows := [named "a"] }
    ∃ d text, redraw (Shell.view ⟨0⟩) (.every 5) interrupted (sampled [two, one]) {} = .ok d ∧
      (d.console.flushed.toList.take 2).flatten = Text.encode text ∧
      (∀ k, (({} : Screen).display text).cell 5 k =
        (Thread.row 0 (named "b")).toList.getD k ' ') ∧
      (({} : Screen).display text).cell ≠
        (({} : Screen).display (Frame.render ⟨one, {}, 0⟩)).cell := by
  intro two one
  have ends : (redraw (Shell.view ⟨0⟩) (.every 5) interrupted (sampled [two, one])
      {}).toOption.map (fun d => d.pauses.size) = some 2 := by
    decide +kernel
  cases drawn : redraw (Shell.view ⟨0⟩) (.every 5) interrupted (sampled [two, one]) {} with
  | error halt =>
    rw [drawn] at ends
    cases ends
  | ok d =>
    rw [drawn] at ends
    have pauses : d.pauses.size = 2 := Option.some.inj ends
    obtain ⟨-, sent⟩ := flatten_take_redraw drawn
    have names : ∀ f ∈ [(⟨two, {}, 0⟩ : Frame), ⟨one, {}, 0⟩], f.Named := by
      unfold Frame.Named
      decide +kernel
    have shows := shows_remains (s := {}) rfl names
    have alone : (({} : Screen).display (Frame.render ⟨one, {}, 0⟩)).Shows _ :=
      shows_alone (names _ (List.mem_cons_of_mem _ (List.mem_singleton_self _)))
    have gone : Frame.remains [⟨two, {}, 0⟩, ⟨one, {}, 0⟩] 5 = Thread.row 0 (named "b") := by
      change Frame.onto (Frame.onto (fun _ => "") ⟨two, {}, 0⟩) ⟨one, {}, 0⟩ 5 = _
      rw [Frame.onto_of_le (Nat.le_refl 5), Frame.onto_of_lt (Nat.le_refl 6)]
      rfl
    have texts : ((Shell.view ⟨0⟩).looks
        (fun device => Escape.cursorOrigin ++ ((Shell.view ⟨0⟩).frame device).1)
        (interrupted.take d.pauses.size) (sampled [two, one])).take 2 =
          [(⟨two, {}, 0⟩ : Frame), ⟨one, {}, 0⟩].map fun f => Escape.cursorOrigin ++ f.render := by
      rw [pauses]
      rfl
    have text := sent 2 (by decide) (Nat.le_of_eq pauses.symm)
    rw [texts] at text
    refine ⟨d, _, rfl, text, fun k => ?_, ?_⟩
    · rw [← gone]
      exact shows.cell 5 k
    · have more := (Frame.remains_eq_iff [⟨two, {}, 0⟩] ⟨one, {}, 0⟩).not.mpr (by decide +kernel)
      exact fun same => more ((shows_cell_eq_iff shows alone).mp same)

end DeviceShell.Monitor
