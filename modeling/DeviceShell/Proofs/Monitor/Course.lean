import DeviceShell.Monitor.Redraw
import DeviceShell.Proofs.Terminal.Flushing

/-! The course of a redraw: looks and changes by turns, as many of them as there are pauses. -/
namespace DeviceShell.Monitor

variable {σ α β : Type} {view : View σ} {interval : UInt32} {changes : List (σ → σ)}

/-- A subject that is looked at before each change. -/
def View.watch (view : View σ) (changes : List (σ → σ)) (subject : σ) : σ :=
  changes.foldl (fun subject change => change (view.frame subject).2) subject

/-- What is made out at a subject that is looked at before each change. -/
def View.looks (view : View σ) (look : σ → α) : List (σ → σ) → σ → List α
  | [], _ => []
  | change :: later, subject =>
    look subject :: view.looks look later (change (view.frame subject).2)

theorem View.length_looks (view : View σ) (look : σ → α) (changes : List (σ → σ)) (subject : σ) :
    (view.looks look changes subject).length = changes.length := by
  induction changes generalizing subject with
  | nil => rfl
  | cons change later ih => rw [looks, List.length_cons, ih, List.length_cons]

theorem View.looks_map (view : View σ) (look : σ → α) (reads : α → β) (changes : List (σ → σ))
    (subject : σ) :
    view.looks (fun subject => reads (look subject)) changes subject =
      (view.looks look changes subject).map reads := by
  induction changes generalizing subject with
  | nil => rfl
  | cons change later ih => rw [looks, ih, looks, List.map_cons]

/-- How a redraw gets from `d` to `e`: it looks before each change, pushes each frame to the
terminal behind the order to start at the top left, and has the change in a pause. -/
structure Drawn.Went (view : View σ) (interval : UInt32) (changes : List (σ → σ)) (d e : Drawn σ) :
    Prop where
  subject : e.subject = view.watch changes d.subject
  pauses : e.pauses.toList = d.pauses.toList ++ List.replicate changes.length interval
  console : e.console = d.console.publish
    (view.looks (fun subject => Escape.cursorOrigin ++ (view.frame subject).1) changes d.subject)

theorem Drawn.every_of_isCancelled {d : Drawn σ} (cancelled : view.isCancelled d.subject = true) :
    every view interval changes d = .ok { d with cancelled := true } := by
  unfold every
  rw [if_pos cancelled]

theorem Drawn.every_nil {d : Drawn σ} (running : view.isCancelled d.subject = false) :
    every view interval [] d = .error .endless := by
  unfold every
  rw [if_neg (by simp [running])]

theorem Drawn.every_cons {change : σ → σ} {later : List (σ → σ)} {d : Drawn σ}
    (running : view.isCancelled d.subject = false) :
    every view interval (change :: later) d =
      every view interval later ((d.draw view Escape.cursorOrigin).pause interval change) := by
  rw [every, if_neg (by simp [running])]

/-- A redraw that ends has had some of the changes, each of them in a pause. -/
theorem Drawn.every_ok {d e : Drawn σ} (drawn : every view interval changes d = .ok e) :
    ∃ count ≤ changes.length, Went view interval (changes.take count) d e := by
  induction changes generalizing d with
  | nil =>
    unfold every at drawn
    split at drawn
    · cases drawn
      exact ⟨0, Nat.le_refl 0, rfl, (List.append_nil _).symm, rfl⟩
    · cases drawn
  | cons change later ih =>
    unfold every at drawn
    split at drawn
    · cases drawn
      exact ⟨0, Nat.zero_le _, rfl, (List.append_nil _).symm, rfl⟩
    · obtain ⟨count, inside, went⟩ := ih drawn
      refine ⟨count + 1, Nat.succ_le_succ inside, went.subject, ?_, ?_⟩
      · have paused : ((d.draw view Escape.cursorOrigin).pause interval change).pauses.toList =
            d.pauses.toList ++ [interval] := History.toList_push _ _
        rw [went.pauses, paused, List.append_assoc, List.singleton_append, List.take_succ_cons,
          List.length_cons, List.replicate_succ]
      · rw [went.console, List.take_succ_cons, View.looks]
        simp only [Console.publish, List.foldl_cons, Console.write_append]
        rfl

theorem Drawn.every_error {d : Drawn σ} {halt : Halt}
    (failed : every view interval changes d = .error halt) : halt = .endless := by
  induction changes generalizing d with
  | nil =>
    unfold every at failed
    split at failed
    · cases failed
    · exact (Except.error.inj failed).symm
  | cons change later ih =>
    unfold every at failed
    split at failed
    · cases failed
    · exact ih failed

/-- A redraw ends if the last change makes it stop, whatever the changes before it do to it. -/
theorem Drawn.exists_every_ok {P : σ → Prop} {stop : σ → σ} {d : Drawn σ}
    (keeps : ∀ change ∈ changes, ∀ subject, P subject → P (change (view.frame subject).2))
    (stops : ∀ subject, P subject → view.isCancelled (stop (view.frame subject).2) = true)
    (holds : P d.subject) : ∃ e, every view interval (changes ++ [stop]) d = .ok e := by
  induction changes generalizing d with
  | nil =>
    rw [List.nil_append, every]
    split
    · exact ⟨_, rfl⟩
    · exact ⟨_, if_pos (stops d.subject holds)⟩
  | cons change later ih =>
    rw [List.cons_append, every]
    split
    · exact ⟨_, rfl⟩
    · obtain ⟨first, rest⟩ := List.forall_mem_cons.mp keeps
      exact ih rest (first d.subject holds)

/-- A periodic redraw that ends has had a change in each of its pauses. It starts on an empty screen
without a cursor, and shows the cursor again. -/
theorem redraw_every_ok {subject : σ} {console : Console} {d : Drawn σ}
    (drawn : redraw view (.every interval) changes subject console = .ok d) :
    d.pauses.size ≤ changes.length ∧ ∃ last : Drawn σ,
      Drawn.Went view interval (changes.take d.pauses.size)
        { subject := subject
          console := (console.write Escape.clearScreen).write Escape.hideCursor } last ∧
      d = { last with console := (last.console.write Escape.showCursor).flush } := by
  unfold redraw at drawn
  dsimp only at drawn
  generalize result : Drawn.every view interval changes _ = ran at drawn
  cases ran with
  | error halt => cases drawn
  | ok last =>
    cases drawn
    obtain ⟨count, inside, went⟩ := Drawn.every_ok result
    have paused : last.pauses.size = count := by
      rw [← History.length_toList, went.pauses]
      simp [Nat.min_eq_left inside]
    dsimp only
    rw [paused]
    exact ⟨inside, last, went, rfl⟩

/-- In either mode the subject has been changed once for each pause, and looked at. -/
theorem redraw_ok {mode : Mode} {subject : σ} {console : Console} {d : Drawn σ}
    (drawn : redraw view mode changes subject console = .ok d) :
    d.subject = (view.frame subject).2 ∧ d.pauses.toList = [] ∨
      d.subject = view.watch (changes.take d.pauses.toList.length) subject := by
  cases mode with
  | once =>
    cases drawn
    exact .inl ⟨rfl, rfl⟩
  | every interval =>
    obtain ⟨-, last, went, same⟩ := redraw_every_ok drawn
    rw [History.length_toList]
    refine .inr (Eq.trans ?_ went.subject)
    rw [same]

end DeviceShell.Monitor
