import DeviceShell.Proofs.Input.Lines

/-! The course of a reader: the moments that its turns come to, down to single bytes and single
looks of the session, and the reader as it stands at each of them. -/
namespace DeviceShell.Input

/-- What comes up for a reader. -/
inductive Moment where
  | byte (b : UInt8)
  | take
  | idle
  | failure (reason : String)
  deriving DecidableEq

namespace Moment

def byte? : Moment → Option UInt8
  | .byte b => some b
  | _ => none

end Moment

/-- The moments of a turn. Nothing comes of an interrupted read. -/
def Turn.moments : Turn → List Moment
  | .take count => List.replicate count .take
  | .read (.data bytes _) => bytes.map .byte
  | .read .wouldBlock => [.idle]
  | .read .interrupted => []
  | .read (.failed reason) => [.failure reason]

/-- The turns before the input is over, the read that failed among them. -/
def heeded : List Turn → List Turn
  | [] => []
  | .read (.failed reason) :: _ => [.read (.failed reason)]
  | turn :: later => turn :: heeded later

def moments (turns : List Turn) : List Moment := (heeded turns).flatMap Turn.moments

/-- The reads among turns. -/
def readsOf (turns : List Turn) : List Read :=
  turns.filterMap fun
    | .read result => some result
    | .take _ => none

theorem heeded_of_ne {turn : Turn} (fine : ∀ reason, turn ≠ .read (.failed reason))
    (later : List Turn) : heeded (turn :: later) = turn :: heeded later := by
  rw [heeded]
  exact fine

theorem heeded_append_failed (before : List Turn) (reason : String) (after : List Turn) :
    heeded (before ++ .read (.failed reason) :: after) =
      heeded (before ++ [.read (.failed reason)]) := by
  induction before with
  | nil => rfl
  | cons turn later ih =>
    by_cases failed : ∃ reason, turn = .read (.failed reason)
    · obtain ⟨reason, rfl⟩ := failed
      rfl
    · have fine : ∀ reason, turn ≠ .read (.failed reason) := not_exists.mp failed
      rw [List.cons_append, List.cons_append, heeded_of_ne fine, heeded_of_ne fine, ih]

theorem moments_filter_interrupted (turns : List Turn) :
    moments (turns.filter (· ≠ .read .interrupted)) = moments turns := by
  induction turns with
  | nil => rfl
  | cons turn later ih =>
    by_cases interrupted : turn = .read .interrupted
    · subst interrupted
      exact ih
    · have kept : (turn :: later).filter (· ≠ .read .interrupted) =
          turn :: later.filter (· ≠ .read .interrupted) := by
        simp [interrupted]
      rw [kept]
      by_cases failed : ∃ reason, turn = .read (.failed reason)
      · obtain ⟨reason, rfl⟩ := failed
        rfl
      · have fine : ∀ reason, turn ≠ .read (.failed reason) := not_exists.mp failed
        unfold moments at ih ⊢
        rw [heeded_of_ne fine, heeded_of_ne fine, List.flatMap_cons, List.flatMap_cons, ih]

/-- Idle moments come of reads that would block, one of each. -/
theorem count_idle_moments (turns : List Turn) :
    (moments turns).count .idle = (heeded turns).count (.read .wouldBlock) := by
  have single (turn : Turn) : turn.moments.count .idle = [turn].count (.read .wouldBlock) := by
    cases turn with
    | take count => simp [Turn.moments, List.count_replicate]
    | read result =>
      cases result with
      | data bytes given => simp [Turn.moments, List.count_eq_zero]
      | wouldBlock => rfl
      | interrupted => rfl
      | failed reason => rfl
  unfold moments
  induction heeded turns with
  | nil => rfl
  | cons turn later ih =>
    rw [List.flatMap_cons, List.count_append, ih, single, ← List.count_append,
      List.singleton_append]

theorem bytes_moments (turns : List Turn) :
    (moments turns).filterMap Moment.byte? = bytesOf (readsOf turns) := by
  unfold moments
  induction turns with
  | nil => rfl
  | cons turn later ih =>
    cases turn with
    | take count =>
      rw [heeded, List.flatMap_cons, List.filterMap_append, ih]
      · simp [Turn.moments, Moment.byte?, readsOf]
      · exact nofun
    | read result =>
      cases result with
      | data bytes given =>
        rw [heeded, List.flatMap_cons, List.filterMap_append, ih]
        · simp [Turn.moments, Moment.byte?, readsOf, bytesOf, Function.comp_def]
        · exact nofun
      | wouldBlock => exact ih
      | interrupted => exact ih
      | failed reason => rfl

namespace Reader

variable {χ : Type} [Mailbox χ]

/-- The reader after a moment. -/
def meet (r : Reader χ) : Moment → Reader χ
  | .byte b => r.feed b
  | .take => r.yieldEvents 1
  | .idle => r.pause
  | .failure reason => r.lament reason

def meetAll (r : Reader χ) (moments : List Moment) : Reader χ := moments.foldl meet r

/-- Each moment, with the reader that meets it. -/
def course : Reader χ → List Moment → List (Reader χ × Moment)
  | _, [] => []
  | r, moment :: later => (r, moment) :: (r.meet moment).course later

variable (r : Reader χ)

@[simp] theorem meetAll_cons (moment : Moment) (later : List Moment) :
    r.meetAll (moment :: later) = (r.meet moment).meetAll later := rfl

@[simp] theorem meetAll_append (first second : List Moment) :
    r.meetAll (first ++ second) = (r.meetAll first).meetAll second := List.foldl_append

/-- A course is cut anywhere at the reader that the moments so far have made. -/
theorem course_split {r q : Reader χ} {moment : Moment} {moments : List Moment}
    {before after : List (Reader χ × Moment)}
    (course : r.course moments = before ++ (q, moment) :: after) :
    ∃ earlier later, moments = earlier ++ moment :: later ∧ r.course earlier = before ∧
      r.meetAll earlier = q := by
  induction before generalizing r moments with
  | nil =>
    cases moments with
    | nil => cases course
    | cons first later =>
      obtain ⟨same, -⟩ := List.cons.inj course
      cases same
      exact ⟨[], later, rfl, rfl, rfl⟩
  | cons head before ih =>
    cases moments with
    | nil => cases course
    | cons first moments =>
      obtain ⟨rfl, rest⟩ := List.cons.inj course
      obtain ⟨earlier, later, rfl, rfl, rfl⟩ := ih rest
      exact ⟨first :: earlier, later, rfl, rfl, rfl⟩

/-- To take several events is to take one several times. -/
theorem yieldEvents_eq (count : Nat) :
    r.yieldEvents count = r.meetAll (List.replicate count .take) := by
  induction count generalizing r with
  | zero => rfl
  | succ count ih =>
    rw [List.replicate_succ, meetAll_cons, ← ih]
    simp [yieldEvents, meet, Mailbox.receiveMany, History.append]

theorem foldl_feed_eq (bytes : Bytes) : bytes.foldl feed r = r.meetAll (bytes.map .byte) := by
  rw [meetAll, List.foldl_map]
  rfl

/-- A run meets the moments of its turns, then closes. -/
theorem run_eq (turns : List Turn) : r.run turns = (r.meetAll (moments turns)).close := by
  unfold moments
  induction turns generalizing r with
  | nil => rfl
  | cons turn later ih =>
    cases turn with
    | take count =>
      rw [run, ih, yieldEvents_eq, ← meetAll_append]
      rfl
    | read result =>
      cases result with
      | data bytes given =>
        rw [run, ih, foldl_feed_eq, ← meetAll_append]
        rfl
      | wouldBlock => exact ih r.pause
      | interrupted => exact ih r
      | failed reason => rfl

/-- The line that a moment completes. -/
def line? : Reader χ × Moment → Option String
  | (r, .byte b) => (r.typing.feed b).1
  | _ => none

/-- Which lines are completed depends on the bytes alone. -/
theorem lines_course (moments : List Moment) :
    (r.course moments).filterMap line? = r.typing.lines (moments.filterMap Moment.byte?) := by
  induction moments generalizing r with
  | nil => rfl
  | cons moment later ih =>
    rw [course, List.filterMap_cons, ih]
    cases moment with
    | byte b =>
      have alike := (r.alike_feed b).1
      have typed : (Moment.byte b :: later).filterMap Moment.byte? =
          b :: later.filterMap Moment.byte? := rfl
      rw [typed, Typing.lines_cons, ← Typing.lines_congr alike]
      cases completes : (r.typing.feed b).1 <;> simp [line?, completes, meet]
    | take => rfl
    | idle => rfl
    | failure reason =>
      have alike : r.typing.Alike (r.meet (.failure reason)).typing := ⟨rfl, rfl⟩
      exact Typing.lines_congr alike _

end Reader

end DeviceShell.Input
