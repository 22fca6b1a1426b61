import DeviceShell.Input.Channel
import DeviceShell.Proofs.Input.Course
import DeviceShell.Proofs.Input.Queue
import Mathlib.Data.List.ReduceOption

/-! What the session gets of an input: the lines for which there was room, then the word that the
input is over. -/
namespace DeviceShell.Log.Station

def announceAll (notices : List Notice) (s : Station) : Station :=
  notices.foldl (fun s notice => s.announce notice) s

theorem hub_announceAll (notices : List Notice) (s : Station) :
    (s.announceAll notices).hub = s.hub := by
  induction notices generalizing s with
  | nil => rfl
  | cons notice later ih => exact ih (s.announce notice)

theorem journal_announceAll (notices : List Notice) (s : Station) :
    (s.announceAll notices).journal.toList =
      s.journal.toList ++ notices.flatMap fun notice => s.deliveries notice.emission := by
  induction notices generalizing s with
  | nil => exact (List.append_nil _).symm
  | cons notice later ih =>
    have said : (s.announce notice).journal.toList =
        s.journal.toList ++ s.deliveries notice.emission := History.toList_append _ _
    refine (ih (s.announce notice)).trans ?_
    rw [said, List.append_assoc, List.flatMap_cons]
    rfl

end DeviceShell.Log.Station

namespace DeviceShell.Input

open Mailbox

namespace Typing

/-- A byte finishes a line that is not text. -/
def garbles (b : UInt8) (t : Typing) : Bool :=
  b ≠ t.shared.interrupts.byte ∧ (t.editor.feed b).1 = some .garbled

/-- A byte is the interrupt byte, or one for the editor, or it finishes a line that is not text. -/
theorem feed_cases (t : Typing) (b : UInt8) :
    (∃ editor, t.garbles b = false ∧
        t.feed b = (none, { shared := t.shared.raise, editor := editor })) ∨
      (∃ line editor, t.garbles b = false ∧ t.feed b = (line, { t with editor := editor })) ∨
      ∃ editor, t.garbles b = true ∧
        t.feed b = (none, { shared := t.shared.announce .lineNotText, editor := editor }) := by
  by_cases interrupt : b = t.shared.interrupts.byte
  · refine .inl ⟨t.editor.discard, by simp [garbles, interrupt], ?_⟩
    simp only [feed, Interrupts.take, if_pos interrupt]
    rfl
  · have typed : t.shared.interrupts.take b = (false, t.shared.interrupts) := if_neg interrupt
    rcases edited : t.editor.feed b with ⟨finished, editor⟩
    cases finished with
    | none =>
      refine .inr (.inl ⟨none, editor, by simp [garbles, edited], ?_⟩)
      simp only [feed, typed, edited]
    | some finished =>
      cases finished with
      | text line =>
        refine .inr (.inl ⟨some line, editor, by simp [garbles, edited], ?_⟩)
        simp only [feed, typed, edited]
      | garbled =>
        refine .inr (.inr ⟨editor, by simp [garbles, edited, interrupt], ?_⟩)
        simp only [feed, typed, edited]

end Typing

namespace Reader

variable {χ : Type} [Mailbox χ]

/-- What the session has got so far, leaving out the looks that found nothing. -/
def received (r : Reader χ) : List Event := r.taken.toList.reduceOption

/-- The line that gets through at a moment: it is completed when there is room for it. -/
def passed? (stop : Reader χ × Moment) : Option String :=
  (line? stop).filter fun _ => (queue stop.1.channel).length < depth

/-- What the reader says at a moment. -/
def notice? : Reader χ × Moment → Option Log.Notice
  | (r, .byte b) =>
    match (r.typing.feed b).1 with
    | some _ => if (queue r.channel).length < depth then none else some .queueFull
    | none => if r.typing.garbles b then some .lineNotText else none
  | (_, .failure reason) => some (.inputFailed reason)
  | (_, .take) | (_, .idle) => none

/-- What a moment changes, apart from the unfinished line and the flags. -/
structure Change (r : Reader χ) (moment : Moment) (s : Reader χ) : Prop where
  ready : waiting r.channel = none → waiting s.channel = none
  events : waiting r.channel = none → s.received ++ queue s.channel =
    r.received ++ queue r.channel ++ (passed? (r, moment)).toList.map .line
  bounded : (queue r.channel).length ≤ depth → (queue s.channel).length ≤ depth
  log : s.typing.shared.log = r.typing.shared.log.announceAll (notice? (r, moment)).toList
  interrupts : r.typing.shared.interrupts.Alike s.typing.shared.interrupts
  pauses : s.pauses.toList = r.pauses.toList ++ if moment = .idle then [pollInterval] else []

variable {r s : Reader χ} {moment : Moment} {stop : Reader χ × Moment} {line : String}

theorem passed?_of_none (unfinished : line? stop = none) : passed? stop = none := by
  rw [passed?, unfinished, Option.filter_none]

theorem passed?_of_le (full : depth ≤ (queue stop.1.channel).length) : passed? stop = none := by
  simp [passed?, Nat.not_lt.mpr full]

theorem passed?_of_lt (finished : line? stop = some line)
    (room : (queue stop.1.channel).length < depth) : passed? stop = some line := by
  rw [passed?, finished]
  exact if_pos (decide_eq_true room)

/-- Only a byte that completes a line concerns the channel. -/
theorem Change.quiet (channel : s.channel = r.channel) (taken : s.taken = r.taken)
    (silent : passed? (r, moment) = none)
    (log : s.typing.shared.log = r.typing.shared.log.announceAll (notice? (r, moment)).toList)
    (interrupts : r.typing.shared.interrupts.Alike s.typing.shared.interrupts)
    (pauses : s.pauses.toList = r.pauses.toList ++ if moment = .idle then [pollInterval] else []) :
    r.Change moment s where
  ready := by rw [channel]; exact id
  events _ := by rw [silent, received, received, channel, taken, Option.toList_none, List.map_nil,
    List.append_nil]
  bounded fits := by rwa [channel]
  log := log
  interrupts := interrupts
  pauses := pauses

/-- A byte that completes no line. -/
theorem change_feed_of_none {b : UInt8} {typing : Typing} (fed : r.typing.feed b = (none, typing))
    (log : typing.shared.log = r.typing.shared.log.announceAll (notice? (r, .byte b)).toList)
    (interrupts : r.typing.shared.interrupts.Alike typing.shared.interrupts) :
    r.Change (.byte b) (r.feed b) := by
  have met : r.feed b = { r with typing := typing } := by rw [feed, fed]
  rw [met]
  exact .quiet rfl rfl (passed?_of_none (congrArg Prod.fst fed)) log interrupts (by simp)

theorem yieldEvents_succ (r : Reader χ) (count : Nat) :
    r.yieldEvents (count + 1) = (r.meet .take).yieldEvents count := by
  rw [yieldEvents_eq, yieldEvents_eq, List.replicate_succ, meetAll_cons]

section Laws

variable [Lawful χ depth]

/-- A byte that completes a line, for which there is room or not. -/
theorem change_feed_of_some {b : UInt8} {editor : Editor}
    (fed : r.typing.feed b = (some line, { r.typing with editor := editor })) :
    r.Change (.byte b) (r.feed b) := by
  have still : r.pauses.toList = r.pauses.toList ++
      if Moment.byte b = .idle then [pollInterval] else [] := by simp
  have met : r.feed b = deliver line { r with typing := { r.typing with editor := editor } } := by
    rw [feed, fed]
  rw [met]
  rcases Nat.lt_or_ge (queue r.channel).length depth with room | full
  · have queued := Lawful.queue_trySend (.line line) r.channel room
    have through : passed? (r, .byte b) = some line :=
      passed?_of_lt (congrArg Prod.fst fed) room
    rw [deliver_of_lt (by exact room)]
    refine ⟨fun ready => ?_, fun _ => ?_, fun _ => ?_, ?_, .refl _, still⟩
    · exact (Lawful.waiting_trySend (.line line) r.channel room).trans ready
    · rw [through, queued, List.append_assoc]
      rfl
    · rw [queued, List.length_append]
      exact room
    · simp [notice?, fed, room, Log.Station.announceAll]
  · rw [deliver_of_le (by exact full)]
    refine .quiet rfl rfl (passed?_of_le full) ?_ (.refl _) still
    simp [notice?, fed, Nat.not_lt.mpr full, Log.Station.announceAll, Shared.announce]

theorem change_feed (r : Reader χ) (b : UInt8) : r.Change (.byte b) (r.feed b) := by
  rcases r.typing.feed_cases b with ⟨editor, fine, fed⟩ | ⟨line, editor, fine, fed⟩ |
    ⟨editor, garbled, fed⟩
  · refine change_feed_of_none fed ?_ (Interrupts.alike_raise _)
    simp [notice?, fed, fine, Log.Station.announceAll, Shared.raise]
  · cases line with
    | none =>
      refine change_feed_of_none fed ?_ (.refl _)
      simp [notice?, fed, fine, Log.Station.announceAll]
    | some line => exact change_feed_of_some fed
  · refine change_feed_of_none fed ?_ (.refl _)
    simp [notice?, fed, garbled, Log.Station.announceAll, Shared.announce]

/-- The session finds nothing, or takes the oldest event, and who waits for room gets it. -/
theorem take_cases (r : Reader χ) :
    queue r.channel = [] ∧ r.meet .take = { r with taken := r.taken.push none } ∨
      ∃ event later channel, queue r.channel = event :: later ∧
        queue channel = later ++ (waiting r.channel).toList ∧ waiting channel = none ∧
        r.meet .take = { r with channel := channel, taken := r.taken.push (some event) } := by
  have met : r.meet .take =
      { r with
        channel := (receive r.channel).2
        taken := r.taken.push (receive r.channel).1 } := rfl
  cases queued : queue r.channel with
  | nil =>
    refine .inl ⟨rfl, ?_⟩
    rw [met, Lawful.receive_nil _ queued]
  | cons event later =>
    refine .inr ⟨event, later, _, rfl, Lawful.queue_receive _ _ _ queued,
      Lawful.waiting_receive _ _ _ queued, ?_⟩
    rw [met, Lawful.receive_cons _ _ _ queued]

theorem change_take (r : Reader χ) : r.Change .take (r.meet .take) := by
  have still : r.pauses.toList = r.pauses.toList ++
      if Moment.take = .idle then [pollInterval] else [] := (List.append_nil _).symm
  rcases r.take_cases with ⟨empty, met⟩ | ⟨event, later, channel, queued, behind, sent, met⟩
  · rw [met]
    refine ⟨id, fun _ => ?_, id, rfl, .refl _, still⟩
    simp [received, passed?, line?, List.reduceOption_append]
  · rw [met]
    refine ⟨fun _ => sent, fun ready => ?_, fun fits => ?_, rfl, .refl _, still⟩
    · simp [received, passed?, line?, List.reduceOption_append, queued, behind, ready]
    · rw [queued, List.length_cons] at fits
      have single : (waiting r.channel).toList.length ≤ 1 := Option.length_toList_le
      rw [behind, List.length_append]
      omega

theorem change_meet (r : Reader χ) (moment : Moment) : r.Change moment (r.meet moment) := by
  cases moment with
  | byte b => exact r.change_feed b
  | take => exact r.change_take
  | idle => exact .quiet rfl rfl rfl rfl (.refl _) (History.toList_push _ _)
  | failure reason => exact .quiet rfl rfl rfl rfl (.refl _) (List.append_nil _).symm

/-- A reader before its first read. -/
def start (χ : Type) [Mailbox χ] (shared : Shared) : Reader χ := { typing := { shared := shared } }

/-- A reader after what it has met. -/
structure Underway (shared : Shared) (past : List (Reader χ × Moment)) (r : Reader χ) : Prop where
  ready : waiting r.channel = none
  events : r.received ++ queue r.channel = (past.filterMap passed?).map .line
  bounded : (queue r.channel).length ≤ depth
  log : r.typing.shared.log = shared.log.announceAll (past.filterMap notice?)
  interrupts : shared.interrupts.Alike r.typing.shared.interrupts
  pauses : r.pauses.toList = List.replicate ((past.map Prod.snd).count .idle) pollInterval

namespace Underway

variable {shared : Shared} {past : List (Reader χ × Moment)}

theorem start (χ : Type) [Mailbox χ] [Lawful χ depth] (shared : Shared) :
    (start χ shared).Underway shared [] := by
  have empty : queue (Reader.start χ shared).channel = [] := Lawful.queue_empty
  refine ⟨Lawful.waiting_empty, ?_, ?_, rfl, .refl _, rfl⟩
  · rw [empty]
    rfl
  · rw [empty]
    exact Nat.zero_le _

theorem meet (underway : r.Underway shared past) (moment : Moment) :
    (r.meet moment).Underway shared (past ++ [(r, moment)]) := by
  have change := r.change_meet moment
  have last {α : Type} (view : Reader χ × Moment → Option α) :
      (past ++ [(r, moment)]).filterMap view = past.filterMap view ++ (view (r, moment)).toList := by
    rw [List.filterMap_append]
    cases seen : view (r, moment) <;> simp [seen]
  refine ⟨change.ready underway.ready, ?_, change.bounded underway.bounded, ?_,
    underway.interrupts.trans change.interrupts, ?_⟩
  · rw [change.events underway.ready, underway.events]
    rw [last, List.map_append]
  · rw [change.log, underway.log, last]
    exact List.foldl_append.symm
  · rw [change.pauses, underway.pauses, List.map_append, List.count_append, List.replicate_add]
    by_cases idle : moment = .idle <;> simp [idle]

/-- What holds after one moment holds all along the course. -/
theorem meetAll (underway : r.Underway shared past) (moments : List Moment) :
    (r.meetAll moments).Underway shared (past ++ r.course moments) := by
  induction moments generalizing r past with
  | nil =>
    rw [course, List.append_nil]
    exact underway
  | cons moment later ih =>
    have next := ih (underway.meet moment)
    rw [List.append_assoc] at next
    exact next

/-- Wherever the course is cut, the reader that stands there is underway. -/
theorem of_split {q : Reader χ} {moments : List Moment} {before after : List (Reader χ × Moment)}
    (course : (Reader.start χ shared).course moments = before ++ (q, moment) :: after) :
    q.Underway shared before := by
  obtain ⟨earlier, later, rfl, rfl, rfl⟩ := Reader.course_split course
  exact (Underway.start χ shared).meetAll earlier

end Underway

theorem bounded_yieldEvents (fits : (queue r.channel).length ≤ depth) (count : Nat) :
    (queue (r.yieldEvents count).channel).length ≤ depth := by
  induction count generalizing r with
  | zero => exact fits
  | succ count ih =>
    rw [yieldEvents_succ]
    exact ih (r.change_take.bounded fits)

/-- Whoever looks often enough takes everything, even what had to wait for room. -/
theorem received_yieldEvents (fair : Fair r.channel) {count : Nat}
    (enough : (contents r.channel).length ≤ count) :
    (r.yieldEvents count).received = r.received ++ contents r.channel := by
  induction count generalizing r with
  | zero =>
    rw [List.eq_nil_of_length_eq_zero (Nat.le_zero.mp enough), List.append_nil]
    rfl
  | succ count ih =>
    rw [yieldEvents_succ]
    rcases r.take_cases with ⟨empty, met⟩ | ⟨event, later, channel, queued, behind, sent, met⟩
    · have nobody : waiting r.channel = none := fair.resolve_right fun full => full empty
      have nothing : contents r.channel = [] := by rw [contents_of_ready nobody, empty]
      have still : (contents r.channel).length ≤ count := by simp [nothing]
      have rest := ih (r := { r with taken := r.taken.push none }) fair still
      rw [met, rest]
      simp [received, List.reduceOption_append]
    · have split : contents r.channel = event :: contents channel := by
        rw [contents_of_ready sent, behind, contents, queued, List.cons_append]
      rw [split, List.length_cons] at enough
      rw [met, ih (.inl sent) (Nat.le_of_succ_le_succ enough), split]
      simp [received, List.reduceOption_append]

namespace Underway

variable {shared : Shared} {past : List (Reader χ × Moment)}

theorem contents_close (underway : r.Underway shared past) :
    contents r.close.channel = queue r.channel ++ [.closed] := by
  rw [← contents_of_ready underway.ready]
  exact contents_send underway.ready

/-- The word that the input is over comes last, and is not lost in a full channel. -/
theorem received_close (underway : r.Underway shared past) {count : Nat}
    (deep : depth < count) :
    (r.close.yieldEvents count).received = (past.filterMap passed?).map .line ++ [.closed] := by
  have fair : Fair r.close.channel := fair_send underway.ready _
  have enough : (contents r.close.channel).length ≤ count := by
    have bounded := underway.bounded
    rw [underway.contents_close, List.length_append, List.length_singleton]
    omega
  rw [received_yieldEvents fair enough, underway.contents_close, ← List.append_assoc,
    ← underway.events]
  rfl

theorem bounded_close (underway : r.Underway shared past) (count : Nat) :
    (queue (r.close.yieldEvents count).channel).length ≤ depth := by
  refine bounded_yieldEvents ?_ count
  change (queue (send .closed r.channel)).length ≤ depth
  rw [Lawful.queue_send]
  split
  · rename_i room
    rw [List.length_append]
    exact room
  · exact underway.bounded

end Underway

end Laws

/-- Whoever is armed when the input is over is cancelled. -/
theorem isCancelled_close {token : Token} (armed : r.typing.shared.interrupts.armed = some token)
    (inside : token.flag < r.typing.shared.interrupts.flags.length) :
    r.close.typing.shared.interrupts.isCancelled token = true :=
  (Interrupts.isCancelled_raise _ inside).mpr (.inr armed)

/-- What becomes of an input. -/
structure Delivered (shared : Shared) (turns : List Turn) (course : List (Reader χ × Moment))
    (s : Reader χ) : Prop where
  closes : s = ((start χ shared).meetAll (moments turns)).close
  lines : course.filterMap line? = ({ shared := shared } : Typing).lines (bytesOf (readsOf turns))
  /-- The session gets the lines that got through, in order, and `closed` last. -/
  received (count : Nat) : depth < count →
    (s.yieldEvents count).received = (course.filterMap passed?).map .line ++ [.closed]
  passed : (course.filterMap passed?).Sublist (course.filterMap line?)
  /-- What is queued at a moment got through earlier and is not taken yet. -/
  untaken (before after : List (Reader χ × Moment)) (q : Reader χ) (moment : Moment) :
    course = before ++ (q, moment) :: after →
      q.received ++ queue q.channel = (before.filterMap passed?).map .line
  bounded : (∀ stop ∈ course, (queue stop.1.channel).length ≤ depth) ∧
    ∀ count, (queue (s.yieldEvents count).channel).length ≤ depth
  /-- A line is lost when the channel is full, and then the reader says so. -/
  lost (q : Reader χ) (moment : Moment) (line : String) : (q, moment) ∈ course →
    line? (q, moment) = some line →
      (passed? (q, moment) = none ↔ (queue q.channel).length = depth) ∧
      (notice? (q, moment) = some .queueFull ↔ passed? (q, moment) = none)
  warned : (course.filterMap notice?).count .queueFull + (course.filterMap passed?).length =
    (course.filterMap line?).length
  hub : s.typing.shared.log.hub = shared.log.hub
  journal : s.typing.shared.log.journal.toList = shared.log.journal.toList ++
    (course.filterMap notice?).flatMap fun notice => shared.log.deliveries notice.emission
  pauses : s.pauses.toList =
    List.replicate ((heeded turns).count (.read .wouldBlock)) pollInterval
  interrupted : s = (start χ shared).run (turns.filter (· ≠ .read .interrupted))
  failed (before after : List Turn) (reason : String) :
    turns = before ++ .read (.failed reason) :: after →
      s = (start χ shared).run (before ++ [.read (.failed reason)])
  armed : s.typing.shared.interrupts.armed = shared.interrupts.armed
  cancelled (token : Token) : shared.interrupts.armed = some token →
    token.flag < shared.interrupts.flags.length →
      s.typing.shared.interrupts.isCancelled token = true

theorem passed?_eq_none_iff (finished : line? stop = some line) :
    passed? stop = none ↔ depth ≤ (queue stop.1.channel).length := by
  constructor
  · intro dropped
    refine Nat.not_lt.mp fun room => ?_
    rw [passed?_of_lt finished room] at dropped
    cases dropped
  · exact passed?_of_le

theorem notice?_eq_queueFull_iff :
    notice? stop = some .queueFull ↔ (line? stop).isSome ∧ passed? stop = none := by
  obtain ⟨r, moment⟩ := stop
  cases moment with
  | byte b =>
    cases completes : (r.typing.feed b).1 with
    | none =>
      cases garbled : r.typing.garbles b <;> simp [notice?, line?, completes, garbled]
    | some line =>
      have finished : line? (r, .byte b) = some line := completes
      rw [passed?_eq_none_iff finished, finished, ← Nat.not_lt]
      by_cases room : (queue r.channel).length < depth <;> simp [notice?, completes, room]
  | take => simp [notice?, line?]
  | idle => simp [notice?, line?]
  | failure reason => simp [notice?, line?]

/-- A line that is completed gets through or is warned of, and nothing else does either. -/
theorem count_warned_single (stop : Reader χ × Moment) :
    (notice? stop).toList.count .queueFull + (passed? stop).toList.length =
      (line? stop).toList.length := by
  by_cases lost : notice? stop = some .queueFull
  · obtain ⟨finished, dropped⟩ := notice?_eq_queueFull_iff.mp lost
    obtain ⟨line, finished⟩ := Option.isSome_iff_exists.mp finished
    rw [lost, dropped, finished]
    rfl
  · have silent : (notice? stop).toList.count .queueFull = 0 := by
      rw [List.count_eq_zero, Option.mem_toList]
      exact lost
    rw [silent, Nat.zero_add]
    cases finished : line? stop with
    | none => rw [passed?_of_none finished]
    | some line =>
      have through : passed? stop = some line := by
        refine passed?_of_lt finished (Nat.lt_of_not_ge fun full => lost ?_)
        rw [notice?_eq_queueFull_iff, finished]
        exact ⟨rfl, passed?_of_le full⟩
      rw [through]

theorem count_warned (course : List (Reader χ × Moment)) :
    (course.filterMap notice?).count .queueFull + (course.filterMap passed?).length =
      (course.filterMap line?).length := by
  simp only [List.filterMap_eq_flatMap_toList]
  induction course with
  | nil => rfl
  | cons stop later ih =>
    rw [List.flatMap_cons, List.flatMap_cons, List.flatMap_cons, List.count_append,
      List.length_append, List.length_append, ← ih, ← count_warned_single]
    omega

theorem passed_sublist (course : List (Reader χ × Moment)) :
    (course.filterMap passed?).Sublist (course.filterMap line?) := by
  simp only [List.filterMap_eq_flatMap_toList]
  induction course with
  | nil => exact .slnil
  | cons stop later ih =>
    have single : (passed? stop).toList.Sublist (line? stop).toList := by
      rcases Nat.lt_or_ge (queue stop.1.channel).length depth with room | full
      · cases finished : line? stop with
        | none => rw [passed?_of_none finished]
        | some line => rw [passed?_of_lt finished room]
      · rw [passed?_of_le full]
        exact List.nil_sublist _
    exact single.append ih

theorem course_snd (r : Reader χ) (moments : List Moment) :
    (r.course moments).map Prod.snd = moments := by
  induction moments generalizing r with
  | nil => rfl
  | cons moment later ih => exact congrArg _ (ih (r.meet moment))

/-- For all turns, whatever has been said to the log and whoever is armed. -/
theorem run_delivers [Lawful χ depth] (shared : Shared) (turns : List Turn) :
    Delivered shared turns ((start χ shared).course (moments turns)) ((start χ shared).run turns) := by
  have underway := (Underway.start χ shared).meetAll (moments turns)
  rw [List.nil_append] at underway
  rw [run_eq]
  exact {
    closes := rfl
    lines := by
      rw [lines_course, bytes_moments]
      rfl
    received := fun count deep => underway.received_close deep
    passed := passed_sublist _
    untaken := fun _ _ _ _ split => (Underway.of_split split).events
    bounded := by
      refine ⟨?_, underway.bounded_close⟩
      rintro ⟨q, moment⟩ member
      obtain ⟨before, after, split⟩ := List.append_of_mem member
      exact (Underway.of_split split).bounded
    lost := by
      intro q moment line member finished
      obtain ⟨before, after, split⟩ := List.append_of_mem member
      have bounded := (Underway.of_split split).bounded
      constructor
      · rw [passed?_eq_none_iff finished]
        exact ⟨Nat.le_antisymm bounded, fun full => Nat.le_of_eq full.symm⟩
      · rw [notice?_eq_queueFull_iff, finished]
        exact and_iff_right rfl
    warned := count_warned _
    hub := (congrArg Log.Station.hub underway.log).trans (Log.Station.hub_announceAll _ _)
    journal := by
      refine Eq.trans ?_ (Log.Station.journal_announceAll _ _)
      rw [← underway.log]
      rfl
    pauses := by
      have pauses := underway.pauses
      rw [course_snd, count_idle_moments] at pauses
      exact pauses
    interrupted := by rw [run_eq, moments_filter_interrupted]
    failed := by
      rintro before after reason rfl
      rw [run_eq, moments, moments, heeded_append_failed]
    armed := (underway.interrupts.trans (Interrupts.alike_raise _)).armed
    cancelled := by
      intro token armed inside
      apply isCancelled_close
      · rw [underway.interrupts.armed, armed]
      · rw [underway.interrupts.flags]
        exact inside }

/-- Five lines at once for a channel of four, an input that fails, and a command to cancel. -/
theorem run_delivers_overflowing :
    let shared : Shared :=
      { log := { hub := { nextId := ⟨2⟩, sinks := [⟨1⟩] } }
        interrupts := { byte := 3, flags := [false], armed := some ⟨0⟩ } }
    let input : List Turn :=
      [.read (.data [97, 10, 98, 10, 99, 10, 100, 10, 101, 10]), .read .wouldBlock, .take 2,
        .read .interrupted, .read (.data [102, 10])]
    let s := (start Channel shared).run (input ++ [.read (.failed "gone"), .read (.data [103, 10])])
    shared.interrupts.armed = some ⟨0⟩ ∧ s.typing.shared.interrupts.isCancelled ⟨0⟩ = true ∧
      (s.yieldEvents 5).received =
        [.line "a", .line "b", .line "c", .line "d", .line "f", .closed] ∧
      s.pauses.toList = [10] ∧
      s.typing.shared.log.journal.toList.map (·.record) =
        ["0 [W][devcli::input] input queue full; line dropped\r\n",
          "0 [W][devcli::input] input stream error (gone); closing session\r\n"] := by
  intro shared input s
  have delivered : Delivered shared _ _ s := run_delivers shared _
  refine ⟨rfl, delivered.cancelled ⟨0⟩ rfl (by decide), ?_, ?_, ?_⟩
  · rw [delivered.received 5 (by decide)]
    decide +kernel
  · rw [delivered.pauses]
    decide
  · rw [delivered.journal]
    decide +kernel

end Reader

end DeviceShell.Input
