import DeviceShell.Proofs.Terminal.Screen
import Mathlib.Data.List.Induction

/-! The monitor's frames as lines, and what a screen shows that several of them were drawn on. -/
namespace DeviceShell

namespace Monitor

open Text

theorem printable_tenths (value : UInt64) : Printable (tenths value) := by
  simp only [tenths_eq, printable_append, printable_decimal, true_and, and_true]
  decide +kernel

namespace Thread

variable {t : Thread}

theorem printable_row (named : Printable t.app ∧ Printable t.name) (total : UInt64) :
    Printable (t.row total) := by
  have label : Printable t.activity.label := by cases t.activity <;> decide +kernel
  simp only [row, leftColumns, rightColumns, address, printable_append, printable_alignLeft,
    printable_alignRight, printable_decimal, printable_tenths, printable_hexadecimal,
    displayTenths_right, named, label, true_and, and_true]
  decide +kernel

/-- No row is blank: it has an address in it. -/
theorem exists_sign_row (t : Thread) (total : UInt64) :
    ∃ k, (t.row total).toList.getD k ' ' ≠ ' ' := by
  have member : 'x' ∈ (t.row total).toList := by
    simp [row, address, show "0x".toList = ['0', 'x'] from rfl]
  obtain ⟨k, inside, sign⟩ := List.mem_iff_getElem.mp member
  refine ⟨k, ?_⟩
  rw [List.getD_eq_getElem?_getD, List.getElem?_eq_getElem inside, sign]
  decide

end Thread

namespace Frame

/-- The names of the threads hold no controls. -/
def Named (f : Frame) : Prop := ∀ t ∈ f.threads.rows, Printable t.app ∧ Printable t.name

/-- What a frame says, line by line. -/
def lines (f : Frame) : List String := f.threadSummary :: f.heapSummary :: "" :: header :: f.rows

variable {f : Frame}

theorem length_lines (f : Frame) : f.lines.length = f.threads.rows.length + 4 := by
  simp [lines, rows]

theorem printable_threadSummary (f : Frame) : Printable f.threadSummary := by
  unfold threadSummary uptimeOfMillis uptime
  simp only [printable_append, printable_decimal, displayTenths_plain, printable_tenths, true_and,
    and_true]
  decide +kernel

theorem printable_heapSummary (f : Frame) : Printable f.heapSummary := by
  unfold heapSummary
  simp only [printable_append, printable_decimal, and_true]
  decide +kernel

theorem printable_header : Printable header := by
  simp only [header, leftColumns, rightColumns, printable_append, printable_alignLeft,
    printable_alignRight]
  decide +kernel

end Frame

end Monitor

namespace Screen

open Monitor

variable {s : Screen} {f : Frame}

/-- On a blank row an empty line changes nothing, and to go on to the next line is as good. -/
theorem line_empty (blank : ∀ k, s.cell s.row k = ' ') :
    s.line "" = { s with row := s.row + 1, column := 0 } := by
  simp only [line, mk.injEq, and_true]
  funext r k
  by_cases here : r = s.row
  · simp [here, blank]
  · simp [here]

theorem display_lines {lines : List String} (printable : ∀ text ∈ lines, Text.Printable text)
    (idle : s.sequence = none) :
    s.display (String.join (lines.map screenLine)) = lines.foldl (fun s text => s.line text) s := by
  induction lines generalizing s with
  | nil => rfl
  | cons text later ih =>
    obtain ⟨first, rest⟩ := List.forall_mem_cons.mp printable
    have same : (s.line text).sequence = none := idle
    rw [List.map_cons, String.join_cons, display_append, display_screenLine first idle, ih rest same,
      List.foldl_cons]

/-- A frame is its lines, if the row behind the summaries is blank. -/
theorem display_render (named : f.Named) (idle : s.sequence = none)
    (blank : ∀ k, s.cell (s.row + 2) k = ' ') :
    s.display f.render = f.lines.foldl (fun s text => s.line text) s := by
  have parts : f.render = String.join ([f.threadSummary, f.heapSummary].map screenLine) ++ "\r\n" ++
      String.join ((header :: f.rows).map screenLine) := by
    simp only [Frame.render, List.map_cons, List.map_nil, String.join_cons, String.join_nil,
      String.append_empty, String.append_assoc]
  have summaries : ∀ text ∈ [f.threadSummary, f.heapSummary], Text.Printable text := by
    simp [f.printable_threadSummary, f.printable_heapSummary]
  have table : ∀ text ∈ header :: f.rows, Text.Printable text := by
    refine List.forall_mem_cons.mpr ⟨Frame.printable_header, fun text member => ?_⟩
    obtain ⟨t, inside, rfl⟩ := List.mem_map.mp member
    exact Thread.printable_row (named t inside) _
  have second : ((s.line f.threadSummary).line f.heapSummary).sequence = none := idle
  have third : (((s.line f.threadSummary).line f.heapSummary).line "").sequence = none := idle
  have untouched (k : Nat) : ((s.line f.threadSummary).line f.heapSummary).cell
      ((s.line f.threadSummary).line f.heapSummary).row k = ' ' := by
    have below : s.row + 1 + 1 ≠ s.row := by omega
    simp [blank, below]
  rw [parts, display_append, display_append, display_lines summaries idle, List.foldl_cons,
    List.foldl_cons, List.foldl_nil, display_newline second, ← line_empty untouched,
    display_lines table third]
  rfl

/-- The text of each row of a screen that is in no control sequence. -/
structure Shows (rows : Nat → String) (s : Screen) : Prop where
  idle : s.sequence = none
  cell (r k : Nat) : s.cell r k = (rows r).toList.getD k ' '

end Screen

namespace Monitor.Frame

open Screen

variable {s : Screen} {f : Frame} {frames : List Frame} {rows : Nat → String}

/-- Rows with a frame drawn on them. -/
def onto (rows : Nat → String) (f : Frame) (r : Nat) : String := f.lines.getD r (rows r)

/-- The rows of an empty screen with some frames drawn on it, each on top of those before it. In
each row the last frame is seen that comes down to it. -/
def remains (frames : List Frame) : Nat → String := frames.foldl onto fun _ => ""

theorem shows_onto (shows : s.Shows rows) (blank : rows 2 = "") (named : f.Named) :
    (s.display (Escape.cursorOrigin ++ f.render)).Shows (f.onto rows) := by
  rw [display_append, display_cursorOrigin shows.idle]
  have origin : ({ s with row := 0, column := 0 } : Screen).sequence = none := shows.idle
  rw [display_render named origin fun k => by rw [shows.cell, blank]; rfl]
  obtain ⟨same, cells⟩ := foldl_line f.lines { s with row := 0, column := 0 }
  refine ⟨same.trans shows.idle, fun r k => ?_⟩
  have found : f.onto rows r = f.lines[r]?.getD (rows r) := List.getD_eq_getElem?_getD
  rw [cells, if_pos (Nat.zero_le r), Nat.sub_zero, found]
  cases f.lines[r]? with
  | none => exact shows.cell r k
  | some text => rfl

theorem shows_foldl_onto (shows : s.Shows rows) (blank : rows 2 = "")
    (named : ∀ f ∈ frames, f.Named) :
    (s.display (String.join (frames.map fun f => Escape.cursorOrigin ++ f.render))).Shows
      (frames.foldl onto rows) := by
  induction frames generalizing s rows with
  | nil => exact shows
  | cons f later ih =>
    obtain ⟨first, rest⟩ := List.forall_mem_cons.mp named
    rw [List.map_cons, String.join_cons, display_append, List.foldl_cons]
    exact ih (shows_onto shows blank first) rfl rest

theorem onto_of_lt {r : Nat} (inside : r < f.lines.length) : f.onto rows r = f.lines[r] := by
  rw [onto, List.getD_eq_getElem?_getD, List.getElem?_eq_getElem inside, Option.getD_some]

theorem onto_of_le {r : Nat} (beyond : f.lines.length ≤ r) : f.onto rows r = rows r := by
  rw [onto, List.getD_eq_getElem?_getD, List.getElem?_eq_none beyond, Option.getD_none]

theorem remains_append (earlier : List Frame) (f : Frame) :
    remains (earlier ++ [f]) = f.onto (remains earlier) := by
  rw [remains, List.foldl_append, List.foldl_cons, List.foldl_nil, remains]

/-- A row that no frame comes down to is blank. -/
theorem remains_eq_empty {r : Nat} (short : ∀ f ∈ frames, f.lines.length ≤ r) :
    remains frames r = "" := by
  induction frames using List.reverseRecOn with
  | nil => rfl
  | append_singleton earlier f ih =>
    obtain ⟨rest, last⟩ := List.forall_mem_append.mp short
    rw [remains_append, onto_of_le (last f (List.mem_singleton_self f)), ih rest]

/-- A row of threads that some frame comes down to is not. -/
theorem exists_sign_remains {r : Nat} (threads : 4 ≤ r) (long : ∃ f ∈ frames, r < f.lines.length) :
    ∃ k, (remains frames r).toList.getD k ' ' ≠ ' ' := by
  induction frames using List.reverseRecOn with
  | nil => simp at long
  | append_singleton earlier f ih =>
    rw [remains_append]
    by_cases inside : r < f.lines.length
    · obtain ⟨n, rfl⟩ := Nat.exists_eq_add_of_le' threads
      have row : f.lines[n + 4] ∈ f.rows := List.getElem_mem (Nat.lt_of_add_lt_add_right inside)
      obtain ⟨t, -, same⟩ := List.mem_map.mp row
      rw [onto_of_lt inside, ← same]
      exact t.exists_sign_row _
    · rw [onto_of_le (Nat.le_of_not_lt inside)]
      refine ih ?_
      obtain ⟨g, member, long⟩ := long
      rcases List.mem_append.mp member with before | last
      · exact ⟨g, before, long⟩
      · rw [List.mem_singleton.mp last] at long
        exact absurd long inside

/-- Of some frames nothing is seen but the last, exactly if none before it has more threads. -/
theorem remains_eq_iff (earlier : List Frame) (f : Frame) :
    (∀ r k, (remains (earlier ++ [f]) r).toList.getD k ' ' = (remains [f] r).toList.getD k ' ') ↔
      ∀ g ∈ earlier, g.threads.rows.length ≤ f.threads.rows.length := by
  have alone : remains [f] = f.onto fun _ => "" := rfl
  rw [remains_append, alone]
  constructor
  · intro same g member
    by_contra more
    have long : f.lines.length < g.lines.length := by
      rw [length_lines, length_lines]
      omega
    obtain ⟨k, sign⟩ := exists_sign_remains (r := f.lines.length)
      (by rw [length_lines]; omega) ⟨g, member, long⟩
    have blank := same f.lines.length k
    rw [onto_of_le (Nat.le_refl _), onto_of_le (Nat.le_refl _)] at blank
    exact sign blank
  · intro fewer r k
    by_cases inside : r < f.lines.length
    · rw [onto_of_lt inside, onto_of_lt inside]
    · have beyond := Nat.le_of_not_lt inside
      rw [onto_of_le beyond, onto_of_le beyond, remains_eq_empty fun g member => ?_]
      have few := fewer g member
      rw [length_lines] at beyond ⊢
      omega

end Monitor.Frame

end DeviceShell
