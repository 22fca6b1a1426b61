import DeviceShell.Proofs.Monitor.Lines
import DeviceShell.Proofs.Text.Columns
import Mathlib.Data.Nat.Digits.Defs

/-! The monitor's table read back. The lines of a frame are told apart by their ends, and in a row
each field stands in the column below its word in the header. -/
namespace DeviceShell

namespace Text

/-- The value of base-sixteen digits. -/
def hexadecimal? (cs : List Char) : Option Nat :=
  cs.foldlM (fun n c => ("0123456789abcdef".toList.idxOf? c).map (16 * n + ·)) 0

theorem hexadecimal?_hexadecimal (count n : Nat) :
    hexadecimal? (hexadecimal count n) = some (n % 16 ^ count) := by
  have digit : ∀ d < 16, "0123456789abcdef".toList.idxOf? (Nat.digitChar d) = some d := by decide
  induction count generalizing n with
  | zero => rw [hexadecimal, Nat.pow_zero, Nat.mod_one]; rfl
  | succ count ih =>
    have front := ih (n / 16)
    unfold hexadecimal? at front ⊢
    rw [hexadecimal, List.foldlM_append, front, hexDigit]
    simp only [Option.bind_eq_bind, Option.bind_some, List.foldlM_cons, List.foldlM_nil,
      digit _ (Nat.mod_lt n (by decide)), Option.map_some]
    rw [Nat.pow_succ', Nat.mod_mul, Nat.add_comm]
    rfl

theorem length_hexadecimal (count n : Nat) : (hexadecimal count n).length = count := by
  induction count generalizing n with
  | zero => rfl
  | succ count ih => rw [hexadecimal, List.length_append, ih, List.length_singleton]

theorem exists_digitChar_of_mem_hexadecimal {count n : Nat} {c : Char}
    (member : c ∈ hexadecimal count n) : ∃ d < 16, c = Nat.digitChar d := by
  induction count generalizing n with
  | zero => cases member
  | succ count ih =>
    rw [hexadecimal, List.mem_append, List.mem_singleton] at member
    rcases member with front | last
    · exact ih front
    · exact ⟨n % 16, Nat.mod_lt n (by decide), last⟩

end Text

namespace Monitor

open Text

/-- The number of tenths in digits, a point and one more digit. -/
def tenths? (cs : List Char) : Option Nat :=
  match cs.reverse with
  | last :: '.' :: whole => do
    let units ← natural? whole.reverse
    let tenth ← natural? [last]
    return 10 * units + tenth
  | _ => none

theorem tenths?_tenths (value : UInt64) : tenths? (tenths value).toList = some value.toNat := by
  have last := toList_decimal_of_lt (Nat.mod_lt value.toNat (by decide : 0 < 10))
  have tenth := natural?_decimal (value.toNat % 10)
  rw [last] at tenth
  have backwards : (tenths value).toList.reverse =
      Nat.digitChar (value.toNat % 10) :: '.' :: (decimal (value.toNat / 10)).toList.reverse := by
    simp [tenths_eq, last, show ".".toList = ['.'] from rfl]
  simp only [tenths?, backwards, List.reverse_reverse, natural?_decimal, tenth]
  exact congrArg some (Nat.div_add_mod _ 10)

/-- A number as an address is written. -/
def address? : List Char → Option Nat
  | '0' :: 'x' :: digits => hexadecimal? digits
  | _ => none

theorem address?_address (a : UInt32) : address? (address a).toList = some a.toNat := by
  have written : (address a).toList = '0' :: 'x' :: hexadecimal 8 a.toNat := by
    simp [address, show "0x".toList = ['0', 'x'] from rfl]
  have below : a.toNat < 16 ^ 8 := a.toNat_lt
  rw [written, address?, hexadecimal?_hexadecimal, Nat.mod_eq_of_lt below]

theorem length_address (a : UInt32) : (address a).length = 10 := by
  have digits : (String.ofList (hexadecimal 8 a.toNat)).length = 8 := by
    rw [String.length_ofList, length_hexadecimal]
  rw [address, String.length_append, digits]
  rfl

theorem length_tenths_le {value : UInt64} (small : value.toNat < 10 ^ 4) :
    (tenths value).length ≤ 5 := by
  have units : (decimal (value.toNat / 10)).length ≤ 3 :=
    Nat.repr_length _ 3 (by decide) (by omega)
  have last : (decimal (value.toNat % 10)).length ≤ 1 :=
    Nat.repr_length _ 1 (by decide) (by omega)
  have point : ".".length = 1 := rfl
  rw [tenths_eq, String.length_append, String.length_append, point]
  omega

theorem space_notMem_tenths (value : UInt64) : ' ' ∉ (tenths value).toList := by
  have digits (n : Nat) : ' ' ∉ (decimal n).toList := notMem_decimal rfl n
  simp [tenths_eq, digits, show ".".toList = ['.'] from rfl]

theorem space_notMem_address (a : UInt32) : ' ' ∉ (address a).toList := by
  have other : ∀ d < 16, ' ' ≠ Nat.digitChar d := by decide
  have digits : ' ' ∉ hexadecimal 8 a.toNat := by
    intro member
    obtain ⟨d, below, same⟩ := exists_digitChar_of_mem_hexadecimal member
    exact other d below same
  simp [address, digits, show "0x".toList = ['0', 'x'] from rfl]

def Activity.ofLabel? (label : List Char) : Option Activity :=
  all.find? fun a => a.label.toList = label

theorem Activity.ofLabel?_label (a : Activity) : ofLabel? a.label.toList = some a := by
  cases a <;> decide +kernel

/-- What a row says of a thread, names without the spaces at their ends and the share of the
processor in tenths of a percent. -/
structure Entry where
  app : String
  name : String
  activity : Activity
  priority : Nat
  stackAddress : Nat
  stackSize : Nat
  stackMinFree : Nat
  heap : Nat
  share : Nat
  deriving DecidableEq, Repr

/-- The columns of the table. -/
def table : List Column :=
  [⟨17, false⟩, ⟨20, false⟩, ⟨10, false⟩, ⟨5, true⟩, ⟨12, true⟩, ⟨6, true⟩, ⟨10, true⟩, ⟨7, true⟩,
   ⟨5, true⟩]

def headings : List String :=
  ["AppID", "Name", "State", "Prio", "Stack start", "Stack", "Stack Min", "Heap", "CPU"]

/-- Read a row by its columns. -/
def Entry.ofRow? (row : String) : Option Entry :=
  match Column.cells table row with
  | [app, name, activity, priority, stackAddress, stackSize, stackMinFree, heap, share] => do
    return {
      app := String.ofList app
      name := String.ofList name
      activity := ← Activity.ofLabel? activity
      priority := ← natural? priority
      stackAddress := ← address? stackAddress
      stackSize := ← natural? stackSize
      stackMinFree := ← natural? stackMinFree
      heap := ← natural? heap
      share := ← tenths? share }
  | _ => none

namespace Thread

variable {t : Thread} {total : UInt64}

def withoutEndSpaces (text : String) : String :=
  String.ofList (text.toList.rdropWhile (· == ' '))

/-- What there is to say of a thread. -/
def entry (total : UInt64) (t : Thread) : Entry where
  app := withoutEndSpaces t.app
  name := withoutEndSpaces t.name
  activity := t.activity
  priority := t.priority.toNat
  stackAddress := t.stackAddress.toNat
  stackSize := t.stackSize.toNat
  stackMinFree := t.stackMinFree.toNat
  heap := t.heap.toNat
  share := (permille t.ticks total).toNat

/-- No field needs more room than its column has. -/
structure Narrow (total : UInt64) (t : Thread) : Prop where
  app : t.app.length ≤ 17
  name : t.name.length ≤ 20
  stackSize : t.stackSize.toNat < 10 ^ 6
  heap : t.heap.toNat < 10 ^ 7
  share : (permille t.ticks total).toNat < 10 ^ 4

/-- The texts of a row. -/
def texts (total : UInt64) (t : Thread) : List String :=
  [t.app, t.name, t.activity.label, decimal t.priority.toNat, address t.stackAddress,
   decimal t.stackSize.toNat, decimal t.stackMinFree.toNat, decimal t.heap.toNat,
   tenths (permille t.ticks total)]

theorem row_eq (total : UInt64) (t : Thread) : t.row total = Column.rule table (t.texts total) := by
  have wide : alignRight 12 (address t.stackAddress) = "  " ++ address t.stackAddress := by
    rw [alignRight_eq, length_address]
    rfl
  simp only [row, leftColumns, rightColumns, displayTenths_right, texts, table, Column.rule_cons,
    Column.rule_singleton, Column.align, wide, if_true, if_false, Bool.false_eq_true,
    String.append_assoc]
  rfl

theorem fit_texts (narrow : t.Narrow total) : Column.Fit table (t.texts total) := by
  have label : t.activity.label.length ≤ 10 := by cases t.activity <;> decide +kernel
  have priority : (decimal t.priority.toNat).length ≤ 5 :=
    Nat.repr_length _ 5 (by decide) (Nat.lt_trans t.priority.toNat_lt (by decide))
  have stackMinFree : (decimal t.stackMinFree.toNat).length ≤ 10 :=
    Nat.repr_length _ 10 (by decide) (Nat.lt_trans t.stackMinFree.toNat_lt (by decide))
  have address : (address t.stackAddress).length ≤ 12 := by
    rw [length_address]
    decide
  refine .cons narrow.app (.cons narrow.name (.cons label (.cons priority (.cons address
    (.cons ?_ (.cons stackMinFree (.cons ?_ (.cons ?_ .nil))))))))
  · exact Nat.repr_length _ 6 (by decide) narrow.stackSize
  · exact Nat.repr_length _ 7 (by decide) narrow.heap
  · exact length_tenths_le narrow.share

/-- A row gives back what there is to say of its thread. -/
theorem ofRow?_row (narrow : t.Narrow total) :
    Entry.ofRow? (t.row total) = some (t.entry total) := by
  have label : ' ' ∉ t.activity.label.toList := by cases t.activity <;> decide +kernel
  rw [Entry.ofRow?, row_eq, Column.cells_rule (fit_texts narrow)]
  simp only [table, texts, List.zipWith_cons_cons, List.zipWith_nil_left,
    Column.strip_of_solid label, Column.strip_of_solid (notMem_decimal rfl _),
    Column.strip_of_solid (space_notMem_address _), Column.strip_of_solid (space_notMem_tenths _),
    Activity.ofLabel?_label, natural?_decimal, address?_address, tenths?_tenths]
  rfl

end Thread

/-- A line of a screen up to its line feed. -/
def shown (text : String) : List Char :=
  '\r' :: text.toList ++ Escape.clearLineEnd.toList ++ ['\r']

theorem toList_screenLine (text : String) :
    (screenLine text).toList = shown text ++ ['\n'] := by
  simp [screenLine, shown, show "\r".toList = ['\r'] from rfl,
    show "\r\n".toList = ['\r', '\n'] from rfl]

theorem lineFeed_notMem_shown {text : String} (printable : Printable text) :
    '\n' ∉ shown text := by
  have inside : '\n' ∉ text.toList := fun member => Bool.noConfusion (printable _ member)
  have behind : '\n' ∉ Escape.clearLineEnd.toList := by decide +kernel
  simp [shown, inside, behind]

/-- Lines that all end in the same character, told apart by it. Behind the last nothing is left. -/
theorem splitOn_flatMap {lines : List (List Char)} {feed : Char}
    (clear : ∀ line ∈ lines, feed ∉ line) :
    (lines.flatMap (· ++ [feed])).splitOn feed = lines ++ [[]] := by
  induction lines with
  | nil => exact List.splitOn_nil feed
  | cons line lines ih =>
    obtain ⟨first, later⟩ := List.forall_mem_cons.mp clear
    rw [List.flatMap_cons, List.append_assoc, List.singleton_append, List.splitOn_append_cons_self,
      List.splitOn_eq_singleton first, ih later, List.singleton_append, List.cons_append]

namespace Frame

variable {f : Frame}

/-- The lines of a frame as they are sent, up to their line feeds. -/
def sent (f : Frame) : List (List Char) :=
  shown f.threadSummary :: shown f.heapSummary :: ['\r'] :: shown header :: f.rows.map shown

theorem toList_render (f : Frame) : f.render.toList = f.sent.flatMap (· ++ ['\n']) := by
  have rows (texts : List String) : (String.join (texts.map screenLine)).toList =
      (texts.map shown).flatMap (· ++ ['\n']) := by
    induction texts with
    | nil => rfl
    | cons text texts ih =>
      rw [List.map_cons, String.join_cons, String.toList_append, toList_screenLine, ih,
        List.map_cons, List.flatMap_cons]
  have blank : "\r\n".toList = ['\r'] ++ ['\n'] := rfl
  simp only [render, sent, String.toList_append, toList_screenLine, rows, blank,
    List.flatMap_cons, List.append_assoc]

theorem printable_lines (named : f.Named) : ∀ text ∈ f.lines, Printable text := by
  have rows : ∀ text ∈ f.rows, Printable text := by
    intro text member
    obtain ⟨t, inside, rfl⟩ := List.mem_map.mp member
    exact Thread.printable_row (named t inside) _
  have empty : Printable "" := by decide
  exact List.forall_mem_cons.mpr ⟨f.printable_threadSummary, List.forall_mem_cons.mpr
    ⟨f.printable_heapSummary, List.forall_mem_cons.mpr ⟨empty, List.forall_mem_cons.mpr
      ⟨printable_header, rows⟩⟩⟩⟩

theorem lineFeed_notMem_sent (named : f.Named) : ∀ line ∈ f.sent, '\n' ∉ line := by
  have texts : ∀ text ∈ f.lines, '\n' ∉ shown text := fun text member =>
    lineFeed_notMem_shown (printable_lines named text member)
  have blank : '\n' ∉ ['\r'] := by decide
  simp only [lines, List.forall_mem_cons] at texts
  obtain ⟨threads, heap, -, head, rows⟩ := texts
  simp only [sent, List.forall_mem_cons, List.forall_mem_map]
  exact ⟨threads, heap, blank, head, rows⟩

/-- Cut at its line feeds, a frame is two summaries of the figures of the snapshot, an empty line,
the header and a row for each thread in the order of the snapshot, each line cleared behind its
text. Rows are as wide as the header, and in the columns below its words they say all there is to
say of their threads. -/
theorem render_table (named : f.Named) :
    f.render.toList.splitOn '\n' =
        [shown ("Threads: " ++ decimal f.threads.rows.length ++ ", ISR Time: " ++
            tenths (permille f.threads.isrTicks f.threads.totalTicks) ++ "%, Uptime: " ++
            uptime (f.uptimeMillis / 1000)),
          shown ("Heap: total " ++ decimal f.heap.total.toNat ++ ", free " ++
            decimal f.heap.free.toNat ++ ", minimum " ++ decimal f.heap.minimumFree.toNat ++
            ", max block " ++ decimal f.heap.maxFreeBlock.toNat),
          ['\r'], shown header] ++
          (f.threads.rows.map fun t => shown (t.row f.threads.totalTicks)) ++ [[]] ∧
      (∀ text ∈ f.lines, Printable text) ∧
      header.length = 100 ∧
      Column.cells table header = headings.map String.toList ∧
      ∀ t ∈ f.threads.rows, t.Narrow f.threads.totalTicks →
        (t.row f.threads.totalTicks).length = header.length ∧
          Entry.ofRow? (t.row f.threads.totalTicks) = some (t.entry f.threads.totalTicks) := by
  have wide : header.length = 100 := by decide +kernel
  have cut : f.render.toList.splitOn '\n' = f.sent ++ [[]] := by
    rw [toList_render, splitOn_flatMap (lineFeed_notMem_sent named)]
  have rows : f.rows.map shown =
      f.threads.rows.map fun t => shown (t.row f.threads.totalTicks) := List.map_map ..
  refine ⟨?_, printable_lines named, wide, by decide +kernel, fun t _ narrow => ⟨?_, ?_⟩⟩
  · rw [cut, sent, rows, threadSummary, displayTenths_plain]
    rfl
  · have same := Column.length_rule (Thread.fit_texts narrow) (List.cons_ne_nil _ _)
    rw [wide, Thread.row_eq]
    exact Nat.succ.inj same
  · exact Thread.ofRow?_row narrow

/-- A frame of two threads. The name of the one has spaces at its ends and a letter of two bytes,
the other fills its columns. -/
def pair : Frame where
  threads := {
    rows := [
      { app := "", name := " zähler ", activity := .blocked,
        priority := 15, stackAddress := 0x20000400, stackSize := 2048, stackMinFree := 96,
        heap := 512, ticks := 1 },
      { app := "seventeen letters", name := "twenty letters in it", activity := .running,
        priority := 255, stackAddress := 0xFFFFFFFF, stackSize := 999999, stackMinFree := 4294967295,
        heap := 9999999, ticks := 29997 }]
    totalTicks := 3000
    isrTicks := 2 }
  heap := { total := 65536, free := 4096, minimumFree := 1024, maxFreeBlock := 2048 }
  uptimeMillis := 3723004

theorem render_table_pair :
    pair.Named ∧ (∀ t ∈ pair.threads.rows, t.Narrow pair.threads.totalTicks) ∧
      (pair.render.toList.splitOn '\n').length = 7 ∧
      ∀ t ∈ pair.threads.rows,
        (t.row pair.threads.totalTicks).length = 100 ∧
          Entry.ofRow? (t.row pair.threads.totalTicks) = some (t.entry pair.threads.totalTicks) := by
  have named : pair.Named := by
    unfold Named
    decide +kernel
  have narrow : ∀ t ∈ pair.threads.rows, t.Narrow pair.threads.totalTicks := by
    refine List.forall_mem_cons.mpr ⟨⟨?_, ?_, ?_, ?_, ?_⟩,
      List.forall_mem_singleton.mpr ⟨?_, ?_, ?_, ?_, ?_⟩⟩ <;> decide +kernel
  obtain ⟨cut, -, wide, -, rows⟩ := render_table named
  refine ⟨named, narrow, ?_, fun t member => ?_⟩
  · rw [cut]
    rfl
  · obtain ⟨width, back⟩ := rows t member (narrow t member)
    exact ⟨width.trans wide, back⟩

end Frame

end Monitor

end DeviceShell
