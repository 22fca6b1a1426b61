import DeviceShell.Proofs.Input.Delivery
import DeviceShell.Proofs.Interrupts.Handles
import Mathlib.Data.List.DropRight

/-! The lines of an input, read off all of it at once: cut it at the line feeds, keep what comes
behind the last interrupt, then edit. Typing byte by byte comes to the same. -/
namespace DeviceShell.Input

/-- The stretches that line feeds have finished. -/
def finished (bytes : Bytes) : List Bytes := (bytes.splitOn 0x0A).dropLast

/-- What comes behind the last line feed. -/
def unfinished (bytes : Bytes) : Bytes := (bytes.splitOn 0x0A).getLastD []

/-- What a byte of a stretch stands for: a tab for a space, a byte that erases or that a line can
hold for itself, any other control byte for nothing. -/
def keyed (byte : UInt8) : Option UInt8 :=
  if byte = 0x09 then some 0x20
  else if byte = 0x08 ∨ 0x20 ≤ byte then some byte
  else none

def edit (held : Bytes) (byte : UInt8) : Bytes :=
  if byte = 0x08 ∨ byte = 0x7F then held.dropLast
  else if held.length < lineCapacity then held ++ [byte]
  else held

/-- What a stretch leaves in the line. -/
def contents (interrupt : UInt8) (stretch : Bytes) : Bytes :=
  ((stretch.rtakeWhile fun byte => byte ≠ interrupt).filterMap keyed).foldl edit []

section Cutting

variable {bytes : Bytes} {b : UInt8}

theorem splitOn_eq (bytes : Bytes) : bytes.splitOn 0x0A = finished bytes ++ [unfinished bytes] := by
  have cut := List.splitOn_ne_nil 0x0A bytes
  rw [finished, unfinished, List.getLastD_eq_getLast?, List.getLast?_eq_some_getLast cut,
    Option.getD_some, List.dropLast_append_getLast]

theorem finished_snoc_feed (bytes : Bytes) :
    finished (bytes ++ [0x0A]) = finished bytes ++ [unfinished bytes] := by
  rw [finished, List.splitOn_append_cons_self, List.splitOn_nil, List.dropLast_concat, splitOn_eq]

theorem unfinished_snoc_feed (bytes : Bytes) : unfinished (bytes ++ [0x0A]) = [] := by
  rw [unfinished, List.splitOn_append_cons_self, List.splitOn_nil]
  simp

theorem splitOn_snoc (other : b ≠ 0x0A) (bytes : Bytes) :
    (bytes ++ [b]).splitOn 0x0A = finished bytes ++ [unfinished bytes ++ [b]] := by
  have single : ∀ stretch : Bytes, 0x0A ∉ stretch → 0x0A ∉ stretch ++ [b] := by
    intro stretch clear inside
    rcases List.mem_append.mp inside with front | last
    · exact clear front
    · exact other (List.mem_singleton.mp last).symm
  -- Cut at the last line feed: `splitOn` goes from the front, and a byte comes in at the back.
  by_cases inside : 0x0A ∈ bytes.reverse
  · obtain ⟨rest, before, reversed, clear⟩ := List.eq_append_cons_of_mem inside
    obtain rfl : bytes = before.reverse ++ 0x0A :: rest.reverse := by
      rw [← List.reverse_reverse bytes, reversed]
      simp
    have clear : 0x0A ∉ rest.reverse := fun member => clear (List.mem_reverse.mp member)
    rw [List.append_assoc, List.cons_append, List.splitOn_append_cons_self,
      List.splitOn_eq_singleton (single _ clear), finished, unfinished,
      List.splitOn_append_cons_self, List.splitOn_eq_singleton clear, List.dropLast_concat]
    simp
  · have clear : 0x0A ∉ bytes := fun member => inside (List.mem_reverse.mpr member)
    rw [List.splitOn_eq_singleton (single _ clear), finished, unfinished,
      List.splitOn_eq_singleton clear]
    rfl

theorem finished_snoc (other : b ≠ 0x0A) (bytes : Bytes) :
    finished (bytes ++ [b]) = finished bytes := by
  rw [finished, splitOn_snoc other, List.dropLast_concat]

theorem unfinished_snoc (other : b ≠ 0x0A) (bytes : Bytes) :
    unfinished (bytes ++ [b]) = unfinished bytes ++ [b] := by
  rw [unfinished, splitOn_snoc other]
  simp

theorem contents_snoc (interrupt : UInt8) (stretch : Bytes) (b : UInt8) :
    contents interrupt (stretch ++ [b]) =
      if b = interrupt then [] else (keyed b).toList.foldl edit (contents interrupt stretch) := by
  rw [contents, List.rtakeWhile_concat]
  by_cases same : b = interrupt
  · simp [same]
  · rw [if_pos (by simp [same]), if_neg same, List.filterMap_append, List.foldl_append, contents]
    rfl

end Cutting

/-- A byte that neither finishes the line nor interrupts edits it. -/
theorem Editor.feed_of_ne {b : UInt8} (other : b ≠ 0x0A) (e : Editor) :
    e.feed b = (none, { pending := (keyed b).toList.foldl edit e.pending }) := by
  unfold feed Key.ofByte keyed
  by_cases erases : b = 0x08 ∨ b = 0x7F
  · have tab : b ≠ 0x09 := by rcases erases with rfl | rfl <;> decide
    have kept : b = 0x08 ∨ 0x20 ≤ b := erases.imp_right (by rintro rfl; decide)
    simp [other, erases, tab, kept, edit]
  · obtain ⟨back, delete⟩ := not_or.mp erases
    by_cases tab : b = 0x09
    · subst tab
      simp only [↓reduceIte, Option.toList_some, List.foldl_cons, List.foldl_nil, edit]
      simp [apply_ite Editor.mk]
    · by_cases wide : 0x20 ≤ b
      · simp [other, back, delete, tab, wide, edit, apply_ite Editor.mk]
      · simp [other, back, delete, tab, wide]

namespace Typing

theorem feed_feed {t : Typing} (other : t.shared.interrupts.byte ≠ 0x0A) :
    t.feed 0x0A = match Text.decode? t.editor.pending with
      | some line => (some line, { t with editor := {} })
      | none => (none, { shared := t.shared.announce .lineNotText, editor := {} }) := by
  simp only [feed, Interrupts.take, if_neg other.symm, Editor.feed, Key.ofByte, if_pos, Line.ofBytes]
  cases Text.decode? t.editor.pending <;> rfl

theorem feed_edit {t : Typing} {b : UInt8} (typed : b ≠ t.shared.interrupts.byte) (other : b ≠ 0x0A) :
    t.feed b = (none, { t with editor := ⟨(keyed b).toList.foldl edit t.editor.pending⟩ }) := by
  simp only [feed, Interrupts.take, if_neg typed, Editor.feed_of_ne other]

theorem feed_interrupt (t : Typing) :
    t.feed t.shared.interrupts.byte = (none, { shared := t.shared.raise, editor := {} }) := by
  simp only [feed, Interrupts.take, if_pos]
  rfl

theorem feedAll_snoc (t : Typing) (bytes : Bytes) (b : UInt8) :
    t.feedAll (bytes ++ [b]) =
      ((t.feedAll bytes).1 ++ ((t.feedAll bytes).2.feed b).1.toList,
        ((t.feedAll bytes).2.feed b).2) := by
  induction bytes generalizing t with
  | nil => rcases fed : t.feed b with ⟨_ | line, u⟩ <;> simp [feedAll, fed]
  | cons first later ih => rcases fed : t.feed first with ⟨_ | line, u⟩ <;> simp [feedAll, fed, ih]

/-- What the log is told of finished lines: of each that is not text. -/
def notes (lines : List Bytes) : List Log.Notice :=
  (lines.filter fun line => (Text.decode? line).isNone).map fun _ => .lineNotText

/-- What typing an input comes to: the lines, the unfinished one, what the log is told, and the
interrupts. -/
structure Assembled (shared : Shared) (bytes : Bytes) (result : List String × Typing) : Prop where
  lines : result.1 =
    ((finished bytes).map (contents shared.interrupts.byte)).filterMap Text.decode?
  pending : result.2.editor.pending = contents shared.interrupts.byte (unfinished bytes)
  log : result.2.shared.log =
    shared.log.announceAll (notes ((finished bytes).map (contents shared.interrupts.byte)))
  routes : shared.interrupts.Alike result.2.shared.interrupts
  cancelled : ∀ token, shared.interrupts.armed = some token →
    token.flag < shared.interrupts.flags.length →
      (result.2.shared.interrupts.isCancelled token = true ↔
        shared.interrupts.isCancelled token = true ∨ shared.interrupts.byte ∈ bytes)

namespace Assembled

variable {shared : Shared} {bytes : Bytes} {result : List String × Typing} {b : UInt8}

theorem interrupt (assembled : Assembled shared bytes result)
    (other : shared.interrupts.byte ≠ 0x0A) :
    Assembled shared (bytes ++ [shared.interrupts.byte])
      (result.1, { shared := result.2.shared.raise, editor := {} }) where
  lines := by rw [finished_snoc other, assembled.lines]
  pending := by rw [unfinished_snoc other, contents_snoc, if_pos rfl]
  log := by rw [finished_snoc other, ← assembled.log]; rfl
  routes := assembled.routes.trans (Interrupts.alike_raise _)
  cancelled token armed inside := by
    have known : token.flag < result.2.shared.interrupts.flags.length := by
      rw [assembled.routes.flags]
      exact inside
    refine (Interrupts.isCancelled_raise _ known).trans ?_
    exact iff_of_true (.inr (assembled.routes.armed.trans armed))
      (.inr (List.mem_append_right _ List.mem_cons_self))

/-- A byte that interrupts nothing leaves the flags as they are. -/
theorem cancelled_snoc (assembled : Assembled shared bytes result)
    (typed : b ≠ shared.interrupts.byte) {token : Token}
    (armed : shared.interrupts.armed = some token)
    (inside : token.flag < shared.interrupts.flags.length) :
    result.2.shared.interrupts.isCancelled token = true ↔
      shared.interrupts.isCancelled token = true ∨ shared.interrupts.byte ∈ bytes ++ [b] := by
  rw [assembled.cancelled token armed inside, List.mem_append, List.mem_singleton,
    or_iff_left typed.symm]

theorem edit (assembled : Assembled shared bytes result) (typed : b ≠ shared.interrupts.byte)
    (other : b ≠ 0x0A) :
    Assembled shared (bytes ++ [b])
      (result.1, { result.2 with
        editor := ⟨(keyed b).toList.foldl Input.edit result.2.editor.pending⟩ }) where
  lines := by rw [finished_snoc other, assembled.lines]
  pending := by rw [unfinished_snoc other, contents_snoc, if_neg typed, assembled.pending]
  log := by rw [finished_snoc other, ← assembled.log]
  routes := assembled.routes
  cancelled _ armed inside := assembled.cancelled_snoc typed armed inside

theorem line (assembled : Assembled shared bytes result) (other : shared.interrupts.byte ≠ 0x0A)
    {line : String} (text : Text.decode? result.2.editor.pending = some line) :
    Assembled shared (bytes ++ [0x0A])
      (result.1 ++ [line], { result.2 with editor := {} }) where
  lines := by
    rw [finished_snoc_feed, List.map_append, List.filterMap_append, ← assembled.lines,
      List.map_singleton, ← assembled.pending, List.filterMap_cons_some text, List.filterMap_nil]
  pending := by rw [unfinished_snoc_feed]; rfl
  log := by
    rw [finished_snoc_feed, List.map_append, List.map_singleton, ← assembled.pending]
    simp [notes, text, assembled.log]
  routes := assembled.routes
  cancelled _ armed inside := assembled.cancelled_snoc other.symm armed inside

theorem garbled (assembled : Assembled shared bytes result) (other : shared.interrupts.byte ≠ 0x0A)
    (stray : Text.decode? result.2.editor.pending = none) :
    Assembled shared (bytes ++ [0x0A])
      (result.1, { shared := result.2.shared.announce .lineNotText, editor := {} }) where
  lines := by
    rw [finished_snoc_feed, List.map_append, List.filterMap_append, ← assembled.lines,
      List.map_singleton, ← assembled.pending, List.filterMap_cons_none stray, List.filterMap_nil,
      List.append_nil]
  pending := by rw [unfinished_snoc_feed]; rfl
  log := by
    rw [finished_snoc_feed, List.map_append, List.map_singleton, ← assembled.pending]
    simp [notes, stray, Shared.announce, assembled.log, Log.Station.announceAll]
  routes := assembled.routes
  cancelled _ armed inside := assembled.cancelled_snoc other.symm armed inside

theorem feed (assembled : Assembled shared bytes result) (other : shared.interrupts.byte ≠ 0x0A)
    (b : UInt8) :
    Assembled shared (bytes ++ [b])
      (result.1 ++ (result.2.feed b).1.toList, (result.2.feed b).2) := by
  have byte := assembled.routes.byte
  by_cases interrupts : b = shared.interrupts.byte
  · subst interrupts
    rw [← byte, feed_interrupt, Option.toList_none, List.append_nil, byte]
    exact assembled.interrupt other
  · by_cases feeds : b = 0x0A
    · subst feeds
      rw [feed_feed (byte ▸ other)]
      cases text : Text.decode? result.2.editor.pending with
      | some line => exact assembled.line other text
      | none =>
        rw [Option.toList_none, List.append_nil]
        exact assembled.garbled other text
    · rw [feed_edit (byte ▸ interrupts) feeds, Option.toList_none, List.append_nil]
      exact assembled.edit interrupts feeds

end Assembled

/-- Typing an input byte by byte comes to what all of it at once comes to. -/
theorem feedAll_assembles (shared : Shared) (other : shared.interrupts.byte ≠ 0x0A) (bytes : Bytes) :
    Assembled shared bytes (({ shared := shared } : Typing).feedAll bytes) := by
  induction bytes using List.reverseRecOn with
  | nil =>
    refine ⟨rfl, rfl, rfl, .refl _, fun token _ _ => ?_⟩
    exact (or_iff_left List.not_mem_nil).symm
  | append_singleton bytes b ih =>
    rw [feedAll_snoc]
    exact ih.feed other b

/-- An interrupt, a tab, an erased letter and a carriage return, then a line that is not text. -/
theorem feedAll_assembles_garbled :
    let shared : Shared :=
      { log := { hub := { level := .debug, nextId := ⟨2⟩, sinks := [⟨1⟩] } }
        interrupts := { byte := 3, flags := [false], armed := some ⟨0⟩ } }
    let input : Bytes := [97, 98, 3, 99, 9, 100, 8, 101, 13, 10, 102, 255, 10, 103, 104, 127]
    let result := ({ shared := shared } : Typing).feedAll input
    shared.interrupts.byte ≠ 0x0A ∧ shared.interrupts.isCancelled ⟨0⟩ = false ∧
      result.1 = ["c e"] ∧ result.2.editor.pending = [103] ∧
      result.2.shared.interrupts.isCancelled ⟨0⟩ = true ∧
      result.2.shared.log.journal.toList.map (·.record) =
        ["0 [D][devcli::input] dropping non-UTF-8 input line\r\n"] := by
  intro shared input result
  have assembled : Assembled shared input result := feedAll_assembles shared (by decide) input
  refine ⟨by decide, by decide, ?_, ?_, ?_, ?_⟩
  · rw [assembled.lines]
    decide +kernel
  · rw [assembled.pending]
    decide +kernel
  · exact (assembled.cancelled ⟨0⟩ rfl (by decide)).mpr (.inr (by decide))
  · rw [assembled.log]
    decide +kernel

end Typing

end DeviceShell.Input
