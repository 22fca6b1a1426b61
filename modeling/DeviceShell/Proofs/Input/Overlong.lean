import DeviceShell.Proofs.Input.Batch
import DeviceShell.Proofs.Text.Decoding

/-! Printable text typed into a line. A line takes the first bytes of it, and where these end within
a character nothing of the line can be read. -/
namespace DeviceShell

namespace Input

variable {bytes held : Bytes}

/-- Bytes that are no controls stand for themselves. -/
theorem filterMap_keyed (plain : ∀ b ∈ bytes, 0x20 ≤ b ∧ b ≠ 0x7F) :
    bytes.filterMap keyed = bytes := by
  have same : ∀ b ∈ bytes, keyed b = some b := by
    intro b member
    obtain ⟨visible, -⟩ := plain b member
    have tab : b ≠ 0x09 := by
      rintro rfl
      exact absurd visible (by decide)
    rw [keyed, if_neg tab, if_pos (.inr visible)]
  rw [List.filterMap_congr same, List.filterMap_some]

/-- A line takes such bytes until it is full. -/
theorem foldl_edit (plain : ∀ b ∈ bytes, 0x20 ≤ b ∧ b ≠ 0x7F) (short : held.length ≤ lineCapacity) :
    bytes.foldl edit held = (held ++ bytes).take lineCapacity := by
  induction bytes generalizing held with
  | nil => rw [List.foldl_nil, List.append_nil, List.take_of_length_le short]
  | cons b later ih =>
    obtain ⟨⟨visible, other⟩, rest⟩ := List.forall_mem_cons.mp plain
    have erases : ¬ (b = 0x08 ∨ b = 0x7F) := by
      rintro (rfl | rfl)
      · exact absurd visible (by decide)
      · exact other rfl
    rw [List.foldl_cons, edit, if_neg erases]
    split
    · rename_i room
      rw [ih rest (by rw [List.length_append, List.length_singleton]; exact room),
        List.append_assoc, List.singleton_append]
    · rename_i full
      have filled : held.length = lineCapacity := Nat.le_antisymm short (Nat.not_lt.mp full)
      rw [ih rest short, List.take_left' filled, List.take_left' filled]

namespace Typing

variable {t : Typing}

/-- Bytes that neither finish the line nor interrupt edit it. -/
theorem feedAll_edit (typed : ∀ b ∈ bytes, b ≠ t.shared.interrupts.byte ∧ b ≠ 0x0A) :
    t.feedAll bytes =
      ([], { t with editor := ⟨(bytes.filterMap keyed).foldl edit t.editor.pending⟩ }) := by
  induction bytes generalizing t with
  | nil => rfl
  | cons b later ih =>
    obtain ⟨⟨given, other⟩, rest⟩ := List.forall_mem_cons.mp typed
    have further := ih (t := { t with editor := ⟨(keyed b).toList.foldl edit t.editor.pending⟩ }) rest
    rw [feedAll, feed_edit given other]
    dsimp only
    rw [further]
    cases key : keyed b <;> simp [key]

/-- The line feed behind them finishes it. -/
theorem feedAll_line (typed : ∀ b ∈ bytes, b ≠ t.shared.interrupts.byte ∧ b ≠ 0x0A)
    (finishes : t.shared.interrupts.byte ≠ 0x0A) :
    t.feedAll (bytes ++ [0x0A]) =
      match Text.decode? ((bytes.filterMap keyed).foldl edit t.editor.pending) with
      | some line => ([line], { t with editor := {} })
      | none => ([], { shared := t.shared.announce .lineNotText, editor := {} }) := by
  rw [feedAll_snoc, feedAll_edit typed]
  generalize (bytes.filterMap keyed).foldl edit t.editor.pending = pending
  dsimp only
  rw [feed_feed (t := { t with editor := ⟨pending⟩ }) finishes]
  cases Text.decode? pending <;> rfl

/-- Printable text is typed into an empty line, and finished. The longest beginning of it that a
line can hold arrives if the line is full at its end, or never full; otherwise nothing arrives. -/
theorem feedAll_overlong (t : Typing) (text : String) (empty : t.editor = {})
    (printable : Text.Printable text)
    (typed : t.shared.interrupts.byte ∉ Text.encode text ++ [0x0A]) :
    ∃ kept, Text.LongestFit lineCapacity text kept ∧
      t.feedAll (Text.encode text ++ [0x0A]) =
        if kept.utf8ByteSize = min lineCapacity text.utf8ByteSize then ([kept], t)
        else ([], { t with shared := t.shared.announce .lineNotText }) := by
  refine ⟨_, Text.longestFit_fit lineCapacity text, ?_⟩
  have plain := Text.plain_of_mem_encode printable
  obtain ⟨text_typed, finishes⟩ := not_or.mp (mt List.mem_append.mpr typed)
  have others : ∀ b ∈ Text.encode text, b ≠ t.shared.interrupts.byte ∧ b ≠ 0x0A := by
    intro b member
    refine ⟨fun same => text_typed (same ▸ member), ?_⟩
    rintro rfl
    exact absurd (plain _ member).1 (by decide)
  have pending : t.editor.pending = [] := by rw [empty]
  rw [feedAll_line others fun same => finishes (List.mem_singleton.mpr same),
    filterMap_keyed plain, pending, foldl_edit plain (Nat.zero_le _), List.nil_append,
    Text.decode?_take_encode]
  have same : ({ t with editor := {} } : Typing) = t := by rw [← empty]
  split
  · rename_i line read
    split at read
    · cases read
      rw [if_pos ‹_›, same]
    · cases read
  · rename_i unread
    split at unread
    · cases unread
    · rw [if_neg ‹_›, ← empty]

/-- The last character that there is room for makes the line full, and the next one is left out. -/
theorem feedAll_overlong_even :
    let t : Typing := { shared := { interrupts := { byte := 3 } } }
    let text := Text.repeated 126 'x' ++ "é€"
    Text.Printable text ∧ t.shared.interrupts.byte ∉ Text.encode text ++ [0x0A] ∧
      (t.feedAll (Text.encode text ++ [0x0A])).1 = [Text.repeated 126 'x' ++ "é"] := by
  intro t text
  have printable : Text.Printable text :=
    Text.printable_append.mpr ⟨Text.printable_repeated rfl 126, by decide⟩
  have typed : t.shared.interrupts.byte ∉ Text.encode text ++ [0x0A] := by decide +kernel
  obtain ⟨kept, longest, arrives⟩ := feedAll_overlong t text rfl printable typed
  have size : (Text.repeated 126 'x').utf8ByteSize = 126 := Text.utf8ByteSize_repeated 126 'x'
  have first : kept = Text.repeated 126 'x' ++ "é" := by
    have wide : Text.fit (lineCapacity - 126) "é€" = "é" := by decide
    rw [longest.eq_fit, Text.fit_append_of_le (by rw [size]; decide), size, wide]
  refine ⟨printable, typed, ?_⟩
  rw [arrives, first, if_pos (by decide +kernel)]

/-- The line is full within a character of two bytes. The beginning that it has room for does not
arrive, and nothing else does. -/
theorem not_shortened_within_character :
    let t : Typing := { shared := { interrupts := { byte := 3 } } }
    let text := Text.repeated 127 'x' ++ "é"
    Text.Printable text ∧ t.shared.interrupts.byte ∉ Text.encode text ++ [0x0A] ∧
      Text.LongestFit lineCapacity text (Text.repeated 127 'x') ∧
      (t.feedAll (Text.encode text ++ [0x0A])).1 = [] := by
  intro t text
  have printable : Text.Printable text :=
    Text.printable_append.mpr ⟨Text.printable_repeated rfl 127, by decide⟩
  have size : (Text.repeated 127 'x').utf8ByteSize = 127 := Text.utf8ByteSize_repeated 127 'x'
  have longest := Text.longestFit_fit lineCapacity text
  have wide : Text.fit (lineCapacity - 127) "é" = "" := by decide
  rw [Text.fit_append_of_le (by rw [size]; decide), size, wide, String.append_empty] at longest
  exact ⟨printable, by decide +kernel, longest, by decide +kernel⟩

end Typing

end Input

end DeviceShell
