import DeviceShell.Proofs.Command.Listing
import Mathlib.Logic.Basic

/-! The grid of a listing, place by place: column by column it goes through the labels, hidden ones
too, and ends where its columns end. -/
namespace DeviceShell.Command

theorem exists_error_of_mem {ε α β : Type} {f : α → Except ε β} {items : List α} {item : α}
    {error : ε} (member : item ∈ items) (failed : f item = .error error) :
    ∃ error, items.mapM f = .error error := by
  induction items with
  | nil => cases member
  | cons first later ih =>
    rw [List.mapM_cons]
    cases result : f first with
    | error e => exact ⟨e, rfl⟩
    | ok value =>
      rcases List.mem_cons.mp member with rfl | member
      · cases result.symm.trans failed
      · obtain ⟨e, rest⟩ := ih member
        exact ⟨e, by rw [rest]; rfl⟩

theorem map_error_iff {ε α β : Type} {f : α → β} {result : Except ε α} :
    (∃ error, result.map f = .error error) ↔ ∃ error, result = .error error := by
  cases result <;> simp [Except.map]

theorem mapM_error_iff {ε α β : Type} {f : α → Except ε β} {items : List α} :
    (∃ error, items.mapM f = .error error) ↔ ∃ item ∈ items, ∃ error, f item = .error error := by
  constructor
  · rintro ⟨error, failed⟩
    obtain ⟨item, member, failed⟩ := mapM_error failed
    exact ⟨item, member, error, failed⟩
  · rintro ⟨item, member, error, failed⟩
    exact exists_error_of_mem member failed

namespace Columns

variable {columns : Columns} {labels : List Label} {position : Nat}

/-- What is found in a place of the list. -/
def cellAt (labels : List Label) (place : Nat) : Cell :=
  match labels[place]? with
  | none => .exhausted
  | some l => if l.hidden then .hidden else .label place

theorem look_fst (labels : List Label) (cursor : Nat) :
    (look labels.toArray cursor).1 = cellAt labels cursor := by
  simp only [look, cellAt, List.getElem?_toArray]
  cases labels[cursor]? <;> rfl

/-- A cursor that has stopped finds nothing more. -/
theorem cellAt_look (labels : List Label) (cursor further : Nat) :
    cellAt labels ((look labels.toArray cursor).2 + further) =
      cellAt labels (cursor + 1 + further) := by
  simp only [look, List.getElem?_toArray]
  cases found : labels[cursor]? with
  | some l => rfl
  | none =>
    have past := List.getElem?_eq_none_iff.mp found
    simp only [cellAt, List.getElem?_eq_none (Nat.le_add_right_of_le past),
      List.getElem?_eq_none (Nat.le_trans past (by omega : cursor ≤ cursor + 1 + further))]

theorem walk_eq (labels : List Label) (rows : Nat) (cursors : List Nat) :
    walk labels.toArray rows cursors =
      (List.range rows).map fun row => cursors.map fun cursor => cellAt labels (cursor + row) := by
  induction rows generalizing cursors with
  | zero => rfl
  | succ rows ih =>
    rw [walk, ih, List.range_succ_eq_map, List.map_cons]
    simp only [List.map_map]
    congr 1
    · exact List.map_congr_left fun cursor _ => look_fst labels cursor
    · refine List.map_congr_left fun row _ => List.map_congr_left fun cursor _ => ?_
      refine (cellAt_look labels cursor row).trans ?_
      rw [Nat.add_assoc, Nat.add_comm 1 row]

/-- Each column goes on where the one before it ends. -/
theorem grid_eq (columns : Columns) (labels : List Label) :
    columns.grid labels = (List.range (columns.rows (visible labels))).map fun row =>
      (List.range columns.count).map fun column =>
        cellAt labels (column * columns.rows (visible labels) + row) := by
  rw [grid, starts, walk_eq]
  refine List.map_congr_left fun row _ => ?_
  rw [List.map_map]
  rfl

/-- The label at a position is shown: it is visible, and the grid reaches that far. -/
def Shows (columns : Columns) (labels : List Label) (position : Nat) : Prop :=
  position < columns.count * columns.rows (visible labels) ∧
    ∃ l, labels[position]? = some l ∧ l.hidden = false

theorem cellAt_eq_label {place : Nat} :
    cellAt labels place = .label position ↔
      place = position ∧ ∃ l, labels[position]? = some l ∧ l.hidden = false := by
  unfold cellAt
  constructor
  · intro cell
    split at cell
    · cases cell
    · rename_i l found
      split at cell
      · cases cell
      · rename_i shown
        cases cell
        exact ⟨rfl, l, found, Bool.eq_false_iff.mpr shown⟩
  · rintro ⟨rfl, l, found, shown⟩
    rw [found]
    simp [shown]

theorem shows_iff :
    columns.Shows labels position ↔ ∃ row ∈ columns.grid labels, .label position ∈ row := by
  have places : (∃ row ∈ columns.grid labels, .label position ∈ row) ↔
      ∃ row < columns.rows (visible labels), ∃ column < columns.count,
        column * columns.rows (visible labels) + row = position ∧
          ∃ l, labels[position]? = some l ∧ l.hidden = false := by
    simp [grid_eq, cellAt_eq_label]
  rw [places]
  constructor
  · rintro ⟨inside, shown⟩
    have rows : 0 < columns.rows (visible labels) :=
      Nat.pos_of_ne_zero fun none => by simp [none] at inside
    refine ⟨position % columns.rows (visible labels), Nat.mod_lt _ rows,
      position / columns.rows (visible labels), Nat.div_lt_of_lt_mul ?_, ?_, shown⟩
    · rwa [Nat.mul_comm]
    · rw [Nat.mul_comm]
      exact Nat.div_add_mod ..
  · rintro ⟨row, within, column, across, rfl, shown⟩
    refine ⟨?_, shown⟩
    calc column * columns.rows (visible labels) + row
        < column * columns.rows (visible labels) + columns.rows (visible labels) :=
          Nat.add_lt_add_left within _
      _ = (column + 1) * columns.rows (visible labels) := (Nat.succ_mul _ _).symm
      _ ≤ columns.count * columns.rows (visible labels) := Nat.mul_le_mul_right _ across

theorem showCell_error_iff {cell : Cell} :
    (∃ halt, columns.showCell labels.toArray cell = .error halt) ↔
      maxField < columns.width ∧ ∃ position l, cell = .label position ∧
        labels[position]? = some l := by
  unfold showCell field
  cases cell with
  | hidden => simp
  | exhausted => simp
  | label position =>
    simp only [List.getElem?_toArray]
    cases found : labels[position]? with
    | none => simp [found]
    | some l =>
      by_cases wide : columns.width ≤ maxField
      · simp [wide, Nat.not_lt.mpr wide]
      · simp [found, wide, Nat.lt_of_not_le wide]

/-- A row of a listing, as it is printed. -/
def showRow (columns : Columns) (labels : List Label) (row : List Cell) : Except Halt String :=
  (row.mapM (columns.showCell labels.toArray)).map fun cells => "\r\n" ++ String.join cells

theorem render_eq (columns : Columns) (labels : List Label) :
    columns.render labels =
      ((columns.grid labels).mapM (columns.showRow labels)).map String.join := by
  have bind_pure_map {α β : Type} (result : Except Halt α) (f : α → β) :
      (result >>= fun value => pure (f value)) = result.map f := by
    cases result <;> rfl
  simp only [render, bind_pure_map]
  rfl

theorem exists_render_error_iff :
    (∃ halt, columns.render labels = .error halt) ↔
      ∃ row ∈ columns.grid labels, ∃ cell ∈ row,
        ∃ halt, columns.showCell labels.toArray cell = .error halt := by
  simp only [render_eq, map_error_iff, mapM_error_iff, showRow]

/-- A listing cannot be printed exactly if a label is shown in fields that are too wide. -/
theorem render_error_iff :
    columns.render labels = .error .fieldTooWide ↔
      maxField < columns.width ∧ ∃ position, columns.Shows labels position := by
  have whichever : columns.render labels = .error .fieldTooWide ↔
      ∃ halt, columns.render labels = .error halt :=
    ⟨fun failed => ⟨_, failed⟩, fun ⟨halt, failed⟩ => render_error failed ▸ failed⟩
  rw [whichever, exists_render_error_iff]
  constructor
  · rintro ⟨row, placed, cell, member, failed⟩
    obtain ⟨wide, position, l, rfl, found⟩ := showCell_error_iff.mp failed
    exact ⟨wide, position, shows_iff.mpr ⟨row, placed, member⟩⟩
  · rintro ⟨wide, position, shown⟩
    obtain ⟨row, placed, member⟩ := shows_iff.mp shown
    obtain ⟨-, l, found, -⟩ := shown
    exact ⟨row, placed, _, member, showCell_error_iff.mpr ⟨wide, position, l, rfl, found⟩⟩

end Columns

/-- The listing of a table fails if one of its labels is shown in fields that are too wide. -/
theorem help_error_iff {columns : Columns} {table : Table} {missing : String} :
    help columns table missing = .error .fieldTooWide ↔
      Columns.maxField < columns.width ∧ ∃ position, columns.Shows table.labels position := by
  rw [← Columns.render_error_iff, help]
  cases columns.render table.labels with
  | error halt => exact Iff.rfl
  | ok listing => exact iff_of_false (nomatch ·) (nomatch ·)

end DeviceShell.Command
