import DeviceShell.Proofs.Command.Grid
import Mathlib.Data.List.Nodup
import Mathlib.Data.List.ProdSigma

/-! The places of a listing, as they are visited: row by row, each of them once. A label is printed
once if the places come down to it, and otherwise not at all. -/
namespace DeviceShell.Command

theorem mapM_ok {ε α β : Type} {f : α → Except ε β} {g : α → β} {items : List α}
    (all : ∀ item ∈ items, f item = .ok (g item)) : items.mapM f = .ok (items.map g) := by
  induction items with
  | nil => rfl
  | cons item later ih =>
    obtain ⟨first, rest⟩ := List.forall_mem_cons.mp all
    rw [List.mapM_cons, first, ih rest]
    rfl

theorem zipIdx_map_range {α : Type} (f : Nat → α) (count : Nat) :
    ((List.range count).map f).zipIdx = (List.range count).map fun i => (f i, i) := by
  refine List.ext_getElem (by simp) fun i _ _ => ?_
  simp

namespace Columns

variable {columns : Columns} {labels : List Label} {position : Nat}

/-- The cells in the order in which they are visited, each behind its row and its column. -/
def layout (columns : Columns) (labels : List Label) : List ((Nat × Nat) × Cell) :=
  (columns.grid labels).zipIdx.flatMap fun row =>
    row.1.zipIdx.map fun cell => ((row.2, cell.2), cell.1)

/-- A visible label in its field, and nothing for any other cell. -/
def shown (columns : Columns) (labels : List Label) : Cell → String
  | .label position => (labels[position]?).elim "" fun l => Text.alignLeft columns.width l.text
  | .hidden | .exhausted => ""

/-- What is printed at a place. The first one of a row starts a line. -/
def print (columns : Columns) (labels : List Label) (place : (Nat × Nat) × Cell) : String :=
  (if place.1.2 = 0 then "\r\n" else "") ++ columns.shown labels place.2

theorem layout_eq (columns : Columns) (labels : List Label) :
    columns.layout labels =
      (List.range (columns.rows (visible labels))).flatMap fun row =>
        (List.range columns.count).map fun column =>
          ((row, column), cellAt labels (column * columns.rows (visible labels) + row)) := by
  rw [layout, grid_eq, zipIdx_map_range, List.flatMap_map]
  simp only [zipIdx_map_range, List.map_map]
  rfl

theorem map_layout (columns : Columns) (labels : List Label) :
    (columns.layout labels).map (·.2) = (columns.grid labels).flatten := by
  rw [layout_eq, grid_eq, List.map_flatMap, List.flatMap_def]
  simp only [List.map_map]
  rfl

/-- The rows and columns visited are all there are, each pair of them once. -/
theorem layout_eq_product (columns : Columns) (labels : List Label) :
    let rows := columns.rows (visible labels)
    columns.layout labels = (List.range rows ×ˢ List.range columns.count).map fun place =>
      (place, cellAt labels (place.2 * rows + place.1)) := by
  rw [layout_eq]
  refine Eq.trans ?_ List.map_flatMap.symm
  simp only [List.map_map]
  rfl

/-- A position is that of one row and one column. -/
theorem column_mul_add_row_eq_iff {rows row column : Nat} (within : row < rows) :
    column * rows + row = position ↔ (row, column) = (position % rows, position / rows) := by
  calc column * rows + row = position
      ↔ row + rows * column = position ∧ row < rows := by
        rw [and_iff_left within, Nat.add_comm, Nat.mul_comm]
    _ ↔ position / rows = column ∧ position % rows = row :=
        (Nat.div_mod_unique (Nat.zero_lt_of_lt within)).symm
    _ ↔ (row, column) = (position % rows, position / rows) := by
        rw [Prod.mk.injEq, and_comm, eq_comm, @eq_comm _ (position / rows)]

/-- A label is met in one place, that of its row and its column. -/
theorem count_label_of_shows (shows : columns.Shows labels position) :
    ((columns.layout labels).map (·.2)).count (.label position) = 1 := by
  obtain ⟨inside, visible⟩ := shows
  rw [layout_eq_product]
  generalize columns.rows (Columns.visible labels) = rows at inside ⊢
  have some_row : 0 < rows := Nat.pos_of_ne_zero fun none => by simp [none] at inside
  have once : (List.range rows ×ˢ List.range columns.count).count
      (position % rows, position / rows) = 1 := by
    refine List.count_eq_one_of_mem (List.nodup_range.product List.nodup_range)
      (List.mem_product.mpr ⟨?_, ?_⟩)
    · exact List.mem_range.mpr (Nat.mod_lt _ some_row)
    · exact List.mem_range.mpr (Nat.div_lt_of_lt_mul (by rwa [Nat.mul_comm]))
  rw [List.map_map, List.count_eq_countP, List.countP_map, ← once, List.count_eq_countP]
  refine List.countP_congr fun place member => ?_
  obtain ⟨row, column⟩ := place
  have within := List.mem_range.mp (List.mem_product.mp member).1
  simp only [Function.comp_apply, beq_iff_eq, cellAt_eq_label, visible, and_true,
    column_mul_add_row_eq_iff within]

theorem count_label_of_not_shows (hides : ¬ columns.Shows labels position) :
    ((columns.layout labels).map (·.2)).count (.label position) = 0 := by
  rw [map_layout, List.count_eq_zero]
  exact fun member => hides (shows_iff.mpr (List.mem_flatten.mp member))

/-- With no label hidden, the places come down to the last one. -/
theorem length_le_of_visible (some_column : 0 < columns.count)
    (visible : ∀ l ∈ labels, l.hidden = false) :
    labels.length ≤ columns.count * columns.rows (Columns.visible labels) := by
  have all : Columns.visible labels = labels.length :=
    List.countP_eq_length.mpr fun l member => by simp [visible l member]
  rw [all, rows, Nat.mul_add]
  have whole := Nat.div_add_mod labels.length columns.count
  have rest := Nat.le_mul_of_pos_left (labels.length % columns.count) some_column
  omega

theorem join_flatMap {α : Type} (items : List α) (f : α → List String) :
    String.join (items.flatMap f) = String.join (items.map fun item => String.join (f item)) := by
  induction items with
  | nil => rfl
  | cons item later ih =>
    rw [List.flatMap_cons, String.join_append, ih, List.map_cons, String.join_cons]

/-- The places of a row start a line and show their labels one behind the other. -/
theorem join_print (some_column : 0 < columns.count) (labels : List Label) :
    String.join ((columns.layout labels).map (columns.print labels)) =
      String.join ((columns.grid labels).map fun row =>
        "\r\n" ++ String.join (row.map (columns.shown labels))) := by
  obtain ⟨further, count⟩ := Nat.exists_eq_add_one.mpr some_column
  rw [layout_eq, grid_eq, List.map_flatMap, join_flatMap, List.map_map]
  refine congrArg String.join (List.map_congr_left fun row _ => ?_)
  rw [Function.comp_apply, List.map_map, List.map_map, count, List.range_succ_eq_map, List.map_cons,
    List.map_cons, List.map_map, List.map_map, String.join_cons, String.join_cons,
    ← String.append_assoc]
  -- The lead of the first place is that of the row, and no other place has one.
  refine congrArg _ (congrArg String.join (List.map_congr_left fun column _ => ?_))
  exact String.empty_append

/-- A listing whose fields are not too wide, or that has no label to show, is printed. -/
theorem render_ok (some_column : 0 < columns.count)
    (fits : columns.width ≤ maxField ∨ ∀ position, ¬ columns.Shows labels position) :
    columns.render labels =
      .ok (String.join ((columns.layout labels).map (columns.print labels))) := by
  have cells : ∀ row ∈ columns.grid labels, ∀ cell ∈ row,
      columns.showCell labels.toArray cell = .ok (columns.shown labels cell) := by
    intro row placed cell member
    cases cell with
    | hidden => rfl
    | exhausted => rfl
    | label position =>
      have shows := shows_iff.mpr ⟨row, placed, member⟩
      have narrow := fits.resolve_right fun none => none position shows
      obtain ⟨-, l, found, -⟩ := shows
      simp [showCell, shown, field, found, narrow]
  have rows : ∀ row ∈ columns.grid labels, columns.showRow labels row =
      .ok ("\r\n" ++ String.join (row.map (columns.shown labels))) := by
    intro row placed
    rw [showRow, mapM_ok (cells row placed)]
    rfl
  rw [render_eq, mapM_ok rows, join_print some_column]
  rfl

/-- What a listing comes to in a number of columns and rows. -/
structure Listed (columns : Columns) (count rows : Nat) (labels : List Label) : Prop where
  /-- Each place is visited once, and holds what the list has at its position. -/
  places : columns.layout labels =
    (List.range rows).flatMap fun row => (List.range count).map fun column =>
      ((row, column), cellAt labels (column * rows + row))
  /-- A visible label within the places is in one of them. -/
  once (position : Nat) (l : Label) : labels[position]? = some l → l.hidden = false →
    position < count * rows → ((columns.layout labels).map (·.2)).count (.label position) = 1
  /-- No other label is in any. -/
  never (position : Nat) :
    (∀ l, labels[position]? = some l → l.hidden = false → count * rows ≤ position) →
    ((columns.layout labels).map (·.2)).count (.label position) = 0
  whole : (∀ l ∈ labels, l.hidden = false) → ∀ position < labels.length,
    ((columns.layout labels).map (·.2)).count (.label position) = 1
  /-- What is printed are the labels of the places, each in its field. -/
  printed : columns.width ≤ 65535 ∨ (∀ position, ¬ columns.Shows labels position) →
    columns.render labels = .ok (String.join ((columns.layout labels).map (columns.print labels)))
  tooWide : 65535 < columns.width → (∃ position, columns.Shows labels position) →
    columns.render labels = .error .fieldTooWide

/-- For any list of labels and any number of columns asked for. -/
theorem listed_ofCount (asked width : Nat) (labels : List Label) :
    let count := max 1 (min asked 8)
    let visible := labels.countP fun l => !l.hidden
    (ofCount asked width).Listed count (visible / count + visible % count) labels := by
  intro count visible
  have some_column : 0 < (ofCount asked width).count := Nat.le_max_left 1 _
  exact {
    places := layout_eq _ labels
    once := fun position l found shown inside => count_label_of_shows ⟨inside, l, found, shown⟩
    never := fun position outside => count_label_of_not_shows fun ⟨inside, l, found, shown⟩ =>
      absurd inside (Nat.not_lt.mpr (outside l found shown))
    whole := fun all position within =>
      count_label_of_shows ⟨Nat.lt_of_lt_of_le within (length_le_of_visible some_column all),
        labels[position], List.getElem?_eq_getElem within, all _ (List.getElem_mem within)⟩
    printed := render_ok some_column
    tooWide := fun wide shows => render_error_iff.mpr ⟨wide, shows⟩ }

/-- A label that is visited, in a field that is too wide to be printed. -/
theorem not_printed_wide :
    let columns := ofCount 1 65536
    let labels : List Label := [⟨"x", false⟩]
    columns.layout labels = [((0, 0), .label 0)] ∧ columns.Shows labels 0 ∧
      columns.render labels = .error .fieldTooWide := by
  intro columns labels
  have shows : columns.Shows labels 0 := ⟨by decide, ⟨"x", false⟩, rfl, rfl⟩
  exact ⟨by decide, shows, render_error_iff.mpr ⟨by decide, 0, shows⟩⟩

end Columns

end DeviceShell.Command
