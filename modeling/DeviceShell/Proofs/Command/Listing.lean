import DeviceShell.Command.Answers

/-! When the listing of commands cannot be printed. -/
namespace DeviceShell.Command

theorem mapM_error {ε α β : Type} {f : α → Except ε β} {items : List α} {error : ε}
    (failed : items.mapM f = .error error) : ∃ item ∈ items, f item = .error error := by
  induction items with
  | nil => cases failed
  | cons item later ih =>
    rw [List.mapM_cons] at failed
    cases first : f item with
    | error e =>
      rw [first] at failed
      cases failed
      exact ⟨item, List.mem_cons_self, first⟩
    | ok value =>
      cases rest : later.mapM f with
      | error e =>
        simp only [first, rest] at failed
        cases failed
        obtain ⟨other, member, eq⟩ := ih rest
        exact ⟨other, List.mem_cons_of_mem _ member, eq⟩
      | ok values =>
        simp only [first, rest] at failed
        cases failed

theorem Columns.showCell_error {columns : Columns} {labels : Array Label} {cell : Cell} {halt : Halt}
    (failed : columns.showCell labels cell = .error halt) : halt = .fieldTooWide := by
  unfold showCell field at failed
  split at failed
  · split at failed
    · split at failed
      · cases failed
      · cases failed
        rfl
    · cases failed
  · cases failed
  · cases failed

theorem Columns.render_error {columns : Columns} {labels : List Label} {halt : Halt}
    (failed : columns.render labels = .error halt) : halt = .fieldTooWide := by
  unfold render at failed
  cases lines : ((columns.grid labels).mapM fun row => do
      let cells ← row.mapM (columns.showCell labels.toArray)
      return "\r\n" ++ String.join cells : Except Halt (List String)) with
  | ok texts =>
    simp only [lines] at failed
    cases failed
  | error e =>
    simp only [lines] at failed
    cases failed
    obtain ⟨row, -, failed⟩ := mapM_error lines
    cases cells : row.mapM (columns.showCell labels.toArray) with
    | ok texts =>
      simp only [cells] at failed
      cases failed
    | error e =>
      simp only [cells] at failed
      cases failed
      obtain ⟨cell, -, failed⟩ := mapM_error cells
      exact showCell_error failed

/-- The listing is too wide to be printed, whatever name it is printed for, or else it never is. -/
theorem help_cases (columns : Columns) (table : Table) :
    (∀ missing, help columns table missing = .error .fieldTooWide) ∨
      ∀ missing, ∃ text, help columns table missing = .ok text := by
  unfold help
  cases listing : columns.render table.labels with
  | error halt =>
    cases Columns.render_error listing
    exact .inl fun missing => rfl
  | ok text => exact .inr fun missing => ⟨_, rfl⟩

end DeviceShell.Command
