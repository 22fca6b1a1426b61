import DeviceShell.Monitor.Frame
import DeviceShell.Proofs.Text.Printable

/-! What a terminal makes of its input. Its screen has as many lines as are written to it, and they
are as long as they have to be: nothing wraps and nothing scrolls. -/
namespace DeviceShell

/-- The sign in each row and column, the cursor, and what has come of a control sequence that has
begun. -/
structure Screen where
  cell : Nat → Nat → Char := fun _ _ => ' '
  row : Nat := 0
  column : Nat := 0
  sequence : Option (List Char) := none

namespace Screen

/-- Do what a control sequence says: empty the screen, go to the top left, or erase the rest of the
line. Others change no cell and leave the cursor where it is. -/
def obey (sequence : List Char) (s : Screen) : Screen :=
  match sequence with
  | ['[', '2', 'J'] => { s with cell := fun _ _ => ' ' }
  | ['[', '0', ';', '0', 'f'] => { s with row := 0, column := 0 }
  | ['[', '0', 'K'] =>
    { s with cell := fun r c => if r = s.row ∧ s.column ≤ c then ' ' else s.cell r c }
  | _ => s

/-- Whether a control sequence goes on after this character. -/
def continues (begun : List Char) (c : Char) : Bool :=
  if begun.isEmpty then c == '[' else 32 ≤ c.toNat && c.toNat < 64

def receive (s : Screen) (c : Char) : Screen :=
  match s.sequence with
  | some begun =>
    if continues begun c then { s with sequence := some (begun ++ [c]) }
    else { s.obey (begun ++ [c]) with sequence := none }
  | none =>
    if c = '\x1b' then { s with sequence := some [] }
    else if c = '\r' then { s with column := 0 }
    else if c = '\n' then { s with row := s.row + 1 }
    else if Text.isControl c then s
    else
      { s with
        cell := fun r k => if r = s.row ∧ k = s.column then c else s.cell r k
        column := s.column + 1 }

def display (text : String) (s : Screen) : Screen := text.toList.foldl receive s

/-- Signs in the cells from the cursor on. -/
def overwrite (cs : List Char) (s : Screen) : Screen :=
  { s with
    cell := fun r k =>
      if r = s.row ∧ s.column ≤ k then cs.getD (k - s.column) (s.cell r k) else s.cell r k
    column := s.column + cs.length }

/-- A whole line, in place of what its row held. -/
def line (text : String) (s : Screen) : Screen :=
  { s with
    cell := fun r k => if r = s.row then text.toList.getD k ' ' else s.cell r k
    row := s.row + 1
    column := 0 }

@[simp] theorem line_row (text : String) (s : Screen) : (s.line text).row = s.row + 1 := rfl

@[simp] theorem line_cell (text : String) (s : Screen) (r k : Nat) :
    (s.line text).cell r k = if r = s.row then text.toList.getD k ' ' else s.cell r k := rfl

variable {s : Screen} {text : String}

theorem display_append (first second : String) (s : Screen) :
    s.display (first ++ second) = (s.display first).display second := by
  rw [display, String.toList_append, List.foldl_append, display, display]

theorem display_clearScreen (idle : s.sequence = none) :
    s.display Escape.clearScreen = { s with cell := fun _ _ => ' ' } := by
  obtain ⟨cell, row, column, sequence⟩ := s
  cases idle
  rfl

theorem display_cursorOrigin (idle : s.sequence = none) :
    s.display Escape.cursorOrigin = { s with row := 0, column := 0 } := by
  obtain ⟨cell, row, column, sequence⟩ := s
  cases idle
  rfl

theorem display_hideCursor (idle : s.sequence = none) : s.display Escape.hideCursor = s := by
  obtain ⟨cell, row, column, sequence⟩ := s
  cases idle
  rfl

theorem display_newline (idle : s.sequence = none) :
    s.display "\r\n" = { s with row := s.row + 1, column := 0 } := by
  obtain ⟨cell, row, column, sequence⟩ := s
  cases idle
  rfl

theorem overwrite_nil (s : Screen) : s.overwrite [] = s := by
  simp [overwrite]

theorem overwrite_cons (c : Char) (cs : List Char) (s : Screen) :
    (s.overwrite [c]).overwrite cs = s.overwrite (c :: cs) := by
  simp only [overwrite, mk.injEq, List.length_cons, List.length_nil, true_and, and_true]
  refine ⟨?_, by omega⟩
  funext r k
  rcases Nat.lt_trichotomy k s.column with before | rfl | behind
  · have short : ¬ s.column ≤ k := by omega
    have shorter : ¬ s.column + (0 + 1) ≤ k := by omega
    simp only [short, shorter, and_false, if_false]
  · have shorter : ¬ s.column + (0 + 1) ≤ s.column := by omega
    simp [shorter]
  · obtain ⟨n, rfl⟩ := Nat.exists_eq_add_of_lt behind
    have step : s.column + n + 1 - s.column = n + 1 := by omega
    have back : s.column + n + 1 - (s.column + (0 + 1)) = n := by omega
    have inside : s.column ≤ s.column + n + 1 := by omega
    simp [step, back, inside]

theorem receive_sign {c : Char} (sign : Text.isControl c = false) (idle : s.sequence = none) :
    s.receive c = s.overwrite [c] := by
  have other (d : Char) (control : Text.isControl d = true) : c ≠ d := by
    rintro rfl
    exact Bool.noConfusion (sign.symm.trans control)
  simp only [receive, idle, if_neg (other '\x1b' rfl), if_neg (other '\r' rfl),
    if_neg (other '\n' rfl), sign, Bool.false_eq_true, if_false, overwrite, mk.injEq,
    List.length_singleton, and_true]
  funext r k
  rcases Nat.lt_trichotomy k s.column with before | rfl | behind
  · have other : k ≠ s.column := by omega
    have short : ¬ s.column ≤ k := by omega
    simp only [other, short, and_false, if_false]
  · simp
  · have other : k ≠ s.column := by omega
    have none : [c][k - s.column]? = none := by
      rw [List.getElem?_eq_none_iff, List.length_singleton]
      omega
    simp [other, none]

/-- Signs overwrite the cells from the cursor on. -/
theorem foldl_receive {cs : List Char} (signs : ∀ c ∈ cs, Text.isControl c = false)
    (idle : s.sequence = none) : cs.foldl receive s = s.overwrite cs := by
  induction cs generalizing s with
  | nil => exact s.overwrite_nil.symm
  | cons c cs ih =>
    obtain ⟨sign, later⟩ := List.forall_mem_cons.mp signs
    have same : (s.overwrite [c]).sequence = none := idle
    rw [List.foldl_cons, receive_sign sign idle, ih later same, overwrite_cons]

/-- A line of the monitor takes the place of what its row held. -/
theorem display_screenLine (printable : Text.Printable text) (idle : s.sequence = none) :
    s.display (Monitor.screenLine text) = s.line text := by
  have parts : (Monitor.screenLine text).toList =
      '\r' :: (text.toList ++ (Escape.clearLineEnd ++ "\r\n").toList) := by
    simp [Monitor.screenLine]
  have start : s.receive '\r' = { s with column := 0 } := by
    simp [receive, idle]
  have edge : ({ s with column := 0 } : Screen).sequence = none := idle
  have ends (t : Screen) (idle : t.sequence = none) :
      (Escape.clearLineEnd ++ "\r\n").toList.foldl receive t =
        { t with
          cell := fun r k => if r = t.row ∧ t.column ≤ k then ' ' else t.cell r k
          row := t.row + 1
          column := 0 } := by
    obtain ⟨cell, row, column, sequence⟩ := t
    cases idle
    rfl
  rw [display, parts, List.foldl_cons, start, List.foldl_append, foldl_receive printable edge]
  rw [ends (({ s with column := 0 } : Screen).overwrite text.toList) idle, line, overwrite]
  simp only [mk.injEq, and_true]
  funext r k
  by_cases here : r = s.row
  · by_cases behind : text.toList.length ≤ k
    · simp [here, behind]
    · have inside : text.toList[k]? = some _ := List.getElem?_eq_getElem (Nat.lt_of_not_le behind)
      simp [here, behind, inside]
  · simp [here]

/-- Lines in turn take the place of what the rows from the cursor on held. -/
theorem foldl_line (lines : List String) (s : Screen) :
    (lines.foldl (fun s text => s.line text) s).sequence = s.sequence ∧
      ∀ r k, (lines.foldl (fun s text => s.line text) s).cell r k =
        if s.row ≤ r then
          (lines[r - s.row]?.map fun text => text.toList.getD k ' ').getD (s.cell r k)
        else s.cell r k := by
  induction lines generalizing s with
  | nil => exact ⟨rfl, fun r k => by simp⟩
  | cons text later ih =>
    obtain ⟨same, cells⟩ := ih (s.line text)
    refine ⟨same, fun r k => ?_⟩
    rw [List.foldl_cons, cells, line_cell]
    have next : (s.line text).row = s.row + 1 := rfl
    rcases Nat.lt_trichotomy r s.row with above | rfl | below
    · rw [if_neg (by omega), if_neg (by omega), if_neg (by omega)]
    · rw [if_neg (by omega), if_pos rfl, if_pos (Nat.le_refl _), Nat.sub_self]
      rfl
    · have behind : r - s.row = r - (s.line text).row + 1 := by omega
      rw [if_pos (by omega), if_neg (by omega), if_pos (by omega), behind, List.getElem?_cons_succ]

end Screen

end DeviceShell
