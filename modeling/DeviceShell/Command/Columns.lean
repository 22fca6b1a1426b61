import DeviceShell.Failure
import DeviceShell.Text.Align

/-! The listing of labels in columns, as `help` shows it. Columns are read downwards, each from a
start of its own, and hidden labels take up places without being shown. -/

namespace DeviceShell.Command

structure Label where
  text : String
  hidden : Bool := false
  deriving DecidableEq, Repr

/-- What is found in one place of the grid. -/
inductive Cell where
  /-- The visible label at a position in the list. -/
  | label (position : Nat)
  | hidden
  /-- The column is past the end of the list. -/
  | exhausted
  deriving DecidableEq, Repr

/-- A number of columns, and the characters that each is wide. -/
structure Columns where
  count : Nat
  width : Nat
  deriving DecidableEq, Repr

namespace Columns

def maxCount : Nat := 8

def maxField : Nat := 65535

def ofCount (asked width : Nat) : Columns := ⟨max 1 (min asked maxCount), width⟩

/-- Rows for a number of visible labels: the full rows, and one for each label left over. -/
def rows (c : Columns) (visible : Nat) : Nat := visible / c.count + visible % c.count

def visible (labels : List Label) : Nat := labels.countP fun l => !l.hidden

/-- Where in the list each column starts; hidden labels count. -/
def starts (c : Columns) (labels : List Label) : List Nat :=
  (List.range c.count).map fun column => column * c.rows (visible labels)

/-- What a cursor points at, and the cursor after it. It stops at the end of the list. -/
def look (labels : Array Label) (cursor : Nat) : Cell × Nat :=
  match labels[cursor]? with
  | none => (.exhausted, cursor)
  | some l => (if l.hidden then .hidden else .label cursor, cursor + 1)

/-- Rows of cells, with one cursor for each column moving down. -/
def walk (labels : Array Label) : Nat → List Nat → List (List Cell)
  | 0, _ => []
  | rows + 1, cursors =>
    let seen := cursors.map (look labels)
    seen.map (·.1) :: walk labels rows (seen.map (·.2))

def grid (c : Columns) (labels : List Label) : List (List Cell) :=
  walk labels.toArray (c.rows (visible labels)) (c.starts labels)

/-- A label in its field. Only a label that is shown needs a field. -/
def field (c : Columns) (text : String) : Except Halt String :=
  if c.width ≤ maxField then .ok (Text.alignLeft c.width text) else .error .fieldTooWide

def showCell (c : Columns) (labels : Array Label) : Cell → Except Halt String
  | .label position =>
    match labels[position]? with
    | some l => c.field l.text
    | none => .ok ""
  | .hidden | .exhausted => .ok ""

def render (c : Columns) (labels : List Label) : Except Halt String := do
  let places := labels.toArray
  let lines ← (c.grid labels).mapM fun row => do
    let cells ← row.mapM (c.showCell places)
    return "\r\n" ++ String.join cells
  return String.join lines

end Columns

end DeviceShell.Command
