/-! Setting text in a field of a given width. Widths count characters, and a field cuts its text
only where it is told to. -/

namespace DeviceShell.Text

def repeated (count : Nat) (c : Char) : String := String.ofList (List.replicate count c)

def cut (count : Nat) (text : String) : String := String.ofList (text.toList.take count)

/-- Where a text stands in a field that is wider. -/
inductive Placement where
  | left
  | center
  | right
  deriving DecidableEq, Repr

/-- How a text is set: where it stands in a field of what width, what fills the rest, and how many
of its characters are kept at most, if there is a limit. -/
structure Field where
  place : Placement := .left
  width : Nat := 0
  fill : Char := ' '
  limit : Option Nat := none
  deriving DecidableEq, Repr

/-- What is kept of a text. -/
def Field.kept (field : Field) (text : String) : String :=
  match field.limit with
  | some count => cut count text
  | none => text

/-- Set a text in a field. Around a text in the middle an odd space goes to the right. -/
def Field.set (field : Field) (text : String) : String :=
  let space := field.width - (field.kept text).length
  match field.place with
  | .left => field.kept text ++ repeated space field.fill
  | .center =>
    repeated (space / 2) field.fill ++ field.kept text ++ repeated (space - space / 2) field.fill
  | .right => repeated space field.fill ++ field.kept text

def alignLeft (width : Nat) (text : String) : String := { width := width : Field }.set text

def alignRight (width : Nat) (text : String) : String :=
  { place := .right, width := width : Field }.set text

theorem alignLeft_eq (width : Nat) (text : String) :
    alignLeft width text = text ++ repeated (width - text.length) ' ' := rfl

theorem alignRight_eq (width : Nat) (text : String) :
    alignRight width text = repeated (width - text.length) ' ' ++ text := rfl

theorem length_repeated (count : Nat) (c : Char) : (repeated count c).length = count := by
  rw [repeated, String.length_ofList, List.length_replicate]

/-- A field is as wide as asked for, or as what is kept of its text if that is wider. -/
theorem Field.length_set (field : Field) (text : String) :
    (field.set text).length = max field.width (field.kept text).length := by
  unfold set
  dsimp only
  split <;> simp only [String.length_append, length_repeated] <;> omega

theorem Field.isInfix_set (field : Field) (text : String) :
    (field.kept text).toList <:+: (field.set text).toList := by
  unfold set
  dsimp only
  split <;> simp only [String.toList_append]
  · exact (List.prefix_append _ _).isInfix
  · exact List.infix_append _ _ _
  · exact (List.suffix_append _ _).isInfix

/-- Without a limit nothing of a text is left out. -/
theorem Field.whole_set {field : Field} (whole : field.limit = none) (text : String) :
    (field.set text).length = max field.width text.length ∧
      text.toList <:+: (field.set text).toList := by
  have kept : field.kept text = text := by rw [Field.kept, whole]
  have length := field.length_set text
  have inside := field.isInfix_set text
  rw [kept] at length inside
  exact ⟨length, inside⟩

theorem length_alignLeft (width : Nat) (text : String) :
    (alignLeft width text).length = max width text.length := Field.length_set _ text

theorem length_alignRight (width : Nat) (text : String) :
    (alignRight width text).length = max width text.length := Field.length_set _ text

end DeviceShell.Text
