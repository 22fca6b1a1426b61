/-! Cutting text to a number of UTF-8 bytes without splitting a character. -/

namespace DeviceShell.Text

/-- Keep characters from the front until one does not fit in `room` bytes. -/
def fitChars (room : Nat) : List Char → List Char
  | [] => []
  | c :: cs => if c.utf8Size ≤ room then c :: fitChars (room - c.utf8Size) cs else []

/-- The longest whole-character beginning of a text that takes at most `room` bytes. No character
takes less than one byte, so the first `room` of them are enough to look at. -/
def fit (room : Nat) (text : String) : String :=
  if text.utf8ByteSize ≤ room then text
  else String.ofList (fitChars room (text.take room).copy.toList)

/-- Join pieces in `room` bytes. A piece is cut at its first character that does not fit; the
room left over is still offered to the pieces after it. -/
def fitPieces (room : Nat) : List String → String
  | [] => ""
  | piece :: rest =>
    let kept := fit room piece
    kept ++ fitPieces (room - kept.utf8ByteSize) rest

/-- Join pieces in `room` bytes, up to the first that does not fit as it is. -/
def joinWhole (room : Nat) : List String → String
  | [] => ""
  | piece :: rest =>
    if piece.utf8ByteSize ≤ room then piece ++ joinWhole (room - piece.utf8ByteSize) rest else ""

theorem joinWhole_of_fits {room : Nat} {pieces : List String}
    (h : (String.join pieces).utf8ByteSize ≤ room) :
    joinWhole room pieces = String.join pieces := by
  induction pieces generalizing room with
  | nil => rfl
  | cons piece rest ih =>
    rw [String.join_cons, String.utf8ByteSize_append] at h
    rw [joinWhole, if_pos (by omega), ih (by omega), String.join_cons]

theorem fitChars_isPrefix (room : Nat) (cs : List Char) : fitChars room cs <+: cs := by
  induction cs generalizing room with
  | nil => exact List.nil_prefix
  | cons c cs ih =>
    rw [fitChars]
    split
    · exact (List.prefix_cons_inj c).mpr (ih _)
    · exact List.nil_prefix

/-- What lies beyond the first `room` characters has no say. -/
theorem fitChars_take {count room : Nat} (h : room ≤ count) (cs : List Char) :
    fitChars room (cs.take count) = fitChars room cs := by
  induction cs generalizing count room with
  | nil => rw [List.take_nil]
  | cons c cs ih =>
    have size := c.utf8Size_pos
    by_cases fits : c.utf8Size ≤ room
    · obtain ⟨n, rfl⟩ : ∃ n, count = n + 1 := ⟨count - 1, by omega⟩
      rw [List.take_succ_cons, fitChars, fitChars, if_pos fits, if_pos fits, ih (by omega)]
    · cases count with
      | zero => rw [List.take_zero, fitChars, fitChars, if_neg fits]
      | succ n => rw [List.take_succ_cons, fitChars, fitChars, if_neg fits, if_neg fits]

theorem fitChars_of_fits {room : Nat} {cs : List Char}
    (h : (String.ofList cs).utf8ByteSize ≤ room) : fitChars room cs = cs := by
  induction cs generalizing room with
  | nil => rfl
  | cons c cs ih =>
    rw [String.ofList_cons, String.utf8ByteSize_append, String.utf8ByteSize_singleton] at h
    rw [fitChars, if_pos (by omega), ih (by omega)]

@[simp] theorem toList_fit (room : Nat) (text : String) :
    (fit room text).toList = fitChars room text.toList := by
  rw [fit]
  split
  · rename_i fits
    rw [fitChars_of_fits (by rwa [String.ofList_toList])]
  · rw [String.toList_ofList, String.toList_copy_take, fitChars_take (Nat.le_refl room)]

structure Bounded (limit : Nat) where
  text : String
  fits : text.utf8ByteSize ≤ limit

/-- Accept a text only if it fits as it is. -/
def Bounded.ofString? (limit : Nat) (text : String) : Option (Bounded limit) :=
  if h : text.utf8ByteSize ≤ limit then some ⟨text, h⟩ else none

end DeviceShell.Text
