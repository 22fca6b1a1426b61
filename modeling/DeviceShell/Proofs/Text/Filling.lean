import DeviceShell.Proofs.Text.Decoding

/-! A buffer for the bytes of a text, filled with one character after the other. What it holds in
the end is the longest beginning of them that it has room for. -/
namespace DeviceShell.Text

/-- A text that characters are pushed on. A push says whether the buffer took the character. -/
class Buffer (β : Type) where
  empty : β
  text : β → String
  push : Char → β → Bool × β

/-- A buffer of `room` bytes. It takes a character that there is room for, and its text stays as it
is with one that it does not take. -/
class Buffer.Lawful (β : Type) (room : outParam Nat) [Buffer β] : Prop where
  text_empty : text (Buffer.empty : β) = ""
  push_of_le (c : Char) (b : β) : (text b).utf8ByteSize + c.utf8Size ≤ room →
    ∃ b', push c b = (true, b') ∧ text b' = (text b).push c
  push_of_lt (c : Char) (b : β) : room < (text b).utf8ByteSize + c.utf8Size →
    ∃ b', push c b = (false, b') ∧ text b' = text b

namespace Buffer

variable {β : Type} [Buffer β] {room : Nat}

/-- Push characters up to the first that is not taken. -/
def fill : List Char → β → β
  | [], b => b
  | c :: cs, b => match push c b with
    | (true, b) => fill cs b
    | (false, b) => b

/-- What a buffer of some bytes keeps of a text. -/
structure Kept (β : Type) [Buffer β] (room : Nat) (source kept : String) : Prop
    extends LongestFit room source kept where
  filled : text (fill source.toList (empty : β)) = kept
  /-- It is read from as many of the text's bytes, the first ones. -/
  readable : decode? ((encode source).take kept.utf8ByteSize) = some kept
  /-- More of them cannot be read, or there is no room for them. -/
  unreadable (count : Nat) : kept.utf8ByteSize < count → count ≤ min room source.utf8ByteSize →
    decode? ((encode source).take count) = none
  /-- The text ends here, or goes on with a character that there is no room for. -/
  stops : kept = source ∨
    ∃ c rest, source.toList = kept.toList ++ c :: rest ∧ room < kept.utf8ByteSize + c.utf8Size
  whole : kept = source ↔ source.utf8ByteSize ≤ room

section Lawful

variable [Lawful β room]

/-- What the buffer holds already takes its bytes from the room for the others. -/
theorem toList_fill (cs : List Char) (b : β) :
    (text (fill cs b)).toList = (text b).toList ++ fitChars (room - (text b).utf8ByteSize) cs := by
  induction cs generalizing b with
  | nil => rw [fill, fitChars, List.append_nil]
  | cons c cs ih =>
    -- A character takes a byte at least, so none has room where no byte is left.
    have size := c.utf8Size_pos
    rcases Nat.lt_or_ge room ((text b).utf8ByteSize + c.utf8Size) with full | fits
    · obtain ⟨b', refused, same⟩ := Lawful.push_of_lt c b full
      rw [fill, refused, fitChars, if_neg (by omega), List.append_nil]
      exact congrArg String.toList same
    · obtain ⟨b', taken, pushed⟩ := Lawful.push_of_le c b fits
      rw [fill, taken, fitChars, if_pos (by omega)]
      dsimp only
      rw [ih, pushed, String.toList_push, String.utf8ByteSize_push, Nat.sub_sub, List.append_assoc,
        List.singleton_append]

theorem text_fill_empty (source : String) :
    text (fill source.toList (empty : β)) = fit room source := by
  rw [← String.toList_inj, toList_fill, toList_fit, Lawful.text_empty]
  rfl

theorem kept_fit (source : String) : Kept β room source (fit room source) where
  toLongestFit := longestFit_fit room source
  filled := text_fill_empty source
  readable := by
    rw [take_encode (longestFit_fit room source).begins]
    exact decode?_encode _
  unreadable count more fits := by
    apply Option.eq_none_iff_forall_ne_some.mpr
    intro part decoded
    -- What could be read would be a longer beginning that there is room for.
    obtain ⟨begins, size⟩ := decode?_take_eq_some_iff.mp decoded
    have longer := utf8ByteSize_le ((longestFit_fit room source).longest part begins (by omega))
    omega
  stops := by
    rcases Nat.lt_or_ge room source.utf8ByteSize with long | fits
    · exact .inr (exists_cut long)
    · exact .inl (fit_of_le fits)
  whole := fit_eq_self_iff

end Lawful

end Buffer

section Bounded

variable {limit : Nat}

instance : Buffer (Bounded limit) where
  empty := ⟨"", Nat.zero_le limit⟩
  text := Bounded.text
  push c b := match Bounded.ofString? limit (b.text.push c) with
    | some b' => (true, b')
    | none => (false, b)

instance : Buffer.Lawful (Bounded limit) limit where
  text_empty := rfl
  push_of_le c b fits := by
    have room : (b.text.push c).utf8ByteSize ≤ limit := by rwa [String.utf8ByteSize_push]
    refine ⟨⟨b.text.push c, room⟩, ?_, rfl⟩
    simp only [Buffer.push, Bounded.ofString?, dif_pos room]
  push_of_lt c b full := by
    have long : ¬ (b.text.push c).utf8ByteSize ≤ limit := by
      rw [String.utf8ByteSize_push]
      exact Nat.not_le.mpr full
    refine ⟨b, ?_, rfl⟩
    simp only [Buffer.push, Bounded.ofString?, dif_neg long]

end Bounded

end DeviceShell.Text
