/-! Console and log traffic is bytes; text is carried as its UTF-8 encoding. -/

namespace DeviceShell

abbrev Bytes := List UInt8

namespace Text

/-- The UTF-8 encoding of a text. -/
def encode (text : String) : Bytes := text.toUTF8.data.toList

/-- The text that a run of bytes encodes, if it is well-formed UTF-8: no stray or missing
continuation byte, no overlong form, no surrogate, nothing beyond the last code point. -/
def decode? (bytes : Bytes) : Option String := String.fromUTF8? ⟨bytes.toArray⟩

theorem encode_append (first second : String) :
    encode (first ++ second) = encode first ++ encode second := by
  simp [encode]

theorem decode?_encode (text : String) : decode? (encode text) = some text := by
  have same : (⟨(encode text).toArray⟩ : ByteArray) = text.toUTF8 := by simp [encode]
  have valid : text.toUTF8.IsValidUTF8 := text.isValidUTF8
  rw [decode?, same, String.fromUTF8?, dif_pos valid]
  rfl

theorem eq_encode_of_decode? {bytes : Bytes} {text : String} (read : decode? bytes = some text) :
    bytes = encode text := by
  unfold decode? String.fromUTF8? at read
  split at read
  · rw [← Option.some.inj read]
    rfl
  · cases read

theorem encode_inj {first second : String} (same : encode first = encode second) :
    first = second := by
  have read := decode?_encode first
  rw [same, decode?_encode second] at read
  exact (Option.some.inj read).symm

@[simp] theorem length_encode (text : String) : (encode text).length = text.utf8ByteSize := by
  simp [encode]

end Text

end DeviceShell
