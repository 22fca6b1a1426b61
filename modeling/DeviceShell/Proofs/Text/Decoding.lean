import DeviceShell.Proofs.Text.Fitting
import DeviceShell.Proofs.Text.Printable
import DeviceShell.Text.Bytes

/-! The bytes of a text, one character after the other, and what can still be read of them when they
are cut off. -/
namespace DeviceShell.Text

variable {text first : String}

theorem encode_eq_flatMap (text : String) :
    encode text = text.toList.flatMap String.utf8EncodeChar := by
  rw [encode, String.toUTF8_eq_toByteArray, ← String.utf8Encode_toList, List.utf8Encode]
  simp

/-- What spells a character that is no control is no control byte. -/
theorem plain_of_mem_utf8EncodeChar {c : Char} {b : UInt8} (sign : isControl c = false)
    (member : b ∈ String.utf8EncodeChar c) : 0x20 ≤ b ∧ b ≠ 0x7F := by
  have plain (n : Nat) (small : n < 256) (visible : 32 ≤ n) (other : n ≠ 127) :
      0x20 ≤ UInt8.ofNat n ∧ UInt8.ofNat n ≠ 0x7F := by
    have value : (UInt8.ofNat n).toNat = n := UInt8.toNat_ofNat_of_lt' small
    refine ⟨UInt8.le_iff_toNat_le.mpr (by rw [value]; exact visible), fun same => other ?_⟩
    rw [← value, same]
    rfl
  simp only [isControl, Bool.or_eq_false_iff, Bool.and_eq_false_iff, decide_eq_false_iff_not] at sign
  change ¬ c.val.toNat < 32 ∧ (¬ 127 ≤ c.val.toNat ∨ ¬ c.val.toNat < 160) at sign
  rw [String.utf8EncodeChar.eq_1] at member
  split at member
  · rw [List.mem_singleton] at member
    exact member ▸ plain _ (by omega) (by omega) (by omega)
  · -- Every byte of a longer spelling is 128 or more.
    have wide (n : Nat) (small : n < 256) (large : 128 ≤ n) := plain n small (by omega) (by omega)
    split at member
    · simp only [List.mem_cons, List.not_mem_nil, or_false] at member
      rcases member with rfl | rfl <;> exact wide _ (by omega) (by omega)
    · split at member
      · simp only [List.mem_cons, List.not_mem_nil, or_false] at member
        rcases member with rfl | rfl | rfl <;> exact wide _ (by omega) (by omega)
      · simp only [List.mem_cons, List.not_mem_nil, or_false] at member
        rcases member with rfl | rfl | rfl | rfl <;> exact wide _ (by omega) (by omega)

theorem plain_of_mem_encode (printable : Printable text) :
    ∀ b ∈ encode text, 0x20 ≤ b ∧ b ≠ 0x7F := by
  intro b member
  rw [encode_eq_flatMap] at member
  obtain ⟨c, inside, member⟩ := List.mem_flatMap.mp member
  exact plain_of_mem_utf8EncodeChar (printable c inside) member

/-- A text whose bytes begin another text's bytes begins that text. -/
theorem isPrefix_of_encode (begins : encode first <+: encode text) :
    first.toList <+: text.toList := by
  obtain ⟨rest, whole⟩ := begins
  refine List.isPrefix_of_utf8Encode_append_eq_utf8Encode ⟨rest.toArray⟩ (ByteArray.ext ?_)
  simpa [encode, ← Array.toList_inj] using whole

/-- A beginning of a text is spelled by as many of the text's first bytes. -/
theorem take_encode (begins : first.toList <+: text.toList) :
    (encode text).take first.utf8ByteSize = encode first := by
  obtain ⟨rest, rfl⟩ := exists_eq_append begins
  rw [encode_append, List.take_left' (length_encode first)]

/-- What can be read of the first bytes of a text begins the text, and takes all of these bytes. -/
theorem decode?_take_eq_some_iff {count : Nat} :
    decode? ((encode text).take count) = some first ↔
      first.toList <+: text.toList ∧ first.utf8ByteSize = min count text.utf8ByteSize := by
  constructor
  · intro decoded
    have cut := eq_encode_of_decode? decoded
    refine ⟨isPrefix_of_encode (cut ▸ List.take_prefix count _), ?_⟩
    rw [← length_encode, ← cut, List.length_take, length_encode]
  · rintro ⟨begins, size⟩
    have cut : (encode text).take count = encode first := by
      rw [← take_encode begins, List.take_eq_take_iff, length_encode, size]
      omega
    rw [cut, decode?_encode]

/-- The first bytes of a text can be read exactly if they end with a character. -/
theorem decode?_take_encode (room : Nat) (text : String) :
    decode? ((encode text).take room) =
      if (fit room text).utf8ByteSize = min room text.utf8ByteSize then some (fit room text)
      else none := by
  have longest := longestFit_fit room text
  split
  · rename_i even
    exact decode?_take_eq_some_iff.mpr ⟨longest.begins, even⟩
  · rename_i odd
    refine Option.eq_none_iff_forall_ne_some.mpr fun read decoded => odd ?_
    obtain ⟨begins, size⟩ := decode?_take_eq_some_iff.mp decoded
    have kept := utf8ByteSize_le (longest.longest read begins (by omega))
    have within := longest.fits
    have inside := utf8ByteSize_le longest.begins
    omega

end DeviceShell.Text
