import DeviceShell.Proofs.Input.Overlong

/-! Keys that take back what has been typed. Such a key takes a byte off the line, which is the last
character only if that character has one byte. The line agrees again with what its writer sees when
all of it has been erased. -/
namespace DeviceShell.Input

/-- The keys that erase. -/
inductive Eraser where
  | backspace
  | delete
  deriving DecidableEq, Repr

/-- A key of the writer. -/
inductive Stroke where
  | letter (c : Char)
  | erase (key : Eraser)
  deriving DecidableEq, Repr

namespace Stroke

def bytes : Stroke → Bytes
  | .letter c => Text.encode (String.singleton c)
  | .erase .backspace => [0x08]
  | .erase .delete => [0x7F]

/-- What the writer means by a key: one more character, or one less if there is any. -/
def revise (line : List Char) : Stroke → List Char
  | .letter c => line ++ [c]
  | .erase _ => line.dropLast

def letter? : Stroke → Option Char
  | .letter c => some c
  | .erase _ => none

theorem letter?_eq_some {key : Stroke} {c : Char} : key.letter? = some c ↔ key = .letter c := by
  cases key <;> simp [letter?]

/-- What a key does to a number of bytes. -/
def resize (count : Nat) : Stroke → Nat
  | .letter c => count + c.utf8Size
  | .erase _ => count - 1

end Stroke

/-- The line as its writer sees it. -/
def revised (strokes : List Stroke) : String := String.ofList (strokes.foldl Stroke.revise [])

/-- The bytes that the line holds. -/
def held (strokes : List Stroke) : Bytes :=
  ((strokes.flatMap Stroke.bytes).filterMap keyed).foldl edit []

/-- How many bytes the line would hold if it took any number. -/
def needed (strokes : List Stroke) : Nat := strokes.foldl Stroke.resize 0

/-- The characters typed are no controls. -/
def Legible (strokes : List Stroke) : Prop := ∀ c, .letter c ∈ strokes → Text.isControl c = false

/-- The line as its writer sees it never takes more bytes than a line can hold. -/
def Fits (strokes : List Stroke) : Prop :=
  ∀ before, before <+: strokes → (revised before).utf8ByteSize ≤ lineCapacity

/-- No byte is ignored for want of room. -/
def Roomy (strokes : List Stroke) : Prop :=
  ∀ before, before <+: strokes → needed before ≤ lineCapacity

/-- Since the line held nothing, no key has met a last character of several bytes to erase. -/
def Spared (strokes : List Stroke) : Prop :=
  ∃ start, start <+: strokes ∧ held start = [] ∧
    ∀ before key after, strokes = before ++ .erase key :: after → start <+: before →
      ∀ c ∈ (revised before).toList.getLast?, c.utf8Size = 1

variable {strokes : List Stroke} {key : Eraser} {c : Char}

instance : Decidable (Legible strokes) :=
  decidable_of_iff ((strokes.filterMap Stroke.letter?).all fun c => !Text.isControl c) <| by
    simp only [Legible, List.all_eq_true, Bool.not_eq_true', List.mem_filterMap,
      Stroke.letter?_eq_some, exists_eq_right]

instance : Decidable (Fits strokes) :=
  decidable_of_iff (∀ before ∈ strokes.inits, (revised before).utf8ByteSize ≤ lineCapacity) <| by
    simp only [Fits, List.mem_inits]

instance : Decidable (Roomy strokes) :=
  decidable_of_iff (∀ before ∈ strokes.inits, needed before ≤ lineCapacity) <| by
    simp only [Roomy, List.mem_inits]

section Steps

theorem revised_snoc_letter (strokes : List Stroke) (c : Char) :
    revised (strokes ++ [.letter c]) = revised strokes ++ String.singleton c := by
  rw [revised, List.foldl_append, ← String.toList_inj]
  simp [revised, Stroke.revise]

theorem revised_snoc_erase_of_eq_empty (none : revised strokes = "") (key : Eraser) :
    revised (strokes ++ [.erase key]) = "" := by
  rw [revised, String.ofList_eq_empty_iff] at none
  rw [revised, List.foldl_append, none]
  rfl

/-- An erasing key takes back the last character, if there is one. -/
theorem revised_eq_snoc_erase (some_letter : revised strokes ≠ "") (key : Eraser) :
    ∃ c ∈ (revised strokes).toList.getLast?,
      revised strokes = revised (strokes ++ [.erase key]) ++ String.singleton c := by
  have letters : strokes.foldl Stroke.revise [] ≠ [] := fun none =>
    some_letter (by rw [revised, none])
  obtain ⟨front, c, split⟩ := (List.eq_nil_or_concat _).resolve_left letters
  rw [List.concat_eq_append] at split
  refine ⟨c, by simp [revised, split], ?_⟩
  rw [revised, revised, List.foldl_append, split, ← String.toList_inj]
  simp [Stroke.revise]

theorem needed_snoc (strokes : List Stroke) (key : Stroke) :
    needed (strokes ++ [key]) = key.resize (needed strokes) := by
  rw [needed, List.foldl_append]
  rfl

theorem length_foldl_edit_le (bytes : Bytes) {line : Bytes} (short : line.length ≤ lineCapacity) :
    (bytes.foldl edit line).length ≤ lineCapacity := by
  induction bytes generalizing line with
  | nil => exact short
  | cons b later ih =>
    refine ih ?_
    unfold edit
    split
    · rw [List.length_dropLast]
      omega
    · split
      · rw [List.length_append, List.length_singleton]
        assumption
      · exact short

theorem length_held_le (strokes : List Stroke) : (held strokes).length ≤ lineCapacity :=
  length_foldl_edit_le _ (Nat.zero_le _)

theorem held_snoc (strokes : List Stroke) (key : Stroke) :
    held (strokes ++ [key]) = (key.bytes.filterMap keyed).foldl edit (held strokes) := by
  rw [held, List.flatMap_append, List.flatMap_singleton, List.filterMap_append, List.foldl_append]
  rfl

theorem held_snoc_letter (strokes : List Stroke) (sign : Text.isControl c = false) :
    held (strokes ++ [.letter c]) =
      (held strokes ++ Text.encode (String.singleton c)).take lineCapacity := by
  have plain := Text.plain_of_mem_encode (Text.printable_singleton.mpr sign)
  rw [held_snoc, Stroke.bytes, filterMap_keyed plain, foldl_edit plain (length_held_le strokes)]

theorem held_snoc_erase (strokes : List Stroke) (key : Eraser) :
    held (strokes ++ [.erase key]) = (held strokes).dropLast := by
  rw [held_snoc]
  cases key <;> rfl

theorem Legible.front {key : Stroke} (legible : Legible (strokes ++ [key])) : Legible strokes :=
  fun c member => legible c (List.mem_append_left _ member)

theorem Legible.last (legible : Legible (strokes ++ [.letter c])) : Text.isControl c = false :=
  legible c (List.mem_append_right _ List.mem_cons_self)

theorem Fits.front {key : Stroke} (fits : Fits (strokes ++ [key])) : Fits strokes :=
  fun before begins => fits before (begins.trans (List.prefix_append _ _))

theorem Fits.whole (fits : Fits strokes) : (revised strokes).utf8ByteSize ≤ lineCapacity :=
  fits strokes (List.prefix_refl _)

theorem Roomy.front {key : Stroke} (roomy : Roomy (strokes ++ [key])) : Roomy strokes :=
  fun before begins => roomy before (begins.trans (List.prefix_append _ _))

theorem Roomy.whole (roomy : Roomy strokes) : needed strokes ≤ lineCapacity :=
  roomy strokes (List.prefix_refl _)

end Steps

section Sizes

/-- The writer takes back no fewer bytes than the line does. -/
theorem utf8ByteSize_revised_snoc_erase_le (strokes : List Stroke) (key : Eraser) :
    (revised (strokes ++ [.erase key])).utf8ByteSize ≤ (revised strokes).utf8ByteSize - 1 := by
  by_cases none : revised strokes = ""
  · rw [revised_snoc_erase_of_eq_empty none]
    exact Nat.zero_le _
  · obtain ⟨c, -, split⟩ := revised_eq_snoc_erase none key
    have size := c.utf8Size_pos
    rw [split, String.utf8ByteSize_append, String.utf8ByteSize_singleton]
    omega

theorem utf8ByteSize_revised_le_needed (strokes : List Stroke) :
    (revised strokes).utf8ByteSize ≤ needed strokes := by
  induction strokes using List.reverseRecOn with
  | nil => exact Nat.le_refl 0
  | append_singleton strokes key ih =>
    rw [needed_snoc]
    cases key with
    | letter c =>
      rw [revised_snoc_letter, String.utf8ByteSize_append, String.utf8ByteSize_singleton]
      exact Nat.add_le_add_right ih _
    | erase key =>
      exact (utf8ByteSize_revised_snoc_erase_le strokes key).trans (Nat.sub_le_sub_right ih 1)

theorem Roomy.fits (roomy : Roomy strokes) : Fits strokes := fun before begins =>
  (utf8ByteSize_revised_le_needed before).trans (roomy before begins)

theorem length_held_of_roomy (legible : Legible strokes) (roomy : Roomy strokes) :
    (held strokes).length = needed strokes := by
  induction strokes using List.reverseRecOn with
  | nil => rfl
  | append_singleton strokes key ih =>
    have before := ih legible.front roomy.front
    have room := roomy.whole
    rw [needed_snoc] at room ⊢
    cases key with
    | letter c =>
      rw [held_snoc_letter strokes legible.last, List.length_take, List.length_append,
        Text.length_encode, String.utf8ByteSize_singleton, before]
      exact Nat.min_eq_right room
    | erase key =>
      rw [held_snoc_erase, List.length_dropLast, before]
      rfl

/-- No byte is missing that the writer still sees. -/
theorem utf8ByteSize_revised_le_length_held (legible : Legible strokes) (fits : Fits strokes) :
    (revised strokes).utf8ByteSize ≤ (held strokes).length := by
  induction strokes using List.reverseRecOn with
  | nil => exact Nat.le_refl 0
  | append_singleton strokes key ih =>
    have before := ih legible.front fits.front
    cases key with
    | letter c =>
      have room := fits.whole
      rw [revised_snoc_letter, String.utf8ByteSize_append, String.utf8ByteSize_singleton] at room ⊢
      rw [held_snoc_letter strokes legible.last, List.length_take, List.length_append,
        Text.length_encode, String.utf8ByteSize_singleton]
      omega
    | erase key =>
      rw [held_snoc_erase, List.length_dropLast]
      exact (utf8ByteSize_revised_snoc_erase_le strokes key).trans (Nat.sub_le_sub_right before 1)

end Sizes

section Agreement

theorem spared_of_held_eq_nil (none : held strokes = []) : Spared strokes := by
  refine ⟨strokes, List.prefix_refl _, none, fun before key after split begins => ?_⟩
  have shorter := begins.length_le
  rw [split, List.length_append, List.length_cons] at shorter
  omega

/-- The last key of a run is the one behind the others, or one of those. -/
theorem split_snoc {last other : Stroke} {before after : List Stroke}
    (split : strokes ++ [last] = before ++ other :: after) :
    (strokes = before ∧ last = other) ∨ ∃ front, strokes = before ++ other :: front := by
  rcases List.eq_nil_or_concat after with rfl | ⟨front, final, rfl⟩
  · obtain ⟨same, key⟩ := List.append_inj' split rfl
    exact .inl ⟨same, List.singleton_inj.mp key⟩
  · rw [List.concat_eq_append, ← List.cons_append, ← List.append_assoc] at split
    exact .inr ⟨front, (List.append_inj' split rfl).1⟩

theorem Spared.snoc_letter (spared : Spared strokes) (c : Char) : Spared (strokes ++ [.letter c]) := by
  obtain ⟨start, begins, none, narrow⟩ := spared
  refine ⟨start, begins.trans (List.prefix_append _ _), none, fun before key after split => ?_⟩
  rcases split_snoc split with ⟨-, other⟩ | ⟨front, same⟩
  · cases other
  · exact narrow before key front same

theorem Spared.snoc_erase (spared : Spared strokes)
    (narrow : ∀ c ∈ (revised strokes).toList.getLast?, c.utf8Size = 1) (key : Eraser) :
    Spared (strokes ++ [.erase key]) := by
  obtain ⟨start, begins, none, earlier⟩ := spared
  refine ⟨start, begins.trans (List.prefix_append _ _), none, fun before key after split => ?_⟩
  rcases split_snoc split with ⟨rfl, -⟩ | ⟨front, same⟩
  · exact fun _ => narrow
  · exact earlier before key front same

/-- The last key has emptied the line, or nothing has gone wrong before it. -/
theorem Spared.front {last : Stroke} (spared : Spared (strokes ++ [last])) :
    held (strokes ++ [last]) = [] ∨ Spared strokes ∧
      ∀ key, last = .erase key → ∀ c ∈ (revised strokes).toList.getLast?, c.utf8Size = 1 := by
  obtain ⟨start, begins, none, narrow⟩ := spared
  rcases List.prefix_concat_iff.mp begins with rfl | inside
  · exact .inl none
  · refine .inr ⟨⟨start, inside, none, fun before key after split => ?_⟩, ?_⟩
    · exact narrow before key (after ++ [last]) (by rw [split, List.append_assoc]; rfl)
    · rintro key rfl
      exact narrow strokes key [] rfl inside

/-- A line that is spared holds what its writer sees. -/
theorem held_of_spared (legible : Legible strokes) (fits : Fits strokes) (spared : Spared strokes) :
    held strokes = Text.encode (revised strokes) := by
  induction strokes using List.reverseRecOn with
  | nil => rfl
  | append_singleton strokes key ih =>
    rcases spared.front with none | ⟨before, narrow⟩
    · -- No byte is missing, so the writer sees nothing either.
      have size := utf8ByteSize_revised_le_length_held legible fits
      rw [none] at size ⊢
      rw [String.utf8ByteSize_eq_zero_iff.mp (Nat.le_zero.mp size)]
      rfl
    · have agrees := ih legible.front fits.front before
      cases key with
      | letter c =>
        have room := fits.whole
        rw [revised_snoc_letter, ← Text.length_encode] at room
        rw [held_snoc_letter strokes legible.last, agrees, ← Text.encode_append,
          ← revised_snoc_letter, List.take_of_length_le (by rwa [revised_snoc_letter])]
      | erase key =>
        rw [held_snoc_erase, agrees]
        by_cases empty : revised strokes = ""
        · rw [empty, revised_snoc_erase_of_eq_empty empty]
          rfl
        · obtain ⟨c, last, split⟩ := revised_eq_snoc_erase empty key
          have byte : (Text.encode (String.singleton c)).length = 1 := by
            rw [Text.length_encode, String.utf8ByteSize_singleton]
            exact narrow key rfl c last
          obtain ⟨b, single⟩ := List.length_eq_one_iff.mp byte
          rw [split, Text.encode_append, single, List.dropLast_concat]

/-- A line that is not spared holds more bytes than its writer sees. -/
theorem spared_or_lt_needed (legible : Legible strokes) (roomy : Roomy strokes) :
    Spared strokes ∨ (revised strokes).utf8ByteSize < needed strokes := by
  induction strokes using List.reverseRecOn with
  | nil => exact .inl (spared_of_held_eq_nil rfl)
  | append_singleton strokes key ih =>
    have before := ih legible.front roomy.front
    have size := length_held_of_roomy legible roomy
    rw [needed_snoc] at size ⊢
    cases key with
    | letter c =>
      refine before.imp (·.snoc_letter c) fun more => ?_
      rw [revised_snoc_letter, String.utf8ByteSize_append, String.utf8ByteSize_singleton]
      exact Nat.add_lt_add_right more _
    | erase key =>
      have least := utf8ByteSize_revised_snoc_erase_le strokes key
      have resized : (Stroke.erase key).resize (needed strokes) = needed strokes - 1 := rfl
      rw [resized] at size ⊢
      by_cases emptied : needed strokes - 1 = 0
      · exact .inl (spared_of_held_eq_nil (List.length_eq_zero_iff.mp (size.trans emptied)))
      · rcases before with spared | more
        · by_cases narrow : ∀ c ∈ (revised strokes).toList.getLast?, c.utf8Size = 1
          · exact .inl (spared.snoc_erase narrow key)
          · -- The writer takes back a whole character of several bytes, the line one of its bytes.
            obtain ⟨c, last, wide⟩ : ∃ c ∈ (revised strokes).toList.getLast?, c.utf8Size ≠ 1 := by
              simpa using narrow
            have some_letter : revised strokes ≠ "" := by
              rintro none
              rw [none] at last
              cases last
            obtain ⟨d, same, split⟩ := revised_eq_snoc_erase some_letter key
            obtain rfl := Option.mem_unique last same
            have size := c.utf8Size_pos
            have all := utf8ByteSize_revised_le_needed strokes
            rw [split, String.utf8ByteSize_append, String.utf8ByteSize_singleton] at all
            exact .inr (by omega)
        · exact .inr (by omega)

end Agreement

/-- No key of the writer finishes the line. -/
theorem ne_of_mem_bytes (legible : Legible strokes) :
    ∀ b ∈ strokes.flatMap Stroke.bytes, b ≠ 0x0A := by
  intro b member
  obtain ⟨key, pressed, member⟩ := List.mem_flatMap.mp member
  cases key with
  | letter c =>
    have sign := Text.printable_singleton.mpr (legible c pressed)
    rintro rfl
    exact absurd (Text.plain_of_mem_encode sign _ member).1 (by decide)
  | erase key => cases key <;> exact List.mem_singleton.mp member ▸ by decide

namespace Typing

/-- The line that arrives is what the line holds. -/
theorem feedAll_strokes_eq_iff {t : Typing} (text : String) (empty : t.editor = {})
    (legible : Legible strokes)
    (typed : t.shared.interrupts.byte ∉ strokes.flatMap Stroke.bytes ++ [0x0A]) :
    (t.feedAll (strokes.flatMap Stroke.bytes ++ [0x0A])).1 = [text] ↔
      held strokes = Text.encode text := by
  obtain ⟨given, finishes⟩ := not_or.mp (mt List.mem_append.mpr typed)
  have others : ∀ b ∈ strokes.flatMap Stroke.bytes, b ≠ t.shared.interrupts.byte ∧ b ≠ 0x0A :=
    fun b member => ⟨fun same => given (same ▸ member), ne_of_mem_bytes legible b member⟩
  have editing : ((strokes.flatMap Stroke.bytes).filterMap keyed).foldl edit t.editor.pending =
      held strokes := by
    rw [empty]
    rfl
  rw [feedAll_line others fun same => finishes (List.mem_singleton.mpr same), editing]
  constructor
  · intro arrives
    split at arrives
    · rename_i read
      obtain rfl := List.singleton_inj.mp arrives
      exact Text.eq_encode_of_decode? read
    · cases arrives
  · intro same
    rw [same, Text.decode?_encode]

/-- Keys are pressed on an empty line, which is then finished. If the line as its writer sees it
always fits, it arrives when it has been spared. If no byte had to be ignored, it arrives in no
other case. -/
theorem feedAll_erasing (t : Typing) (strokes : List Stroke) (empty : t.editor = {})
    (legible : Legible strokes)
    (typed : t.shared.interrupts.byte ∉ strokes.flatMap Stroke.bytes ++ [0x0A]) :
    (Fits strokes → Spared strokes →
      (t.feedAll (strokes.flatMap Stroke.bytes ++ [0x0A])).1 = [revised strokes]) ∧
    (Roomy strokes →
      ((t.feedAll (strokes.flatMap Stroke.bytes ++ [0x0A])).1 = [revised strokes] ↔
        Spared strokes)) := by
  have arrives := feedAll_strokes_eq_iff (revised strokes) empty legible typed
  refine ⟨fun fits spared => arrives.mpr (held_of_spared legible fits spared), fun roomy => ?_⟩
  rw [arrives]
  refine ⟨fun same => (spared_or_lt_needed legible roomy).resolve_right fun more => ?_,
    held_of_spared legible roomy.fits⟩
  have size := length_held_of_roomy legible roomy
  rw [same, Text.length_encode] at size
  omega

/-- A character of two bytes is erased by two keys, of which the writer needs one. With nothing left
in the line that makes no difference, and after it only a character of one byte is erased. -/
theorem feedAll_erasing_emptied :
    let t : Typing := { shared := { interrupts := { byte := 3 } } }
    let strokes : List Stroke := [.letter 'é', .erase .backspace, .erase .delete, .letter 'f',
      .letter 'x', .erase .backspace, .letter 'é']
    Legible strokes ∧ t.shared.interrupts.byte ∉ strokes.flatMap Stroke.bytes ++ [0x0A] ∧
      Fits strokes ∧ Roomy strokes ∧ Spared strokes ∧
      (t.feedAll (strokes.flatMap Stroke.bytes ++ [0x0A])).1 = ["fé"] := by
  intro t strokes
  have legible : Legible strokes := by decide
  have typed : t.shared.interrupts.byte ∉ strokes.flatMap Stroke.bytes ++ [0x0A] := by
    decide +kernel
  have roomy : Roomy strokes := by decide
  obtain ⟨arrives, -⟩ := feedAll_erasing t strokes rfl legible typed
  have line : revised strokes = "fé" := by decide +kernel
  have emptied : Spared (strokes.take 3) := spared_of_held_eq_nil (by decide +kernel)
  have narrow : ∀ c ∈ (revised (strokes.take 5)).toList.getLast?, c.utf8Size = 1 := by
    have last : (revised (strokes.take 5)).toList.getLast? = some 'x' := by decide +kernel
    rw [last]
    rintro c ⟨⟩
    rfl
  have spared : Spared strokes :=
    ((emptied.snoc_letter 'f').snoc_letter 'x' |>.snoc_erase narrow .backspace).snoc_letter 'é'
  exact ⟨legible, typed, roomy.fits, roomy, spared, line ▸ arrives roomy.fits spared⟩

/-- Erasing a character of two bytes leaves one of them, and the line is dropped. -/
theorem not_revised_wide :
    let t : Typing := { shared := { interrupts := { byte := 3 } } }
    let strokes : List Stroke := [.letter 'a', .letter 'é', .erase .backspace]
    Legible strokes ∧ t.shared.interrupts.byte ∉ strokes.flatMap Stroke.bytes ++ [0x0A] ∧
      Fits strokes ∧ revised strokes = "a" ∧
      (t.feedAll (strokes.flatMap Stroke.bytes ++ [0x0A])).1 = [] := by
  intro t strokes
  exact ⟨by decide, by decide +kernel, by decide, by decide +kernel, by decide +kernel⟩

end Typing

end DeviceShell.Input
