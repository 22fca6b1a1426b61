import DeviceShell.Text.Align
import DeviceShell.Text.Fit

/-! What is kept of a text that has to fit in some bytes, and of pieces that are written into them
one after the other. A piece that is cut short leaves up to three bytes, and what comes behind it
may still find room in these. -/
namespace DeviceShell.Text

variable {room : Nat} {cs ds : List Char} {text first second : String} {pieces : List String}

section Whole

/-- The longest beginning of a text, in whole characters, that takes no more bytes than there is
room for. -/
structure LongestFit (room : Nat) (text kept : String) : Prop where
  begins : kept.toList <+: text.toList
  fits : kept.utf8ByteSize ≤ room
  longest (other : String) : other.toList <+: text.toList → other.utf8ByteSize ≤ room →
    other.toList <+: kept.toList

theorem utf8ByteSize_ofList_cons (c : Char) (cs : List Char) :
    (String.ofList (c :: cs)).utf8ByteSize = c.utf8Size + (String.ofList cs).utf8ByteSize := by
  rw [String.ofList_cons, String.utf8ByteSize_append, String.utf8ByteSize_singleton]

theorem utf8ByteSize_repeated (count : Nat) (c : Char) :
    (repeated count c).utf8ByteSize = count * c.utf8Size := by
  induction count with
  | zero => rw [Nat.zero_mul]; rfl
  | succ count ih =>
    rw [repeated, List.replicate_succ, utf8ByteSize_ofList_cons, Nat.succ_mul, Nat.add_comm]
    exact congrArg (· + c.utf8Size) ih

theorem exists_eq_append (begins : first.toList <+: text.toList) : ∃ rest, text = first ++ rest := by
  obtain ⟨rest, whole⟩ := begins
  refine ⟨String.ofList rest, String.toList_inj.mp ?_⟩
  rw [String.toList_append, String.toList_ofList, whole]

theorem utf8ByteSize_le (begins : first.toList <+: text.toList) :
    first.utf8ByteSize ≤ text.utf8ByteSize := by
  obtain ⟨rest, rfl⟩ := exists_eq_append begins
  rw [String.utf8ByteSize_append]
  exact Nat.le_add_right _ _

theorem utf8ByteSize_fitChars_le (room : Nat) (cs : List Char) :
    (String.ofList (fitChars room cs)).utf8ByteSize ≤ room := by
  induction cs generalizing room with
  | nil => exact Nat.zero_le room
  | cons c cs ih =>
    rw [fitChars]
    split
    · rename_i fits
      have rest := ih (room - c.utf8Size)
      rw [utf8ByteSize_ofList_cons]
      omega
    · exact Nat.zero_le room

/-- A beginning that fits is kept. -/
theorem isPrefix_fitChars (begins : ds <+: cs) (fits : (String.ofList ds).utf8ByteSize ≤ room) :
    ds <+: fitChars room cs := by
  induction cs generalizing ds room with
  | nil =>
    rw [List.prefix_nil.mp begins]
    exact List.nil_prefix
  | cons c cs ih =>
    cases ds with
    | nil => exact List.nil_prefix
    | cons d ds =>
      obtain ⟨rfl, later⟩ := List.cons_prefix_cons.mp begins
      rw [utf8ByteSize_ofList_cons] at fits
      rw [fitChars, if_pos (by omega)]
      exact (List.prefix_cons_inj d).mpr (ih later (by omega))

theorem longestFit_fit (room : Nat) (text : String) : LongestFit room text (fit room text) where
  begins := by
    rw [toList_fit]
    exact fitChars_isPrefix room _
  fits := by
    rw [← String.ofList_toList (s := fit room text), toList_fit]
    exact utf8ByteSize_fitChars_le room _
  longest other begins fits := by
    rw [toList_fit]
    exact isPrefix_fitChars begins (by rwa [String.ofList_toList])

/-- There is only one longest beginning. -/
theorem LongestFit.eq_fit {kept : String} (longest : LongestFit room text kept) :
    kept = fit room text := by
  have other := longestFit_fit room text
  have shorter := other.longest kept longest.begins longest.fits
  have longer := longest.longest _ other.begins other.fits
  exact String.toList_inj.mp (shorter.eq_of_length_le longer.length_le)

theorem fit_of_le (fits : text.utf8ByteSize ≤ room) : fit room text = text := if_pos fits

/-- What is kept is not cut again. -/
theorem fit_fit (room : Nat) (text : String) : fit room (fit room text) = fit room text :=
  fit_of_le (longestFit_fit room text).fits

theorem fit_eq_self_iff : fit room text = text ↔ text.utf8ByteSize ≤ room := by
  constructor
  · intro whole
    rw [← whole]
    exact (longestFit_fit room text).fits
  · exact fit_of_le

/-- A text that is cut is cut before the first character that there is no room for. -/
theorem exists_cut (long : room < text.utf8ByteSize) :
    ∃ c rest, text.toList = (fit room text).toList ++ c :: rest ∧
      room < (fit room text).utf8ByteSize + c.utf8Size := by
  have longest := longestFit_fit room text
  obtain ⟨rest, whole⟩ := longest.begins
  cases rest with
  | nil =>
    rw [List.append_nil] at whole
    have fits := longest.fits
    rw [String.toList_inj.mp whole] at fits
    exact absurd long (Nat.not_lt.mpr fits)
  | cons c rest =>
    refine ⟨c, rest, whole.symm, Nat.lt_of_not_ge fun room_left => ?_⟩
    -- The beginning up to this character would fit too, and be longer.
    have more := longest.longest (fit room text ++ String.singleton c)
      ⟨rest, by simpa using whole⟩
      (by rwa [String.utf8ByteSize_append, String.utf8ByteSize_singleton])
    have shorter := more.length_le
    rw [String.toList_append, List.length_append, String.toList_singleton,
      List.length_singleton] at shorter
    omega

/-- The first part of a text fits as a whole. -/
theorem fit_append_of_le (fits : first.utf8ByteSize ≤ room) :
    fit room (first ++ second) = first ++ fit (room - first.utf8ByteSize) second := by
  have rest := longestFit_fit (room - first.utf8ByteSize) second
  refine Eq.symm (LongestFit.eq_fit ⟨?_, ?_, ?_⟩)
  · rw [String.toList_append, String.toList_append]
    exact (List.prefix_append_right_inj _).mpr rest.begins
  · have within := rest.fits
    rw [String.utf8ByteSize_append]
    omega
  · intro other begins small
    rw [String.toList_append] at begins ⊢
    rcases List.prefix_or_prefix_of_prefix begins (List.prefix_append _ _) with short | long
    · exact short.trans (List.prefix_append _ _)
    · obtain ⟨more, rfl⟩ := exists_eq_append long
      rw [String.toList_append, List.prefix_append_right_inj] at begins
      rw [String.utf8ByteSize_append] at small
      rw [String.toList_append, List.prefix_append_right_inj]
      exact rest.longest more begins (by omega)

/-- The first part of a text is cut already. -/
theorem fit_append_of_lt (long : room < first.utf8ByteSize) :
    fit room (first ++ second) = fit room first := by
  have start := longestFit_fit room first
  refine Eq.symm (LongestFit.eq_fit ⟨?_, start.fits, ?_⟩)
  · rw [String.toList_append]
    exact start.begins.trans (List.prefix_append _ _)
  · intro other begins small
    rw [String.toList_append] at begins
    rcases List.prefix_or_prefix_of_prefix begins (List.prefix_append _ _) with short | longer
    · exact start.longest other short small
    · have larger := utf8ByteSize_le longer
      omega

end Whole

section Pieces

/-- What is kept of each piece. -/
def keptOf (room : Nat) : List String → List String
  | [] => []
  | piece :: later =>
    fit room piece :: keptOf (room - (fit room piece).utf8ByteSize) later

/-- What is kept of pieces that are written one after the other: of each its longest beginning for
which there is room behind what is kept of those before it. -/
structure Filled (room : Nat) (pieces kept : List String) : Prop where
  alike : kept.length = pieces.length
  fits : (String.join kept).utf8ByteSize ≤ room
  longest (i : Nat) (piece part : String) : pieces[i]? = some piece → kept[i]? = some part →
    LongestFit (room - (String.join (kept.take i)).utf8ByteSize) piece part

theorem fitPieces_eq (room : Nat) (pieces : List String) :
    fitPieces room pieces = String.join (keptOf room pieces) := by
  induction pieces generalizing room with
  | nil => rfl
  | cons piece later ih => rw [fitPieces, keptOf, String.join_cons, ih]

theorem filled_keptOf (room : Nat) (pieces : List String) :
    Filled room pieces (keptOf room pieces) := by
  induction pieces generalizing room with
  | nil => exact ⟨rfl, Nat.zero_le room, fun _ _ _ none => by cases none⟩
  | cons piece later ih =>
    have first := longestFit_fit room piece
    have rest := ih (room - (fit room piece).utf8ByteSize)
    refine ⟨congrArg (· + 1) rest.alike, ?_, ?_⟩
    · have within := rest.fits
      have start := first.fits
      rw [keptOf, String.join_cons, String.utf8ByteSize_append]
      omega
    · intro i other part given kept
      cases i with
      | zero =>
        cases given
        cases kept
        exact first
      | succ i =>
        have further := rest.longest i other part given kept
        rwa [Nat.sub_sub, ← String.utf8ByteSize_append, ← String.join_cons] at further

theorem utf8ByteSize_fitPieces_le (room : Nat) (pieces : List String) :
    (fitPieces room pieces).utf8ByteSize ≤ room := by
  rw [fitPieces_eq]
  exact (filled_keptOf room pieces).fits

theorem fitPieces_of_le (fits : (String.join pieces).utf8ByteSize ≤ room) :
    fitPieces room pieces = String.join pieces := by
  induction pieces generalizing room with
  | nil => rfl
  | cons piece later ih =>
    rw [String.join_cons, String.utf8ByteSize_append] at fits
    have first : fit room piece = piece := fit_of_le (by omega)
    rw [fitPieces, first, ih (by omega), String.join_cons]

end Pieces

section Cut

/-- Behind the place where the text is cut, no piece begins with a character that there is still
room for. -/
def CutOnce (room : Nat) (pieces : List String) : Prop :=
  ∀ before piece after, pieces = before ++ piece :: after →
    room < (String.join before).utf8ByteSize → ∀ c ∈ piece.toList.head?,
      room < (fit room (String.join pieces)).utf8ByteSize + c.utf8Size

/-- The piece at the front is not cut. -/
theorem cutOnce_cons_of_le {piece : String} (fits : piece.utf8ByteSize ≤ room) :
    CutOnce room (piece :: pieces) ↔ CutOnce (room - piece.utf8ByteSize) pieces := by
  have whole : (fit room (String.join (piece :: pieces))).utf8ByteSize = piece.utf8ByteSize +
      (fit (room - piece.utf8ByteSize) (String.join pieces)).utf8ByteSize := by
    rw [String.join_cons, fit_append_of_le fits, String.utf8ByteSize_append]
  constructor
  · rintro once before later after rfl past c starts
    have wide := once (piece :: before) later after rfl
      (by rw [String.join_cons, String.utf8ByteSize_append]; omega) c starts
    omega
  · intro once before later after split past c starts
    cases before with
    | nil => exact absurd past (Nat.not_lt_zero room)
    | cons other before =>
      obtain ⟨rfl, rfl⟩ := List.cons.inj split
      rw [String.join_cons, String.utf8ByteSize_append] at past
      have wide := once before later after rfl (by omega) c starts
      omega

/-- The piece at the front is cut. -/
theorem cutOnce_cons_of_lt {piece : String} (long : room < piece.utf8ByteSize) :
    CutOnce room (piece :: pieces) ↔ ∀ later ∈ pieces, ∀ c ∈ later.toList.head?,
      room - (fit room piece).utf8ByteSize < c.utf8Size := by
  have whole : fit room (String.join (piece :: pieces)) = fit room piece := by
    rw [String.join_cons, fit_append_of_lt long]
  have start := (longestFit_fit room piece).fits
  constructor
  · intro once later member c starts
    obtain ⟨before, after, rfl⟩ := List.append_of_mem member
    have wide := once (piece :: before) later after rfl
      (by rw [String.join_cons, String.utf8ByteSize_append]; omega) c starts
    rw [whole] at wide
    omega
  · intro wide before later after split past c starts
    cases before with
    | nil => exact absurd past (Nat.not_lt_zero room)
    | cons other before =>
      obtain ⟨rfl, rfl⟩ := List.cons.inj split
      have wide := wide later (List.mem_append_right before List.mem_cons_self) c starts
      rw [whole]
      omega

theorem fit_eq_empty_iff : fit room text = "" ↔ ∀ c ∈ text.toList.head?, room < c.utf8Size := by
  rw [← String.toList_inj, toList_fit]
  cases text.toList with
  | nil => simp [fitChars]
  | cons c cs =>
    by_cases fits : c.utf8Size ≤ room
    · simp [fitChars, fits]
    · simp [fitChars, fits, Nat.lt_of_not_ge fits]

theorem fitPieces_eq_empty_iff :
    fitPieces room pieces = "" ↔ ∀ piece ∈ pieces, ∀ c ∈ piece.toList.head?, room < c.utf8Size := by
  induction pieces with
  | nil => exact ⟨fun _ _ member => absurd member List.not_mem_nil, fun _ => rfl⟩
  | cons piece later ih =>
    rw [fitPieces, String.append_eq_empty_iff, List.forall_mem_cons, ← fit_eq_empty_iff, ← ih]
    refine and_congr_right fun empty => ?_
    rw [empty, String.utf8ByteSize_empty, Nat.sub_zero]

/-- Pieces that are cut once are kept as the whole text would be. -/
theorem CutOnce.fitPieces_eq (once : CutOnce room pieces) :
    fitPieces room pieces = fit room (String.join pieces) := by
  induction pieces generalizing room with
  | nil => exact (fit_of_le (Nat.zero_le room)).symm
  | cons piece later ih =>
    rw [fitPieces, String.join_cons]
    rcases Nat.lt_or_ge room piece.utf8ByteSize with long | fits
    · rw [fit_append_of_lt long, fitPieces_eq_empty_iff.mpr ((cutOnce_cons_of_lt long).mp once),
        String.append_empty]
    · rw [fit_of_le fits, fit_append_of_le fits, ih ((cutOnce_cons_of_le fits).mp once)]

/-- What is kept behind a cut does not go on as the text does: it begins with a character for which
there is room, and the one left out is wider. -/
theorem fitPieces_eq_empty_of_isPrefix (long : room < text.utf8ByteSize)
    (begins : (fit room text ++
      fitPieces (room - (fit room text).utf8ByteSize) pieces).toList <+: (text ++ second).toList) :
    fitPieces (room - (fit room text).utf8ByteSize) pieces = "" := by
  obtain ⟨c, rest, split, wide⟩ := exists_cut long
  have within := (longestFit_fit room text).fits
  have small := utf8ByteSize_fitPieces_le (room - (fit room text).utf8ByteSize) pieces
  rw [String.toList_append, String.toList_append, split, List.append_assoc,
    List.prefix_append_right_inj, List.cons_append] at begins
  cases kept : (fitPieces (room - (fit room text).utf8ByteSize) pieces).toList with
  | nil => exact String.toList_inj.mp kept
  | cons d ds =>
    rw [kept] at begins
    obtain ⟨rfl, -⟩ := List.cons_prefix_cons.mp begins
    have size := utf8ByteSize_ofList_cons d ds
    rw [← kept, String.ofList_toList] at size
    omega

/-- Pieces are kept as a beginning of the text exactly if they are cut once. -/
theorem isPrefix_fitPieces_iff :
    (fitPieces room pieces).toList <+: (String.join pieces).toList ↔ CutOnce room pieces := by
  constructor
  · intro begins
    induction pieces generalizing room with
    | nil =>
      rintro before piece after split
      exact absurd split (by simp)
    | cons piece later ih =>
      rw [fitPieces, String.join_cons] at begins
      rcases Nat.lt_or_ge room piece.utf8ByteSize with long | fits
      · rw [cutOnce_cons_of_lt long, ← fitPieces_eq_empty_iff]
        exact fitPieces_eq_empty_of_isPrefix long begins
      · rw [fit_of_le fits, String.toList_append, String.toList_append,
          List.prefix_append_right_inj] at begins
        exact (cutOnce_cons_of_le fits).mpr (ih begins)
  · intro once
    rw [once.fitPieces_eq]
    exact (longestFit_fit room _).begins

/-- If all pieces but the last one fit, nothing comes behind a cut. -/
theorem cutOnce_of_last {last : String} (fits : (String.join pieces).utf8ByteSize ≤ room) :
    CutOnce room (pieces ++ [last]) := by
  intro before piece after split past c starts
  have within : before <+: pieces := by
    have shorter := congrArg List.length split
    rw [List.length_append, List.length_append, List.length_singleton, List.length_cons] at shorter
    exact List.prefix_of_prefix_length_le ⟨_, split.symm⟩ (List.prefix_append _ _) (by omega)
  obtain ⟨rest, rfl⟩ := within
  rw [String.join_append, String.utf8ByteSize_append] at fits
  omega

/-- With characters of one byte each, a cut leaves no room. -/
theorem cutOnce_of_narrow (narrow : ∀ c ∈ (String.join pieces).toList, c.utf8Size = 1) :
    CutOnce room pieces := by
  rintro before piece after rfl past c starts
  rw [String.join_append, String.join_cons] at narrow ⊢
  have long : room < (String.join before ++ (piece ++ String.join after)).utf8ByteSize := by
    rw [String.utf8ByteSize_append]
    omega
  obtain ⟨d, rest, split, wide⟩ := exists_cut long
  have left_out := narrow d (by rw [split]; exact List.mem_append_right _ List.mem_cons_self)
  have inside : c ∈ (String.join before ++ (piece ++ String.join after)).toList := by
    rw [String.toList_append, String.toList_append]
    exact List.mem_append_right _ (List.mem_append_left _ (List.mem_of_mem_head? starts))
  have here := narrow c inside
  omega

end Cut

end DeviceShell.Text
