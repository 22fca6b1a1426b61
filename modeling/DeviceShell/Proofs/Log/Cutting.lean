import DeviceShell.Log.Station
import DeviceShell.Text.Align
import DeviceShell.Text.Bytes
import DeviceShell.Proofs.Text.Decoding
import DeviceShell.Proofs.Text.Fitting

/-! What becomes of a record that is too long. Each piece of it is cut for itself, so the record is
a beginning of what was said only if nothing finds room behind the cut. -/
namespace DeviceShell

namespace Text

variable {text : String}

theorem utf8Size_eq_one {c : Char} (ascii : c.toNat < 128) : c.utf8Size = 1 :=
  Char.utf8Size_eq_one_iff.mpr (UInt32.le_iff_toNat_le.mpr (Nat.le_of_lt_succ ascii))

/-- Where characters take one byte each, a text is cut to a byte. -/
theorem encode_fit_of_narrow {room : Nat} (narrow : ∀ c ∈ text.toList, c.utf8Size = 1) :
    encode (fit room text) = (encode text).take room := by
  rcases Nat.lt_or_ge room text.utf8ByteSize with long | fits
  · obtain ⟨c, rest, split, wide⟩ := exists_cut long
    have left_out := narrow c (by rw [split]; exact List.mem_append_right _ List.mem_cons_self)
    have within := (longestFit_fit room text).fits
    have full : (fit room text).utf8ByteSize = room := by omega
    rw [← take_encode (longestFit_fit room text).begins, full]
  · rw [fit_of_le fits, List.take_of_length_le (by rwa [length_encode])]

end Text

namespace Log.Emission

variable {e f : Emission} {clock : UInt64}

/-- All that a record is to say. -/
def text (e : Emission) (clock : UInt64) : String :=
  Text.decimal clock.toNat ++ " [" ++ e.level.letter ++ "][" ++ e.target ++ "] " ++
    String.join e.message

theorem join_pieces (e : Emission) (clock : UInt64) :
    String.join (e.pieces clock) = e.text clock := by
  simp [pieces, stamp, text, String.append_assoc]

/-- What is made of something said to the log. -/
structure Recorded (e : Emission) (clock : UInt64) (record : String) : Prop where
  readable : Text.decode? (Text.encode record) = some record
  size : (Text.encode record).length ≤ 256
  /-- A line end comes behind what is kept of the pieces. -/
  body : ∃ kept, Text.Filled 254 (e.pieces clock) kept ∧ record = String.join kept ++ "\r\n"
  whole : (e.text clock).utf8ByteSize ≤ 254 → record = e.text clock ++ "\r\n"
  ascii : (∀ c ∈ (e.text clock).toList, c.toNat < 128) →
    Text.encode record = (Text.encode (e.text clock)).take 254 ++ [13, 10]

theorem recorded (e : Emission) (clock : UInt64) : e.Recorded clock (e.record clock) where
  readable := Text.decode?_encode _
  size := by
    have within := Text.utf8ByteSize_fitPieces_le bodyLimit (e.pieces clock)
    rw [Text.length_encode, record, String.utf8ByteSize_append]
    exact Nat.add_le_add_right within 2
  body := ⟨_, Text.filled_keptOf bodyLimit _, by rw [record, body, Text.fitPieces_eq]; rfl⟩
  whole fits := by
    have within : (String.join (e.pieces clock)).utf8ByteSize ≤ bodyLimit := by rwa [join_pieces]
    rw [record, body, Text.fitPieces_of_le within, join_pieces]
    rfl
  ascii narrow := by
    have narrow : ∀ c ∈ (String.join (e.pieces clock)).toList, c.utf8Size = 1 := by
      rw [join_pieces]
      exact fun c member => Text.utf8Size_eq_one (narrow c member)
    rw [record, body, (Text.cutOnce_of_narrow narrow).fitPieces_eq, Text.encode_append,
      Text.encode_fit_of_narrow narrow, join_pieces]
    rfl

/-- Every sink is handed the same record, cut to its size piece by piece. -/
theorem recorded_of_delivered {s : Station} {d : Delivery} (delivered : d ∈ s.deliveries e) :
    e.Recorded s.clock d.record := by
  have same : d.record = e.record s.clock := by
    unfold Station.deliveries Hub.deliveries at delivered
    split at delivered
    · obtain ⟨id, -, rfl⟩ := List.mem_map.mp delivered
      rfl
    · exact absurd delivered List.not_mem_nil
  rw [same]
  exact e.recorded s.clock

/-- A long message, and the largest clock. -/
theorem recorded_of_delivered_long :
    let s : Station := { hub := { sinks := [⟨1⟩] }, clock := 18446744073709551615 }
    let e : Emission := ⟨.warn, "store", [Text.repeated 300 'x', "end"]⟩
    let d : Delivery := ⟨⟨1⟩, e.record s.clock⟩
    d ∈ s.deliveries e ∧ (Text.encode d.record).length ≤ 256 ∧
      Text.encode d.record = (Text.encode (e.text s.clock)).take 254 ++ [13, 10] := by
  intro s e d
  have delivered : d ∈ s.deliveries e := List.mem_singleton_self d
  have recorded := recorded_of_delivered delivered
  refine ⟨delivered, recorded.size, recorded.ascii ?_⟩
  have spoken : e.text s.clock =
      "18446744073709551615 [W][store] " ++ Text.repeated 300 'x' ++ "end" := by
    have stamped : Text.decimal s.clock.toNat ++ " [" ++ e.level.letter ++ "][" ++ e.target ++ "] " =
        "18446744073709551615 [W][store] " := by decide
    rw [text, stamped, String.append_assoc]
    simp [e]
  rw [spoken]
  simp only [String.toList_append, List.forall_mem_append]
  have ascii {cs : List Char} (each : cs.all (fun c => decide (c.toNat < 128)) = true) :
      ∀ c ∈ cs, c.toNat < 128 :=
    fun c member => of_decide_eq_true (List.all_eq_true.mp each c member)
  refine ⟨⟨ascii (by decide), fun c member => ?_⟩, ascii (by decide)⟩
  rw [Text.repeated, String.toList_ofList] at member
  rw [List.eq_of_mem_replicate member]
  decide

/-- Nothing finds room behind the place where a record is cut. -/
def CutOnce (e : Emission) (clock : UInt64) : Prop := Text.CutOnce bodyLimit (e.pieces clock)

/-- The same message by the same speaker, perhaps in other pieces. -/
structure Resplit (e f : Emission) : Prop where
  level : f.level = e.level
  target : f.target = e.target
  message : String.join f.message = String.join e.message

theorem Resplit.text_eq (resplit : e.Resplit f) (clock : UInt64) : f.text clock = e.text clock := by
  rw [text, resplit.level, resplit.target, resplit.message, text]

theorem isPrefix_body_iff :
    (e.body clock).toList <+: (e.text clock).toList ↔ e.CutOnce clock := by
  rw [body, ← join_pieces]
  exact Text.isPrefix_fitPieces_iff

theorem CutOnce.body_eq (once : e.CutOnce clock) :
    e.body clock = Text.fit bodyLimit (e.text clock) := by
  rw [body, Text.CutOnce.fitPieces_eq once, join_pieces]

theorem record_inj : f.record clock = e.record clock ↔ f.body clock = e.body clock := by
  rw [record, record, ← String.toList_inj, String.toList_append, String.toList_append,
    List.append_cancel_right_eq, String.toList_inj]

/-- A record is a beginning of what was said exactly if it is cut once, and of such a record the
pieces cannot be told. -/
theorem beginning_iff_cutOnce (e : Emission) (clock : UInt64) :
    ((e.body clock).toList <+: (e.text clock).toList ↔ e.CutOnce clock) ∧
      (e.CutOnce clock → ∀ f, e.Resplit f →
        (f.record clock = e.record clock ↔ f.CutOnce clock)) := by
  refine ⟨isPrefix_body_iff, fun once f resplit => ?_⟩
  rw [record_inj]
  constructor
  · intro same
    rw [← isPrefix_body_iff, same, resplit.text_eq]
    exact isPrefix_body_iff.mpr once
  · intro again
    rw [again.body_eq, once.body_eq, resplit.text_eq]

/-- One byte is left, which a character of two bytes cannot take, and the next piece does. In one
piece the same message ends at the cut. -/
theorem not_beginning_behind_wide :
    let e : Emission := ⟨.info, "t", [Text.repeated 244 'x', "é", "y"]⟩
    let f : Emission := ⟨.info, "t", [Text.repeated 244 'x' ++ "éy"]⟩
    ¬ (e.body 0).toList <+: (e.text 0).toList ∧ e.Resplit f ∧ f.record 0 ≠ e.record 0 := by
  intro e f
  have resplit : e.Resplit f := by
    refine ⟨rfl, rfl, ?_⟩
    have wide : "é" ++ "y" = "éy" := by decide
    simp [e, f, ← wide]
  have stamped : String.join (stamp 0 .info "t") = "0 [I][t] " := by decide
  have spoken : e.text 0 = "0 [I][t] " ++ Text.repeated 244 'x' ++ "éy" := by
    rw [← join_pieces, pieces, String.join_append, resplit.message.symm, String.append_assoc]
    exact congr (congrArg _ stamped) (by simp [f])
  have size : ("0 [I][t] " ++ Text.repeated 244 'x').utf8ByteSize = 253 := by
    rw [String.utf8ByteSize_append, Text.utf8ByteSize_repeated]
    decide
  have kept : Text.fit bodyLimit (e.text 0) = "0 [I][t] " ++ Text.repeated 244 'x' := by
    have wide : Text.fit (bodyLimit - 253) "éy" = "" := by decide
    rw [spoken, Text.fit_append_of_le (by rw [size]; decide), size, wide, String.append_empty]
  have twice : ¬ e.CutOnce 0 := by
    intro once
    have past : bodyLimit <
        (String.join (stamp 0 .info "t" ++ [Text.repeated 244 'x', "é"])).utf8ByteSize := by
      rw [String.join_append, stamped]
      simp only [String.join_cons, String.utf8ByteSize_append, Text.utf8ByteSize_repeated]
      decide
    have split : e.pieces 0 = stamp 0 .info "t" ++ [Text.repeated 244 'x', "é"] ++ ["y"] := by
      rw [pieces, List.append_assoc]
      rfl
    have wide := once _ "y" [] split past 'y' (by decide)
    rw [join_pieces, kept, size] at wide
    exact absurd wide (by decide)
  have once : f.CutOnce 0 := Text.cutOnce_of_last (by decide)
  refine ⟨fun begins => twice (isPrefix_body_iff.mp begins), resplit, fun same => twice ?_⟩
  rw [← isPrefix_body_iff, ← record_inj.mp same, ← resplit.text_eq]
  exact isPrefix_body_iff.mpr once

end Log.Emission

end DeviceShell
