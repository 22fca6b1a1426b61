import DeviceShell.Proofs.Text.Words
import DeviceShell.Text.Numeral
import Mathlib.Data.Nat.Digits.Defs

/-! Whole numbers as they are written in base ten: a sign or none, and then digits, of which the
first ones may be zeros. Reading gives the number that is meant, and no other text is read. -/
namespace DeviceShell.Text

/-- What stands before the digits. -/
inductive Sign where
  | none
  | plus
  | minus
  deriving DecidableEq, Repr

def Sign.chars : Sign → List Char
  | .none => []
  | .plus => ['+']
  | .minus => ['-']

def Sign.apply (magnitude : Nat) : Sign → Int
  | .none | .plus => magnitude
  | .minus => -magnitude

def digit (d : Fin 10) : Char := Nat.digitChar d

/-- A number as it is written, the digit of most weight first. -/
structure Numeral where
  sign : Sign := .none
  digits : List (Fin 10)
  nonempty : digits ≠ []

namespace Numeral

def chars (n : Numeral) : List Char := n.sign.chars ++ n.digits.map digit

def magnitude (n : Numeral) : Nat := Nat.ofDigits 10 (n.digits.reverse.map Fin.val)

def value (n : Numeral) : Int := n.sign.apply n.magnitude

/-- A signed number of 64 bits can hold it. -/
def Within64 (n : Numeral) : Prop := -2 ^ 63 ≤ n.value ∧ n.value < 2 ^ 63

instance (n : Numeral) : Decidable n.Within64 := inferInstanceAs (Decidable (_ ∧ _))

/-- The number is all that a text holds, but for blanks around it. -/
def Fills (n : Numeral) (text : String) : Prop := Layout [] n.chars text.toList

end Numeral

variable {cs : List Char} {d : Fin 10} {ds : List (Fin 10)} {bound : Nat} {n : Numeral}

theorem isDigit_digit (d : Fin 10) : (digit d).isDigit = true := by
  rw [digit, Nat.isDigit_digitChar, decide_eq_true d.isLt]

theorem toNat_digit (d : Fin 10) : (digit d).toNat - '0'.toNat = d := by
  revert d
  decide

theorem exists_digit {c : Char} (isDigit : c.isDigit = true) : ∃ d, digit d = c := by
  simp only [Char.isDigit, Bool.and_eq_true, decide_eq_true_eq, UInt32.le_iff_toNat_le,
    ge_iff_le] at isDigit
  change 48 ≤ c.toNat ∧ c.toNat ≤ 57 at isDigit
  have spelled : ∀ d : Fin 10, digit d = Char.ofNat (48 + d) := by decide
  refine ⟨⟨c.toNat - 48, by omega⟩, ?_⟩
  rw [spelled, Nat.add_sub_cancel' isDigit.1, Char.ofNat_toNat]

theorem exists_digits (allDigits : ∀ c ∈ cs, c.isDigit = true) :
    ∃ ds : List (Fin 10), cs = ds.map digit := by
  induction cs with
  | nil => exact ⟨[], rfl⟩
  | cons c cs ih =>
    obtain ⟨first, later⟩ := List.forall_mem_cons.mp allDigits
    obtain ⟨d, rfl⟩ := exists_digit first
    obtain ⟨ds, rfl⟩ := ih later
    exact ⟨d :: ds, rfl⟩

/-- Reading from the left comes to the sum of the digits by their weights. -/
theorem ofDigitChars_map (ds : List (Fin 10)) (start : Nat) :
    Nat.ofDigitChars 10 (ds.map digit) start =
      Nat.ofDigits 10 (ds.reverse.map Fin.val) + 10 ^ ds.length * start := by
  induction ds generalizing start with
  | nil => simp
  | cons d ds ih =>
    rw [List.map_cons, Nat.ofDigitChars_cons, ih, toNat_digit, List.reverse_cons, List.map_append,
      Nat.ofDigits_append, List.length_map, List.length_reverse, List.map_singleton,
      Nat.ofDigits_singleton, List.length_cons, Nat.pow_succ]
    ring

theorem digit_ne {c : Char} (other : c.isDigit = false) (d : Fin 10) : digit d ≠ c := by
  rintro rfl
  exact Bool.noConfusion ((isDigit_digit d).symm.trans other)

theorem exists_digits_of_natural? {value : Nat} (read : natural? cs = some value) :
    ∃ ds : List (Fin 10), ds ≠ [] ∧ cs = ds.map digit := by
  unfold natural? at read
  split at read
  · cases read
  · rename_i accepted
    simp only [Bool.or_eq_true, Bool.not_eq_true', not_or, Bool.not_eq_true,
      Bool.not_eq_false, List.isEmpty_eq_false_iff] at accepted
    obtain ⟨ds, rfl⟩ := exists_digits (List.all_eq_true.mp accepted.2)
    exact ⟨ds, fun none => accepted.1 (by rw [none]; rfl), rfl⟩

theorem exists_digits_of_naturalBelow? {value : Nat} (read : naturalBelow? bound cs = some value) :
    ∃ ds : List (Fin 10), ds ≠ [] ∧ cs = ds.map digit := by
  rw [naturalBelow?_eq, Option.filter_eq_some_iff] at read
  exact exists_digits_of_natural? read.1

/-- The magnitudes that 64 bits hold behind a sign are below this. -/
def Sign.room : Sign → Nat
  | .none | .plus => UInt64.size / 2
  | .minus => UInt64.size / 2 + 1

theorem signed64?_minus (cs : List Char) :
    signed64? ('-' :: cs) = (naturalBelow? Sign.minus.room cs).map Sign.minus.apply := by
  rw [signed64?, Sign.room]
  cases naturalBelow? (UInt64.size / 2 + 1) cs <;> rfl

theorem signed64?_plus (cs : List Char) :
    signed64? ('+' :: cs) = (naturalBelow? Sign.plus.room cs).map Sign.plus.apply := rfl

/-- What starts with a digit has no sign. -/
theorem signed64?_digits (d : Fin 10) (cs : List Char) :
    signed64? (digit d :: cs) =
      (naturalBelow? Sign.none.room (digit d :: cs)).map Sign.none.apply := by
  rw [signed64?]
  · rfl
  · exact fun later same => digit_ne (c := '-') rfl d (List.cons.inj same).1
  · exact fun later same => digit_ne (c := '+') rfl d (List.cons.inj same).1

namespace Numeral

theorem natural?_digits (n : Numeral) : natural? (n.digits.map digit) = some n.magnitude := by
  have allDigits : (n.digits.map digit).all Char.isDigit = true :=
    List.all_map.trans (List.all_eq_true.mpr fun d _ => isDigit_digit d)
  have some_digit : (n.digits.map digit).isEmpty = false := by simpa using n.nonempty
  rw [natural?, some_digit, allDigits, ofDigitChars_map, Nat.mul_zero, Nat.add_zero]
  rfl

/-- A sign is taken off before the digits are read. -/
theorem signed64?_chars (n : Numeral) :
    signed64? n.chars = (naturalBelow? n.sign.room (n.digits.map digit)).map n.sign.apply := by
  obtain ⟨sign, ds, nonempty⟩ := n
  cases sign with
  | plus => exact signed64?_plus _
  | minus => exact signed64?_minus _
  | none =>
    obtain ⟨d, later, rfl⟩ := List.exists_cons_of_ne_nil nonempty
    exact signed64?_digits d _

theorem within64_iff (n : Numeral) : n.Within64 ↔ n.magnitude < n.sign.room := by
  obtain ⟨sign, ds, nonempty⟩ := n
  have half : UInt64.size / 2 = 2 ^ 63 := rfl
  cases sign <;> simp only [Within64, value, Sign.apply, Sign.room, half] <;> omega

/-- A number is read as what it means, if 64 bits can hold it. -/
theorem signed64?_of_within64 (within : n.Within64) : signed64? n.chars = some n.value := by
  have below := n.within64_iff.mp within
  rw [signed64?_chars, naturalBelow?_eq, natural?_digits, Option.filter_some_pos (by simpa using below),
    Option.map_some, value]

theorem signed64?_of_not_within64 (beyond : ¬ n.Within64) : signed64? n.chars = none := by
  have past : ¬ n.magnitude < n.sign.room := fun inside => beyond (n.within64_iff.mpr inside)
  rw [signed64?_chars, naturalBelow?_eq, natural?_digits,
    Option.filter_some_neg (by simpa using past), Option.map_none]

/-- No other text is read. -/
theorem exists_of_signed64? {z : Int} (read : signed64? cs = some z) :
    ∃ n : Numeral, n.chars = cs := by
  have written (sign : Sign) {later : List Char}
      (read : (naturalBelow? sign.room later).map sign.apply = some z) :
      ∃ n : Numeral, n.chars = sign.chars ++ later := by
    obtain ⟨value, held, -⟩ := Option.map_eq_some_iff.mp read
    obtain ⟨ds, nonempty, rfl⟩ := exists_digits_of_naturalBelow? held
    exact ⟨⟨sign, ds, nonempty⟩, rfl⟩
  cases cs with
  | nil => cases read
  | cons c later =>
    by_cases minus : c = '-'
    · rw [minus, signed64?_minus] at read
      rw [minus]
      exact written _ read
    · by_cases plus : c = '+'
      · rw [plus, signed64?_plus] at read
        rw [plus]
        exact written _ read
      · rw [signed64?] at read
        · exact written .none read
        · exact fun rest same => minus (List.cons.inj same).1
        · exact fun rest same => plus (List.cons.inj same).1

/-- Neither a sign nor a digit is a blank. -/
theorem isWord_chars (n : Numeral) : IsWord n.chars := by
  have digits : ∀ d : Fin 10, isBlank (digit d) = false := by decide
  have signs (sign : Sign) {c : Char} (member : c ∈ sign.chars) : isBlank c = false := by
    cases sign with
    | none => cases member
    | plus | minus =>
      rw [List.mem_singleton.mp member]
      rfl
  refine ⟨fun none => n.nonempty ?_, fun c member => ?_⟩
  · exact List.map_eq_nil_iff.mp (List.append_eq_nil_iff.mp none).2
  · rcases List.mem_append.mp member with inSign | inDigits
    · exact signs n.sign inSign
    · obtain ⟨d, -, rfl⟩ := List.mem_map.mp inDigits
      exact digits d

/-- A text spells one number at most. -/
theorem chars_injective : Function.Injective chars := by
  -- No sign is a digit, so the first character tells them apart.
  have other (c : Char) (noDigit : c.isDigit = false) (ds : List (Fin 10)) (cs : List Char) :
      ds.map digit ≠ c :: cs := by
    intro same
    cases ds with
    | nil => cases same
    | cons d later => exact digit_ne noDigit d (List.cons.inj same).1
  have digits : ∀ d e : Fin 10, digit d = digit e → d = e := by decide
  have equal {ds es : List (Fin 10)} (same : ds.map digit = es.map digit) : ds = es :=
    List.map_injective_iff.mpr (fun d e => digits d e) same
  rintro ⟨sign, ds, some⟩ ⟨sign', es, some'⟩ same
  rw [mk.injEq]
  cases sign <;> cases sign'
  case none.none => exact ⟨rfl, equal same⟩
  case plus.plus => exact ⟨rfl, equal (List.cons.inj same).2⟩
  case minus.minus => exact ⟨rfl, equal (List.cons.inj same).2⟩
  case none.plus => exact absurd same (other '+' rfl ds _)
  case none.minus => exact absurd same (other '-' rfl ds _)
  case plus.none => exact absurd same.symm (other '+' rfl es _)
  case minus.none => exact absurd same.symm (other '-' rfl es _)
  case plus.minus => cases same
  case minus.plus => cases same

/-- So a text is filled by one number at most. -/
theorem Fills.eq {m : Numeral} {text : String} (fills : n.Fills text) (others : m.Fills text) :
    n = m := by
  refine chars_injective ?_
  rw [← layout_nil_iff.mp fills, ← layout_nil_iff.mp others]

theorem Fills.toList_trim {text : String} (fills : n.Fills text) : (trim text).toList = n.chars := by
  rw [trim, String.toList_ofList, layout_nil_iff.mp fills]

theorem Fills.not_blank {text : String} (fills : n.Fills text) : ¬ Blank text.toList := by
  rw [← isEmpty_trim, String.isEmpty_iff, ← String.toList_eq_nil_iff, fills.toList_trim]
  exact n.isWord_chars.nonempty

end Numeral

end DeviceShell.Text
