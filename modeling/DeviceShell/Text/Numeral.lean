/-! Reading and writing whole numbers in base ten and sixteen. -/

namespace DeviceShell.Text

/-- A number in base ten, without leading zeros. -/
def decimal (n : Nat) : String := Nat.repr n

/-- The value of a text that is one or more ASCII digits. -/
def natural? (cs : List Char) : Option Nat :=
  if cs.isEmpty || !cs.all Char.isDigit then none else some (Nat.ofDigitChars 10 cs 0)

/-- A number with one more digit, as long as it stays below a bound. -/
def growBelow (bound : Nat) (n : Option Nat) (c : Char) : Option Nat :=
  (n.map fun n => 10 * n + (c.toNat - '0'.toNat)).filter fun n => n < bound

/-- The value of a text that is one or more ASCII digits, if it is below a bound. However many
digits there are, no number beyond the bound is worked with. -/
def naturalBelow? (bound : Nat) (cs : List Char) : Option Nat :=
  if cs.isEmpty || !cs.all Char.isDigit then none else cs.foldl (growBelow bound) (some 0)

/-- The value of digits that may follow one sign, if a signed number of 64 bits can hold it. -/
def signed64? : List Char → Option Int
  | '-' :: cs => (naturalBelow? (UInt64.size / 2 + 1) cs).map fun n => -(n : Int)
  | '+' :: cs => (naturalBelow? (UInt64.size / 2) cs).map Int.ofNat
  | cs => (naturalBelow? (UInt64.size / 2) cs).map Int.ofNat

def hexDigit (n : Nat) : Char := Nat.digitChar (n % 16)

/-- The last `count` base-sixteen digits of a number, with leading zeros. -/
def hexadecimal : Nat → Nat → List Char
  | 0, _ => []
  | count + 1, n => hexadecimal count (n / 16) ++ [hexDigit n]

/-- A number that has passed the bound does not come back below it. -/
theorem growBelow_filter (bound n : Nat) (c : Char) :
    growBelow bound ((some n).filter fun n => n < bound) c =
      (some (10 * n + (c.toNat - '0'.toNat))).filter fun n => n < bound := by
  by_cases below : n < bound
  · rw [Option.filter_some_pos (by simpa using below)]
    rfl
  · have past : ¬ 10 * n + (c.toNat - '0'.toNat) < bound := by omega
    rw [Option.filter_some_neg (by simpa using below), Option.filter_some_neg (by simpa using past)]
    rfl

theorem foldl_growBelow (bound n : Nat) (cs : List Char) :
    cs.foldl (growBelow bound) ((some n).filter fun n => n < bound) =
      (some (Nat.ofDigitChars 10 cs n)).filter fun n => n < bound := by
  induction cs generalizing n with
  | nil => rw [List.foldl_nil, Nat.ofDigitChars_nil]
  | cons c cs ih => rw [List.foldl_cons, growBelow_filter, ih, Nat.ofDigitChars_cons]

/-- The bound only leaves numbers out. -/
theorem naturalBelow?_eq (bound : Nat) (cs : List Char) :
    naturalBelow? bound cs = (natural? cs).filter fun n => n < bound := by
  cases cs with
  | nil => rfl
  | cons c cs =>
    have first : growBelow bound (some 0) c =
      (some (10 * 0 + (c.toNat - '0'.toNat))).filter fun n => n < bound := rfl
    rw [naturalBelow?, natural?, List.foldl_cons, first, foldl_growBelow, ← Nat.ofDigitChars_cons]
    split <;> rfl

theorem natural?_decimal (n : Nat) : natural? (decimal n).toList = some n := by
  have digits : (Nat.toDigits 10 n).all Char.isDigit = true :=
    List.all_eq_true.mpr fun _ h => Nat.isDigit_of_mem_toDigits (by decide) (by decide) h
  simp [natural?, decimal, digits]

theorem toList_decimal_of_lt {n : Nat} (single : n < 10) :
    (decimal n).toList = [Nat.digitChar n] := by
  rw [decimal, Nat.toList_repr, Nat.toDigits_of_lt_base single]

theorem isDigit_of_mem_decimal {c : Char} {n : Nat} (h : c ∈ (decimal n).toList) :
    c.isDigit = true := by
  rw [decimal, Nat.toList_repr] at h
  exact Nat.isDigit_of_mem_toDigits (by decide) (by decide) h

theorem notMem_decimal {c : Char} (other : c.isDigit = false) (n : Nat) :
    c ∉ (decimal n).toList :=
  fun member => Bool.noConfusion ((isDigit_of_mem_decimal member).symm.trans other)

/-- Each digit takes one byte. -/
theorem utf8ByteSize_ofList_of_digits {digits : List Char}
    (all : ∀ c ∈ digits, c.isDigit = true) :
    (String.ofList digits).utf8ByteSize = digits.length := by
  induction digits with
  | nil => rfl
  | cons c later ih =>
    obtain ⟨digit, rest⟩ := List.forall_mem_cons.mp all
    have narrow : c.utf8Size = 1 := by
      simp only [Char.isDigit, Bool.and_eq_true, decide_eq_true_eq] at digit
      exact Char.utf8Size_eq_one_iff.mpr (UInt32.le_trans digit.2 (by decide))
    rw [String.ofList_cons, String.utf8ByteSize_append, String.utf8ByteSize_singleton, narrow, ih rest,
      List.length_cons, Nat.add_comm]

theorem utf8ByteSize_decimal (n : Nat) :
    (decimal n).utf8ByteSize = (Nat.toDigits 10 n).length :=
  utf8ByteSize_ofList_of_digits fun _ member =>
    Nat.isDigit_of_mem_toDigits (by decide) (by decide) member

/-- A machine word has twenty digits at most. -/
theorem utf8ByteSize_decimal_le {n : Nat} (small : n < UInt64.size) :
    (decimal n).utf8ByteSize ≤ 20 := by
  rw [utf8ByteSize_decimal]
  exact (Nat.length_toDigits_le_iff (by decide) (by decide)).mpr
    (Nat.lt_trans small (by decide))

end DeviceShell.Text
