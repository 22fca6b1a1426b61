import DeviceShell.Text.Align
import DeviceShell.Text.Numeral

/-! Text without controls, which a terminal shows character by character. -/
namespace DeviceShell.Text

/-- The characters that stand for no sign: the controls below the space, and those around 128. -/
def isControl (c : Char) : Bool := c.toNat < 32 || (127 ≤ c.toNat && c.toNat < 160)

/-- Text without controls. -/
def Printable (text : String) : Prop := ∀ c ∈ text.toList, isControl c = false

instance (text : String) : Decidable (Printable text) :=
  List.decidableBAll _ _

@[simp] theorem printable_append {a b : String} :
    Printable (a ++ b) ↔ Printable a ∧ Printable b := by
  simp only [Printable, String.toList_append, List.forall_mem_append]

theorem printable_singleton {c : Char} :
    Printable (String.singleton c) ↔ isControl c = false := by
  simp only [Printable, String.toList_singleton, List.forall_mem_singleton]

theorem isControl_of_isDigit {c : Char} (digit : c.isDigit = true) : isControl c = false := by
  simp only [Char.isDigit, Bool.and_eq_true, decide_eq_true_eq, UInt32.le_iff_toNat_le,
    ge_iff_le] at digit
  change 48 ≤ c.toNat ∧ c.toNat ≤ 57 at digit
  simp only [isControl, Bool.or_eq_false_iff, Bool.and_eq_false_iff, decide_eq_false_iff_not]
  omega

theorem printable_decimal (n : Nat) : Printable (decimal n) :=
  fun _ member => isControl_of_isDigit (isDigit_of_mem_decimal member)

theorem printable_repeated {c : Char} (sign : isControl c = false) (count : Nat) :
    Printable (repeated count c) := by
  intro d member
  rw [repeated, String.toList_ofList] at member
  rwa [List.eq_of_mem_replicate member]

theorem printable_alignLeft {width : Nat} {text : String} :
    Printable (alignLeft width text) ↔ Printable text := by
  have space : isControl ' ' = false := rfl
  rw [alignLeft_eq, printable_append, and_iff_left (printable_repeated space _)]

theorem printable_alignRight {width : Nat} {text : String} :
    Printable (alignRight width text) ↔ Printable text := by
  have space : isControl ' ' = false := rfl
  rw [alignRight_eq, printable_append, and_iff_right (printable_repeated space _)]

theorem printable_hexadecimal (count n : Nat) :
    Printable (String.ofList (hexadecimal count n)) := by
  have digits : ∀ d < 16, isControl (Nat.digitChar d) = false := by decide
  induction count generalizing n with
  | zero =>
    intro c member
    simp [hexadecimal] at member
  | succ count ih =>
    rw [hexadecimal, String.ofList_append, printable_append]
    refine ⟨ih _, fun c member => ?_⟩
    rw [String.toList_ofList, List.mem_singleton] at member
    rw [member]
    exact digits _ (Nat.mod_lt n (by decide))

end DeviceShell.Text
