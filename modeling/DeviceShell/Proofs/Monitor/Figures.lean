import DeviceShell.Proofs.Monitor.Table
import DeviceShell.Proofs.Text.Numerals

/-! The texts of tenths and of run times read back. Between a point or letters stand numbers, each
without a zero that could be left out, so each value has a text of its own. -/
namespace DeviceShell

namespace Text

/-- Digits that mean a number. The first of several is no zero. -/
structure Spells (cs : List Char) (n : Nat) : Prop where
  value : natural? cs = some n
  head : cs.head? = some '0' → cs = ['0']

theorem head?_toDigits_ne {n : Nat} (positive : n ≠ 0) : (Nat.toDigits 10 n).head? ≠ some '0' := by
  induction n using Nat.strongRecOn with
  | ind n ih =>
    by_cases single : n < 10
    · have digits : ∀ d < 10, d ≠ 0 → [Nat.digitChar d].head? ≠ some '0' := by decide
      rw [Nat.toDigits_of_lt_base single]
      exact digits n single positive
    · -- The first digit is the first of the tens, and these are fewer.
      have tens : n / 10 ≠ 0 := by omega
      have nonempty : Nat.toDigits 10 (n / 10) ≠ [] := Nat.toDigits_ne_nil
      rw [Nat.toDigits_of_base_le (by decide) (Nat.le_of_not_lt single),
        List.head?_append_of_ne_nil _ nonempty]
      exact ih (n / 10) (by omega) tens

theorem spells_decimal (n : Nat) : Spells (decimal n).toList n := by
  refine ⟨natural?_decimal n, fun zero => ?_⟩
  by_cases none : n = 0
  · rw [none]
    rfl
  · rw [decimal, Nat.toList_repr] at zero
    exact absurd zero (head?_toDigits_ne none)

/-- The number before a mark, and what stands behind it. -/
def upTo? (mark : Char) (cs : List Char) : Option (Nat × List Char) :=
  match cs.dropWhile (· ≠ mark) with
  | [] => none
  | _ :: later => (natural? (cs.takeWhile (· ≠ mark))).map fun n => (n, later)

theorem upTo?_append {mark : Char} {cs : List Char} {n : Nat} (other : mark.isDigit = false)
    (spells : Spells cs n) (later : List Char) :
    upTo? mark (cs ++ mark :: later) = some (n, later) := by
  have before : ∀ c ∈ cs, (decide (c ≠ mark)) = true := by
    obtain ⟨ds, -, rfl⟩ := exists_digits_of_natural? spells.value
    intro c member
    obtain ⟨d, -, rfl⟩ := List.mem_map.mp member
    exact decide_eq_true (digit_ne other d)
  have front : (cs ++ mark :: later).takeWhile (· ≠ mark) = cs := by
    rw [List.takeWhile_append_of_pos before]
    simp
  have rest : (cs ++ mark :: later).dropWhile (· ≠ mark) = mark :: later := by
    rw [List.dropWhile_append_of_pos before]
    simp
  simp only [upTo?, front, rest, spells.value, Option.map_some]

end Text

namespace Monitor

open Text

/-- Units, a point and a digit for the tenth. -/
def SpellsTenths (cs : List Char) (value : Nat) : Prop :=
  ∃ (units : List Char) (digit : Char) (n d : Nat), cs = units ++ '.' :: [digit] ∧
    Spells units n ∧ Spells [digit] d ∧ 10 * n + d = value

/-- Hours, and fewer than sixty minutes and seconds. -/
def SpellsUptime (cs : List Char) (value : Nat) : Prop :=
  ∃ (hours minutes seconds : List Char) (h m s : Nat),
    cs = hours ++ 'h' :: (minutes ++ 'm' :: (seconds ++ ['s'])) ∧
      Spells hours h ∧ Spells minutes m ∧ Spells seconds s ∧ m < 60 ∧ s < 60 ∧
      3600 * h + 60 * m + s = value

/-- The time that hours, minutes and seconds make up, each with its letter behind it. -/
def uptime? (cs : List Char) : Option Nat := do
  let (hours, cs) ← upTo? 'h' cs
  let (minutes, cs) ← upTo? 'm' cs
  let (seconds, cs) ← upTo? 's' cs
  if cs.isEmpty then some (3600 * hours + 60 * minutes + seconds) else none

theorem spellsTenths_tenths (value : UInt64) : SpellsTenths (tenths value).toList value.toNat := by
  have last := toList_decimal_of_lt (Nat.mod_lt value.toNat (by decide : 0 < 10))
  have digit := spells_decimal (value.toNat % 10)
  rw [last] at digit
  refine ⟨(decimal (value.toNat / 10)).toList, Nat.digitChar (value.toNat % 10), _, _, ?_,
    spells_decimal _, digit, Nat.div_add_mod _ 10⟩
  simp [tenths_eq, last, show ".".toList = ['.'] from rfl]

theorem spellsUptime_uptime (seconds : UInt64) :
    SpellsUptime (uptime seconds).toList seconds.toNat := by
  refine ⟨_, _, _, seconds.toNat / 3600, seconds.toNat / 60 % 60, seconds.toNat % 60, ?_,
    spells_decimal _, spells_decimal _, spells_decimal _, Nat.mod_lt _ (by decide),
    Nat.mod_lt _ (by decide), by omega⟩
  simp [uptime, show "h".toList = ['h'] from rfl, show "m".toList = ['m'] from rfl,
    show "s".toList = ['s'] from rfl]

theorem uptime?_of_spellsUptime {cs : List Char} {value : Nat} (spells : SpellsUptime cs value) :
    uptime? cs = some value := by
  obtain ⟨hours, minutes, seconds, h, m, s, rfl, front, middle, last, -, -, rfl⟩ := spells
  have hour := upTo?_append (rfl : 'h'.isDigit = false) front (minutes ++ 'm' :: (seconds ++ ['s']))
  have minute := upTo?_append (rfl : 'm'.isDigit = false) middle (seconds ++ ['s'])
  have second := upTo?_append (rfl : 's'.isDigit = false) last []
  simp [uptime?, hour, minute, second]

/-- Values that can be read off their texts have different ones. -/
theorem injective_of_read {text : UInt64 → String} {read : List Char → Option Nat}
    (back : ∀ value, read (text value).toList = some value.toNat) : Function.Injective text := by
  intro value other same
  have first := back value
  rw [same, back other] at first
  exact (UInt64.toNat_inj.mp (Option.some.inj first)).symm

/-- Numbers of tenths and run times are read off their texts. The room for tenths is never too
small, and a field in which they are displayed leaves nothing of them out unless it is told to. -/
theorem tenths_uptime_read :
    Function.Injective tenths ∧ Function.Injective uptime ∧ ∀ value : UInt64,
      (SpellsTenths (tenths value).toList value.toNat ∧
        tenths? (tenths value).toList = some value.toNat) ∧
      (tenths value = String.join (tenthsPieces value) ∧
        (tenths value).utf8ByteSize ≤ tenthsRoom) ∧
      (SpellsUptime (uptime value).toList value.toNat ∧
        uptime? (uptime value).toList = some value.toNat) ∧
      displayTenths {} value = tenths value ∧
      ∀ (place : Placement) (width : Nat) (fill : Char),
        let displayed := displayTenths { place := place, width := width, fill := fill } value
        displayed.length = max width (tenths value).length ∧
          (tenths value).toList <:+: displayed.toList := by
  have run (value : UInt64) : uptime? (uptime value).toList = some value.toNat :=
    uptime?_of_spellsUptime (spellsUptime_uptime value)
  refine ⟨injective_of_read tenths?_tenths, injective_of_read run, fun value =>
    ⟨⟨spellsTenths_tenths value, tenths?_tenths value⟩, ?_, ⟨spellsUptime_uptime value, run value⟩,
      displayTenths_plain value, fun _ _ _ => Field.whole_set rfl (tenths value)⟩⟩
  have fits := utf8ByteSize_join_tenthsPieces_le value
  have whole : tenths value = String.join (tenthsPieces value) := joinWhole_of_fits fits
  rw [whole]
  exact ⟨rfl, fits⟩

example : tenths 0xFFFFFFFFFFFFFFFF = "1844674407370955161.5" ∧ uptime 90000 = "25h0m0s" ∧
    displayTenths { place := .center, width := 6 } 5 = " 0.5  " := by decide +kernel

end Monitor

end DeviceShell
