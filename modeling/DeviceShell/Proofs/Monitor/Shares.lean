import DeviceShell.Command.Card
import Mathlib.Algebra.Order.Group.Nat

/-! Shares of a whole as numbers: what rounding down twice comes to, and what keeping 64 bits of a
quotient does to it. -/
namespace DeviceShell

namespace Monitor

variable {part less whole more : UInt64}

theorem permille_zero (part : UInt64) : permille part 0 = 0 := rfl

theorem toNat_permille (part : UInt64) (some : whole ≠ 0) :
    (permille part whole).toNat = 1000 * part.toNat / whole.toNat % 2 ^ 64 := by
  rw [permille, if_neg some, UInt64.toNat_ofNat', Nat.mul_comm]

theorem mul_div_le_of_le (count : Nat) (inside : part ≤ whole) :
    count * part.toNat / whole.toNat ≤ count := by
  have below : part.toNat ≤ whole.toNat := UInt64.le_iff_toNat_le.mp inside
  refine Nat.div_le_of_le_mul ?_
  rw [Nat.mul_comm]
  exact Nat.mul_le_mul_right count below

/-- Of a part the quotient has no more than 64 bits. -/
theorem toNat_permille_of_le (inside : part ≤ whole) :
    (permille part whole).toNat = 1000 * part.toNat / whole.toNat := by
  by_cases none : whole = 0
  · rw [none, permille_zero, UInt64.toNat_zero, Nat.div_zero]
  · have small : 1000 * part.toNat / whole.toNat < 2 ^ 64 :=
      Nat.lt_of_le_of_lt (mul_div_le_of_le 1000 inside) (by decide)
    rw [toNat_permille part none, Nat.mod_eq_of_lt small]

theorem permille_le_of_le (shrinks : less ≤ part) (inside : part ≤ whole) :
    permille less whole ≤ permille part whole := by
  have within : less ≤ whole := UInt64.le_trans shrinks inside
  have below : less.toNat ≤ part.toNat := UInt64.le_iff_toNat_le.mp shrinks
  rw [UInt64.le_iff_toNat_le, toNat_permille_of_le within, toNat_permille_of_le inside]
  exact Nat.div_le_div_right (Nat.mul_le_mul_left 1000 below)

theorem permille_le_of_whole_le (inside : part ≤ whole) (grows : whole ≤ more) :
    permille part more ≤ permille part whole := by
  have within : part ≤ more := UInt64.le_trans inside grows
  have above : whole.toNat ≤ more.toNat := UInt64.le_iff_toNat_le.mp grows
  rw [UInt64.le_iff_toNat_le, toNat_permille_of_le within, toNat_permille_of_le inside]
  by_cases none : whole.toNat = 0
  · -- Then there is no part either.
    have nothing : part.toNat = 0 :=
      Nat.le_zero.mp (none ▸ UInt64.le_iff_toNat_le.mp inside)
    rw [nothing, Nat.mul_zero, Nat.zero_div]
    exact Nat.zero_le _
  · exact Nat.div_le_div_left above (Nat.pos_of_ne_zero none)

/-- To round down to tenths of a percent and then to percents is to round down once. -/
theorem toNat_percent_of_le (inside : part ≤ whole) :
    (percent part whole).toNat = 100 * part.toNat / whole.toNat := by
  calc (percent part whole).toNat
      = 1000 * part.toNat / whole.toNat / 10 := by
        rw [percent, UInt64.toNat_div, toNat_permille_of_le inside]
        rfl
    _ = 10 * (100 * part.toNat) / (10 * whole.toNat) := by
        rw [Nat.div_div_eq_div_mul, ← Nat.mul_assoc, Nat.mul_comm 10 whole.toNat]
    _ = 100 * part.toNat / whole.toNat := Nat.mul_div_mul_left _ _ (by decide)

/-- A difference that stops at nothing is the one of natural numbers. -/
theorem toNat_sub_or_zero (first second : UInt64) :
    (if first < second then 0 else first - second).toNat = first.toNat - second.toNat := by
  split
  · rename_i behind
    have above : first.toNat < second.toNat := UInt64.lt_iff_toNat_lt.mp behind
    rw [UInt64.toNat_zero, Nat.sub_eq_zero_of_le (Nat.le_of_lt above)]
  · rename_i inside
    rw [UInt64.toNat_sub_of_le _ _ (UInt64.not_lt.mp inside)]

namespace Heap

theorem toNat_used (h : Heap) : h.used.toNat = h.total.toNat - h.free.toNat :=
  toNat_sub_or_zero h.total h.free

theorem used_le_total (h : Heap) : h.used ≤ h.total := by
  rw [UInt64.le_iff_toNat_le, toNat_used]
  exact Nat.sub_le _ _

end Heap

end Monitor

namespace Command.Card

open Monitor Text

theorem lines_append (picture earlier later : List String) :
    lines picture (earlier ++ later) =
      lines picture earlier ++ lines (picture.drop earlier.length) later := by
  induction earlier generalizing picture with
  | nil => rfl
  | cons fact earlier ih =>
    rw [List.cons_append, lines, ih, lines, List.length_cons, ← List.drop_tail]
    rfl

/-- The card is the same for every heap but for the numbers of the line about it. -/
theorem exists_render (device : Facts) (clock : UInt64) :
    ∃ above below, ∀ heap,
      render device heap clock = above ++ fact "Memory" (memory heap) ++ below := by
  let earlier := (facts device {} clock).take 7
  let later := (facts device {} clock).drop 8
  have split (heap : Heap) :
      facts device heap clock = earlier ++ fact "Memory" (memory heap) :: later := rfl
  let rest := picture.drop earlier.length
  refine ⟨String.join (lines picture earlier) ++ (Escape.accent ++
      alignLeft pictureWidth (rest.headD "")),
    "\r\n" ++ String.join (lines rest.tail later) ++ Escape.plain, fun heap => ?_⟩
  rw [render, split, lines_append, String.join_append, lines, String.join_cons]
  simp only [String.append_assoc]
  rfl

end Command.Card

namespace Monitor

open Text Command

/-- Tenths of a percent are rounded down, and only their last 64 bits are kept. Of a part of the
whole that is all of them: there are a thousand at most, more for a larger part and fewer of a
larger whole, and the percents made of them are rounded down from the part itself. So the memory in
use comes to a hundred percent at most on the card, whatever the heap tells. -/
theorem permille_rounds_down (part whole : UInt64) :
    (whole = 0 → permille part whole = 0) ∧
      (whole ≠ 0 → (permille part whole).toNat = 1000 * part.toNat / whole.toNat % 2 ^ 64) ∧
      (part ≤ whole →
        (permille part whole).toNat = 1000 * part.toNat / whole.toNat ∧
          permille part whole ≤ 1000 ∧
          (∀ less ≤ part, permille less whole ≤ permille part whole) ∧
          (∀ more, whole ≤ more → permille part more ≤ permille part whole) ∧
          (percent part whole).toNat = 100 * part.toNat / whole.toNat) ∧
      ∀ device clock, ∃ above below, ∀ heap : Heap, ∃ percents ≤ 100,
        percents = 100 * (heap.total.toNat - heap.free.toNat) / heap.total.toNat ∧
          Card.render device heap clock = above ++
            Card.fact "Memory" (decimal (heap.total.toNat - heap.free.toNat) ++ " / " ++
              decimal heap.total.toNat ++ " B (" ++ decimal percents ++ "%)") ++ below := by
  refine ⟨fun none => none ▸ permille_zero part, toNat_permille part, fun inside =>
    ⟨toNat_permille_of_le inside, ?_, fun _ shrinks => permille_le_of_le shrinks inside,
      fun _ grows => permille_le_of_whole_le inside grows, toNat_percent_of_le inside⟩,
    fun device clock => ?_⟩
  · rw [UInt64.le_iff_toNat_le, toNat_permille_of_le inside]
    exact mul_div_le_of_le 1000 inside
  · obtain ⟨above, below, shown⟩ := Card.exists_render device clock
    refine ⟨above, below, fun heap => ⟨_, ?_, rfl, ?_⟩⟩
    · rw [← heap.toNat_used]
      exact mul_div_le_of_le 100 heap.used_le_total
    · rw [shown, Card.memory, toNat_percent_of_le heap.used_le_total, heap.toNat_used]

/-- Five of nothing, so much of one that no bit is kept, two of three beside one of three and two of
four, and a heap with more free than there is. -/
theorem permille_rounds_down_two_of_three :
    permille 5 0 = 0 ∧ (permille 0x8000000000000000 1).toNat = 0 ∧
      (2 : UInt64) ≤ 3 ∧ (permille 2 3).toNat = 666 ∧ permille 2 3 ≤ 1000 ∧
      (percent 2 3).toNat = 66 ∧ permille 1 3 ≤ permille 2 3 ∧ permille 2 4 ≤ permille 2 3 ∧
      ∃ above below, Card.render {} { total := 3, free := 5 } 0 =
        above ++ Card.fact "Memory" "0 / 3 B (0%)" ++ below := by
  have inside : (2 : UInt64) ≤ 3 := by decide
  obtain ⟨-, -, part, card⟩ := permille_rounds_down 2 3
  obtain ⟨tenths, bounded, less, more, hundredths⟩ := part inside
  obtain ⟨above, below, shown⟩ := card {} 0
  obtain ⟨_, -, rfl, line⟩ := shown { total := 3, free := 5 }
  have wrapped := (permille_rounds_down 0x8000000000000000 1).2.1 (by decide)
  exact ⟨(permille_rounds_down 5 0).1 rfl, wrapped, inside, tenths, bounded, hundredths,
    less 1 (by decide), more 4 (by decide), above, below, line⟩

end Monitor

end DeviceShell
