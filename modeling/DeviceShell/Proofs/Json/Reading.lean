import DeviceShell.Json.Lexer
import Mathlib.Tactic.IntervalCases

/-! What the lexer makes of the spelling of tokens. A token that ends with its last character leaves
the lexer between tokens. A number only ends with the character behind it, which must not be one
that numbers go on with. -/
namespace DeviceShell.Json

/-- Characters that no number goes on with. -/
def delimits (c : Char) : Bool :=
  !(c.isDigit || c = '.' || c = 'e' || c = 'E' || c = '+' || c = '-')

namespace Lexer

/-- Between tokens, behind these. -/
def behind (tokens : List Token) : Lexer := { tokens := tokens.reverse }

/-- Some characters more. -/
def read (cs : List Char) (l : Lexer) : Option Lexer := cs.foldlM step l

/-- Like a lexer between tokens to whatever may end a number, and to the end of the text. -/
structure Settled (tokens : List Token) (l : Lexer) : Prop where
  step {c : Char} : delimits c = true → l.step c = (behind tokens).step c
  finish : l.finish = some tokens

variable {l : Lexer} {tokens : List Token}

theorem read_append (first second : List Char) (l : Lexer) :
    l.read (first ++ second) = (l.read first).bind (read second) :=
  List.foldlM_append

theorem read_cons (c : Char) (cs : List Char) (l : Lexer) :
    l.read (c :: cs) = (l.step c).bind (read cs) :=
  List.foldlM_cons

theorem settled_behind (tokens : List Token) : (behind tokens).Settled tokens :=
  ⟨fun _ => rfl, congrArg some tokens.reverse_reverse⟩

theorem next?_of_delimits {c : Char} (delimiter : delimits c = true) (place : NumberPlace) :
    place.next? c = none := by
  simp only [delimits, Bool.not_eq_true', Bool.or_eq_false_iff, decide_eq_false_iff_not] at delimiter
  obtain ⟨⟨⟨⟨⟨digit, point⟩, small⟩, large⟩, plus⟩, minus⟩ := delimiter
  have zero : c ≠ '0' := by
    rintro rfl
    exact Bool.noConfusion digit
  cases place <;> simp [NumberPlace.next?, digit, point, small, large, plus, minus, zero]

/-- A number that may end here. -/
theorem settled_number {place : NumberPlace} {natural : Option Nat} (ends : place.isEnd = true) :
    ({ mode := .number place natural, tokens := tokens.reverse } : Lexer).Settled
      (tokens ++ [.scalar (.number natural)]) where
  step {c} delimiter := by
    simp [Lexer.step, next?_of_delimits delimiter, ends, behind, emit]
  finish := by
    simp [Lexer.finish, ends, emit]

end Lexer

open Lexer

/-- Characters that are read as these tokens, with nothing left to be decided. -/
def Cut (cs : List Char) (tokens : List Token) : Prop :=
  ∀ before, (behind before).read cs = some (behind (before ++ tokens))

/-- Characters that are read as these tokens, if no number goes on behind them. -/
def Spelled (cs : List Char) (tokens : List Token) : Prop :=
  ∀ before, ∃ l, (behind before).read cs = some l ∧ l.Settled (before ++ tokens)

variable {cs ds : List Char} {c : Char} {first second tokens : List Token}

theorem Cut.spelled (cut : Cut cs tokens) : Spelled cs tokens :=
  fun before => ⟨_, cut before, settled_behind _⟩

theorem cut_nil : Cut [] [] := fun before => by
  rw [List.append_nil]
  rfl

theorem Cut.append (one : Cut cs first) (other : Cut ds second) :
    Cut (cs ++ ds) (first ++ second) := fun before => by
  rw [read_append, one, Option.bind_some, other, List.append_assoc]

theorem Cut.append_spelled (one : Cut cs first) (other : Spelled ds second) :
    Spelled (cs ++ ds) (first ++ second) := fun before => by
  obtain ⟨l, read, settled⟩ := other (before ++ first)
  rw [List.append_assoc] at settled
  exact ⟨l, by rw [read_append, one, Option.bind_some, read], settled⟩

theorem Spelled.append_cut (one : Spelled cs first) (delimiter : delimits c = true)
    (other : Cut (c :: ds) second) : Cut (cs ++ c :: ds) (first ++ second) := fun before => by
  obtain ⟨l, read, settled⟩ := one before
  have rest := other (before ++ first)
  rw [read_cons] at rest
  rw [read_append, read, Option.bind_some, read_cons, settled.step delimiter, rest, List.append_assoc]

theorem tokens?_of_spelled {text : String} (spelled : Spelled text.toList tokens) :
    tokens? text = some tokens := by
  obtain ⟨l, read, settled⟩ := spelled []
  have started : text.toList.foldlM Lexer.step {} = some l := read
  rw [tokens?, started, Option.bind_some, settled.finish, List.nil_append]

theorem emit_behind (token : Token) (before : List Token) :
    (behind before).emit token = behind (before ++ [token]) := by
  simp [behind, emit]

/-- Brackets, commas and colons. -/
theorem cut_mark {token : Token} (mark : Token.ofChar? c = some token) : Cut [c] [token] := by
  intro before
  have started : (behind before).step c = some ((behind before).emit token) := by
    unfold Token.ofChar? at mark
    repeat' split at mark
    all_goals
      cases mark <;> subst_vars <;> rfl
  rw [read_cons, started, emit_behind]
  rfl

theorem delimits_of_mark {token : Token} (mark : Token.ofChar? c = some token) :
    delimits c = true := by
  unfold Token.ofChar? at mark
  repeat' split at mark
  all_goals
    cases mark <;> subst_vars <;> rfl

/-- A mark ends whatever stands in front of it. -/
theorem Spelled.append_mark {token : Token} (one : Spelled cs first)
    (mark : Token.ofChar? c = some token) (other : Spelled ds second) :
    Spelled (cs ++ c :: ds) (first ++ token :: second) := by
  have ended : Cut (cs ++ [c]) (first ++ [token]) :=
    one.append_cut (delimits_of_mark mark) (cut_mark mark)
  simpa only [List.append_assoc, List.singleton_append] using ended.append_spelled other

section Numbers

theorem next?_whole {c : Char} (digit : c.isDigit = true) :
    NumberPlace.whole.next? c = some .whole := by
  simp [NumberPlace.next?, digit]

theorem grow_digit {n : Nat} (below : n < UInt64.size) :
    grow (Nat.digitChar (n % 10)) .whole (some (n / 10)) = some n := by
  have values : ∀ d < 10, (Nat.digitChar d).toNat - '0'.toNat = d := by decide
  have digit := values (n % 10) (Nat.mod_lt n (by decide))
  simp only [grow, if_true, Text.growBelow, Option.map_some, digit, Nat.div_add_mod]
  exact Option.filter_some_pos (by simpa using below)

/-- The digits of a number that is not zero. -/
theorem read_toDigits {n : Nat} (positive : 0 < n) (below : n < UInt64.size)
    (before : List Token) :
    (behind before).read (Nat.toDigits 10 n) =
      some { mode := .number .whole (some n), tokens := before.reverse } := by
  induction n using Nat.strongRecOn with
  | _ n ih =>
    rcases Nat.lt_or_ge n 10 with short | long
    · interval_cases n <;> rfl
    · have digit : (Nat.digitChar (n % 10)).isDigit = true := by
        rw [Nat.isDigit_digitChar, decide_eq_true_eq]
        exact Nat.mod_lt n (by decide)
      rw [Nat.toDigits_of_base_le (by decide) long, read_append,
        ih (n / 10) (by omega) (by omega) (by omega), Option.bind_some, read_cons]
      simp only [step, next?_whole digit, grow_digit below]
      rfl

theorem spelled_decimal {n : Nat} (below : n < UInt64.size) :
    Spelled (Text.decimal n).toList [.scalar (.number (some n))] := by
  intro before
  have digits : (Text.decimal n).toList = Nat.toDigits 10 n := by simp [Text.decimal]
  rw [digits]
  rcases Nat.eq_zero_or_pos n with rfl | positive
  · exact ⟨{ mode := .number .zero (some 0), tokens := before.reverse }, rfl, settled_number rfl⟩
  · exact ⟨_, read_toDigits positive below before, settled_number rfl⟩

end Numbers

end DeviceShell.Json
