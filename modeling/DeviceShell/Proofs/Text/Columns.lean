import DeviceShell.Text.Align
import Mathlib.Data.List.DropRight

/-! Texts set in columns. Each stands at one edge of its column and is found again between the
places where the column begins and ends. -/
namespace DeviceShell.Text

/-- A column of a table: the characters that it is wide, and whether texts stand at its right
edge. -/
structure Column where
  width : Nat
  right : Bool

namespace Column

def align (c : Column) (text : String) : String :=
  if c.right then alignRight c.width text else alignLeft c.width text

/-- Take off the spaces that fill a column up. -/
def strip (c : Column) (cs : List Char) : List Char :=
  if c.right then cs.dropWhile (· == ' ') else cs.rdropWhile (· == ' ')

/-- Texts in their columns, with a space between each two. -/
def rule (columns : List Column) (texts : List String) : String :=
  " ".intercalate (List.zipWith align columns texts)

/-- Cut a line at the places of the columns. Between each two the line has one character more. -/
def cut : List Column → List Char → List (List Char)
  | [], _ => []
  | c :: columns, cs => cs.take c.width :: cut columns (cs.drop (c.width + 1))

/-- What a line holds in the columns. -/
def cells (columns : List Column) (line : String) : List (List Char) :=
  List.zipWith strip columns (cut columns line.toList)

/-- Each text is as wide as its column at most. -/
def Fit (columns : List Column) (texts : List String) : Prop :=
  List.Forall₂ (fun c text => text.length ≤ c.width) columns texts

variable {c : Column} {text : String} {columns : List Column} {texts : List String} {cs : List Char}

theorem length_align (fits : text.length ≤ c.width) : (c.align text).length = c.width := by
  unfold align
  split
  · rw [length_alignRight, Nat.max_eq_left fits]
  · rw [length_alignLeft, Nat.max_eq_left fits]

theorem rule_singleton (c : Column) (text : String) : rule [c] [text] = c.align text := by
  simp [rule]

theorem rule_cons (c d : Column) (text other : String) (columns : List Column) (texts : List String) :
    rule (c :: d :: columns) (text :: other :: texts) =
      c.align text ++ " " ++ rule (d :: columns) (other :: texts) := by
  simp [rule]

/-- At the places of the columns the texts are found again. -/
theorem cut_rule (fit : Fit columns texts) :
    cut columns (rule columns texts).toList =
      List.zipWith (fun c text => (c.align text).toList) columns texts := by
  induction fit with
  | nil => rfl
  | @cons c text columns texts fits later ih =>
    have wide : (c.align text).toList.length = c.width := length_align fits
    cases later with
    | nil => rw [rule_singleton, cut, cut, List.take_of_length_le wide.le]; rfl
    | @cons d other columns texts _ _ =>
      have line : (rule (c :: d :: columns) (text :: other :: texts)).toList =
          (c.align text).toList ++ ' ' :: (rule (d :: columns) (other :: texts)).toList := by
        simp [rule_cons, show " ".toList = [' '] from rfl]
      rw [line, cut, List.take_left' wide, ← wide, List.drop_length_add_append, List.drop_one,
        List.tail_cons, ih]
      rfl

theorem length_rule (fit : Fit columns texts) (some : columns ≠ []) :
    (rule columns texts).length + 1 = columns.foldr (fun c total => c.width + 1 + total) 0 := by
  induction fit with
  | nil => exact absurd rfl some
  | @cons c text columns texts fits later ih =>
    rw [List.foldr_cons]
    cases later with
    | nil => rw [rule_singleton, length_align fits]; rfl
    | @cons d other columns texts _ _ =>
      rw [rule_cons, String.length_append, String.length_append, length_align fits,
        ← ih (List.cons_ne_nil _ _)]
      rfl

/-- A text comes out of its column as it would without one. -/
theorem strip_align (c : Column) (text : String) :
    c.strip (c.align text).toList = c.strip text.toList := by
  have spaces (count : Nat) : ∀ d ∈ List.replicate count ' ', (d == ' ') = true := by
    intro d member
    rw [List.eq_of_mem_replicate member]
    rfl
  unfold strip align
  cases c.right with
  | true =>
    rw [if_pos rfl, if_pos rfl, if_pos rfl, alignRight_eq, repeated, String.toList_append,
      String.toList_ofList, List.dropWhile_append_of_pos (spaces _)]
  | false =>
    rw [if_neg Bool.false_ne_true, if_neg Bool.false_ne_true, if_neg Bool.false_ne_true,
      alignLeft_eq, repeated, String.toList_append, String.toList_ofList, List.rdropWhile,
      List.reverse_append,
      List.reverse_replicate, List.dropWhile_append_of_pos (spaces _), List.rdropWhile]

/-- Without spaces there is nothing to take off. -/
theorem strip_of_solid (solid : ' ' ∉ cs) : c.strip cs = cs := by
  have other : ∀ d ∈ cs, ¬ (d == ' ') = true := by
    intro d member space
    rw [beq_iff_eq] at space
    exact solid (space ▸ member)
  unfold strip
  split
  · exact List.dropWhile_eq_self_iff.mpr fun some => other _ (List.getElem_mem _)
  · exact List.rdropWhile_eq_self_iff.mpr fun some => other _ (List.getLast_mem some)

theorem cells_rule (fit : Fit columns texts) :
    cells columns (rule columns texts) =
      List.zipWith (fun c text => c.strip text.toList) columns texts := by
  rw [cells, cut_rule fit]
  induction fit with
  | nil => rfl
  | cons _ _ ih => rw [List.zipWith_cons_cons, List.zipWith_cons_cons, List.zipWith_cons_cons, ih,
      strip_align]

end Column

end DeviceShell.Text
