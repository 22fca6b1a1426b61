import DeviceShell.Command.Table
import Mathlib.Data.List.Basic

/-! The command table as a map from names. Halving finds a name because the names stand in order,
and every call leaves them in order; what is found is what the last call about the name left
there. -/
namespace DeviceShell.Command

section Order

variable {a b c : String}

theorem not_precedes_self (a : String) : ¬ precedes a a := by
  simp [precedes]

theorem precedes_trans (first : precedes a b) (second : precedes b c) : precedes a c := by
  simp only [precedes, decide_eq_true_eq] at first second ⊢
  exact List.lt_trans first second

theorem ne_of_precedes (less : precedes a b) : a ≠ b := by
  rintro rfl
  exact not_precedes_self a less

/-- Of two names one precedes the other. -/
theorem precedes_of_ne (other : a ≠ b) (less : ¬ precedes b a) : precedes a b := by
  simp only [precedes, decide_eq_true_eq] at less ⊢
  refine Classical.byContradiction fun more => other (Text.encode_inj ?_)
  exact List.le_antisymm less more

end Order

namespace Table

/-- Each name precedes the next ones. -/
def Sorted (entries : List Entry) : Prop := entries.Pairwise fun a b => precedes a.name b.name

section Search

variable {name : String} {entries before behind : List Entry} {e entry : Entry} {slot : Slot}

theorem sorted_middle :
    Sorted (before ++ e :: behind) ↔
      Sorted (before ++ behind) ∧ (∀ a ∈ before, precedes a.name e.name) ∧
        ∀ a ∈ behind, precedes e.name a.name := by
  simp only [Sorted, List.pairwise_append, List.pairwise_cons, List.forall_mem_cons]
  constructor
  · rintro ⟨front, ⟨later, back⟩, across⟩
    exact ⟨⟨front, back, fun a member => (across a member).2⟩, fun a member => (across a member).1,
      later⟩
  · rintro ⟨⟨front, back, across⟩, earlier, later⟩
    exact ⟨front, ⟨later, back⟩, fun a member => ⟨earlier a member, across a member⟩⟩

/-- What a slot says about a name among entries. -/
inductive Found (name : String) : List Entry → Slot → Prop
  | taken (before : List Entry) (e : Entry) (behind : List Entry) : e.name = name →
      Found name (before ++ e :: behind) (.taken before.length)
  | vacant (before behind : List Entry) : (∀ e ∈ before, precedes e.name name) →
      (∀ e ∈ behind, precedes name e.name) →
      Found name (before ++ behind) (.vacant before.length)

theorem Found.append (found : Found name before slot)
    (later : ∀ e ∈ behind, precedes name e.name) : Found name (before ++ behind) slot := by
  cases found with
  | taken front e back same =>
    rw [List.append_assoc]
    exact .taken front e (back ++ behind) same
  | vacant front back earlier ahead =>
    rw [List.append_assoc]
    refine .vacant front (back ++ behind) earlier fun e member => ?_
    exact (List.mem_append.mp member).elim (ahead e) (later e)

theorem Found.prepend (found : Found name behind slot)
    (earlier : ∀ e ∈ before, precedes e.name name) :
    Found name (before ++ behind) (slot.shift before.length) := by
  cases found with
  | taken front e back same =>
    have place := Found.taken (before ++ front) e back same
    rwa [List.append_assoc, List.length_append, Nat.add_comm] at place
  | vacant front back ahead later =>
    have place := Found.vacant (before ++ front) back
      (fun e member => (List.mem_append.mp member).elim (earlier e) (ahead e)) later
    rwa [List.append_assoc, List.length_append, Nat.add_comm] at place

theorem halves (half : entries.drop (entries.length / 2) = e :: behind) :
    entries.take (entries.length / 2) ++ e :: behind = entries ∧
      (entries.take (entries.length / 2)).length = entries.length / 2 := by
  refine ⟨by rw [← half, List.take_append_drop], ?_⟩
  rw [List.length_take]
  omega

/-- Among sorted entries halving finds a name, or the place for it. -/
theorem found_search (sorted : Sorted entries) (name : String) :
    Found name entries (search name entries) := by
  -- Along the halving: what one half says of the name, the other half's names cannot contradict.
  fun_induction search name entries with
  | case1 entries half =>
    have short := congrArg List.length half
    rw [List.length_drop, List.length_nil] at short
    obtain rfl : entries = [] := List.eq_nil_of_length_eq_zero (by omega)
    exact .vacant [] [] (fun _ member => nomatch member) fun _ member => nomatch member
  | case2 entries e behind half same =>
    obtain ⟨split, long⟩ := halves half
    have place := Found.taken (entries.take (entries.length / 2)) e behind same
    rwa [split, long] at place
  | case3 entries e behind half other less ih =>
    obtain ⟨split, -⟩ := halves half
    rw [← split] at sorted
    obtain ⟨-, -, later⟩ := sorted_middle.mp sorted
    have place := (ih (List.pairwise_append.mp sorted).1).append
      (List.forall_mem_cons.mpr ⟨less, fun a member => precedes_trans less (later a member)⟩)
    rwa [split] at place
  | case4 entries e behind half other less ih =>
    obtain ⟨split, long⟩ := halves half
    rw [← split] at sorted
    obtain ⟨both, earlier, -⟩ := sorted_middle.mp sorted
    have more : precedes e.name name := precedes_of_ne other less
    have ahead : ∀ a ∈ entries.take (entries.length / 2) ++ [e], precedes a.name name := by
      intro a member
      rcases List.mem_append.mp member with front | middle
      · exact precedes_trans (earlier a front) more
      · rwa [List.mem_singleton.mp middle]
    have place := (ih (List.pairwise_append.mp both).2.1).prepend ahead
    rwa [List.append_assoc, List.singleton_append, split, List.length_append, long] at place

variable {t : Table} {other : Entry}

/-- A name stands for one entry. -/
theorem eq_of_name (sorted : Sorted entries) (member : e ∈ entries) (another : other ∈ entries)
    (same : other.name = e.name) : other = e := by
  obtain ⟨before, behind, rfl⟩ := List.append_of_mem member
  obtain ⟨-, earlier, later⟩ := sorted_middle.mp sorted
  rcases List.mem_append.mp another with front | back
  · exact absurd same (ne_of_precedes (earlier other front))
  · rcases List.mem_cons.mp back with eq | back
    · exact eq
    · exact absurd same.symm (ne_of_precedes (later other back))

/-- The entries around one of them are those with another name. -/
theorem mem_around (sorted : Sorted (before ++ e :: behind)) (other : Entry) :
    other ∈ before ++ behind ↔ other ∈ before ++ e :: behind ∧ other.name ≠ e.name := by
  obtain ⟨-, earlier, later⟩ := sorted_middle.mp sorted
  have front : other ∈ before → other.name ≠ e.name := fun member => ne_of_precedes (earlier _ member)
  have back : other ∈ behind → other.name ≠ e.name :=
    fun member => (ne_of_precedes (later _ member)).symm
  have middle : other.name ≠ e.name → other ≠ e := fun differ same => differ (congrArg _ same)
  simp only [List.mem_append, List.mem_cons]
  tauto

theorem get?_eq_some (sorted : Sorted t.entries) :
    t.get? name = some e ↔ e ∈ t.entries ∧ e.name = name := by
  obtain ⟨entries⟩ := t
  have found := found_search sorted name
  simp only [get?]
  generalize search name entries = slot at found ⊢
  cases found with
  | taken before held behind same =>
    have middle : held ∈ before ++ held :: behind := by simp
    have there : (before ++ held :: behind)[before.length]? = some held := by simp
    simp only [List.append_eq, there, Option.some.injEq]
    constructor
    · rintro rfl
      exact ⟨middle, same⟩
    · rintro ⟨member, alike⟩
      exact (eq_of_name sorted middle member (alike.trans same.symm)).symm
  | vacant before behind earlier later =>
    simp only [reduceCtorEq, false_iff]
    rintro ⟨member, rfl⟩
    rcases List.mem_append.mp member with front | back
    · exact not_precedes_self _ (earlier e front)
    · exact not_precedes_self _ (later e back)

theorem get?_eq_none (sorted : Sorted t.entries) :
    t.get? name = none ↔ ∀ e ∈ t.entries, e.name ≠ name := by
  rw [Option.eq_none_iff_forall_ne_some]
  simp only [ne_eq, get?_eq_some sorted, not_and]

theorem isSome_get? (sorted : Sorted t.entries) :
    (t.get? name).isSome ↔ ∃ e ∈ t.entries, e.name = name := by
  simp only [Option.isSome_iff_exists, get?_eq_some sorted]

theorem insertIdx_between (before behind : List Entry) (e : Entry) :
    (before ++ behind).insertIdx before.length e = before ++ e :: behind := by
  induction before with
  | nil => rfl
  | cons first later ih => simp [ih]

/-- An entry takes the place of the one that has its name; a new one comes where its name belongs,
if there is room. -/
theorem add_cases (sorted : Sorted t.entries) (entry : Entry) :
    (∃ before old behind, t.entries = before ++ old :: behind ∧ old.name = entry.name ∧
      t.add entry = .ok ⟨before ++ entry :: behind⟩) ∨
    ∃ before behind, t.entries = before ++ behind ∧ (∀ e ∈ before, precedes e.name entry.name) ∧
      (∀ e ∈ behind, precedes entry.name e.name) ∧
      t.add entry = if t.size < capacity then .ok ⟨before ++ entry :: behind⟩
        else .error .commandTableFull := by
  obtain ⟨entries⟩ := t
  have found := found_search sorted entry.name
  simp only [add]
  generalize search entry.name entries = slot at found ⊢
  cases found with
  | taken before old behind same =>
    refine .inl ⟨before, old, behind, rfl, same, ?_⟩
    simp [List.append_eq]
  | vacant before behind earlier later =>
    refine .inr ⟨before, behind, rfl, earlier, later, ?_⟩
    simp only [List.append_eq, insertIdx_between]
    rfl

theorem remove_cases (sorted : Sorted t.entries) (name : String) :
    (∃ before old behind, t.entries = before ++ old :: behind ∧ old.name = name ∧
      t.remove name = (true, ⟨before ++ behind⟩)) ∨
    (∀ e ∈ t.entries, e.name ≠ name) ∧ t.remove name = (false, t) := by
  obtain ⟨entries⟩ := t
  have found := found_search sorted name
  simp only [remove]
  generalize search name entries = slot at found ⊢
  cases found with
  | taken before old behind same =>
    refine .inl ⟨before, old, behind, rfl, same, ?_⟩
    simp [List.append_eq, List.eraseIdx_append_of_length_le]
  | vacant before behind earlier later =>
    refine .inr ⟨fun e member => ?_, rfl⟩
    rcases List.mem_append.mp member with front | back
    · exact ne_of_precedes (earlier e front)
    · exact (ne_of_precedes (later e back)).symm

end Search

end Table

end DeviceShell.Command
