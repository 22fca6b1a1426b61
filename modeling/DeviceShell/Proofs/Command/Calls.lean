import DeviceShell.Proofs.Command.Lookup

/-! The command table as a map from names. After any calls a name stands for the entry that the last
granted call about it left there, and the listings go through these entries in the order of
names. -/
namespace DeviceShell.Command

inductive Call where
  | add (entry : Entry)
  | remove (name : String)
  deriving DecidableEq, Repr

/-- Whether a call, granted or not, decides what its name stands for. A refused `add` decides
nothing. -/
def Call.Settles (name : String) : Call × Bool → Prop
  | (.add entry, granted) => granted = true ∧ entry.name = name
  | (.remove other, _) => other = name

/-- The latest granted `add` of its name was of this entry, and no `remove` of the name came
later. -/
def Call.Stands (e : Entry) (log : List (Call × Bool)) : Prop :=
  ∃ earlier later, log = earlier ++ (.add e, true) :: later ∧
    ∀ call ∈ later, ¬ Call.Settles e.name call

theorem Call.stands_snoc {e : Entry} {log : List (Call × Bool)} {call : Call × Bool} :
    Stands e (log ++ [call]) ↔ call = (.add e, true) ∨ Stands e log ∧ ¬ Settles e.name call := by
  constructor
  · rintro ⟨earlier, later, eq, unsettled⟩
    rcases later.eq_nil_or_concat' with rfl | ⟨later, last, rfl⟩
    · exact .inl (List.cons.inj (List.append_inj' eq rfl).2).1
    · rw [← List.cons_append, ← List.append_assoc] at eq
      obtain ⟨logs, lasts⟩ := List.append_inj' eq rfl
      obtain rfl := (List.cons.inj lasts).1
      obtain ⟨before, at_end⟩ := List.forall_mem_append.mp unsettled
      exact .inr ⟨⟨earlier, later, logs, before⟩, at_end call List.mem_cons_self⟩
  · rintro (rfl | ⟨⟨earlier, later, rfl, unsettled⟩, open_still⟩)
    · exact ⟨log, [], rfl, fun _ member => nomatch member⟩
    · refine ⟨earlier, later ++ [call], by simp, ?_⟩
      exact List.forall_mem_append.mpr ⟨unsettled, fun c member =>
        List.mem_singleton.mp member ▸ open_still⟩

namespace Table

/-- Whether a call is granted, and the table after it. -/
def call (t : Table) : Call → Bool × Table
  | .add entry =>
    match t.add entry with
    | .ok next => (true, next)
    | .error _ => (false, t)
  | .remove name => t.remove name

def after (t : Table) (calls : List Call) : Table := calls.foldl (fun t c => (t.call c).2) t

/-- The calls, each with whether it was granted. -/
def answered (t : Table) : List Call → List (Call × Bool)
  | [] => []
  | c :: later => (c, (t.call c).1) :: (t.call c).2.answered later

section Calls

variable {t next : Table} {entry e : Entry} {name : String} {log : List (Call × Bool)}

theorem after_append (t : Table) (earlier later : List Call) :
    t.after (earlier ++ later) = (t.after earlier).after later :=
  List.foldl_append ..

/-- Adding entries in turn is making the calls that add them. -/
theorem addAll_eq (entries : List Entry) (t : Table) :
    addAll entries t = t.after (entries.map .add) := by
  simp only [addAll, after, List.foldl_map]
  congr
  funext t e
  simp only [call]
  cases t.add e <;> rfl

/-- What a granted `add` does to sorted entries. -/
structure Added (entry : Entry) (t next : Table) : Prop where
  sorted : Sorted next.entries
  mem : ∀ e, e ∈ next.entries ↔ e = entry ∨ e ∈ t.entries ∧ e.name ≠ entry.name
  size : next.size ≤ max t.size capacity

theorem mem_placed {before behind : List Entry} :
    e ∈ before ++ entry :: behind ↔ e = entry ∨ e ∈ before ++ behind := by
  simp only [List.mem_append, List.mem_cons]
  tauto

theorem added_or_full (sorted : Sorted t.entries) (entry : Entry) :
    (∃ next, t.add entry = .ok next ∧ Added entry t next) ∧
        (t.size < capacity ∨ ∃ e ∈ t.entries, e.name = entry.name) ∨
      t.add entry = .error .commandTableFull ∧ capacity ≤ t.size ∧
        ∀ e ∈ t.entries, e.name ≠ entry.name := by
  rcases add_cases sorted entry with
    ⟨before, old, behind, held, same, eq⟩ | ⟨before, behind, held, earlier, later, eq⟩
  · rw [held] at sorted
    have around := mem_around sorted
    obtain ⟨both, earlier, later⟩ := sorted_middle.mp sorted
    simp only [same] at earlier later around
    have long : (before ++ entry :: behind).length = t.size := by simp [size, held]
    refine .inl ⟨⟨_, eq, sorted_middle.mpr ⟨both, earlier, later⟩, fun e => ?_, ?_⟩, .inr ⟨old, ?_⟩⟩
    · rw [held, ← around e, mem_placed]
    · exact Nat.le_trans (Nat.le_of_eq long) (Nat.le_max_left ..)
    · exact ⟨held ▸ List.mem_append_right _ List.mem_cons_self, same⟩
  · rw [held] at sorted
    have placed := sorted_middle.mpr ⟨sorted, earlier, later⟩
    have absent : ∀ e ∈ t.entries, e.name ≠ entry.name := by
      intro e member
      rw [held] at member
      exact ((mem_around placed e).mp member).2
    split at eq
    next room =>
      refine .inl ⟨⟨_, eq, placed, fun e => ?_, ?_⟩, .inl room⟩
      · rw [mem_placed, ← held, and_iff_left_of_imp (absent e)]
      · simp only [size, held, List.length_append, List.length_cons] at room ⊢
        omega
    next full => exact .inr ⟨eq, Nat.le_of_not_lt full, absent⟩

theorem Added.get? (added : Added entry t next) (sorted : Sorted t.entries) (name : String) :
    next.get? name = if name = entry.name then some entry else t.get? name := by
  ext e
  rw [get?_eq_some added.sorted, added.mem]
  split
  next same =>
    subst same
    rw [Option.some.injEq]
    constructor
    · rintro ⟨rfl | ⟨-, differ⟩, same⟩
      · rfl
      · exact absurd same differ
    · rintro rfl
      exact ⟨.inl rfl, rfl⟩
  next differ =>
    rw [get?_eq_some sorted]
    constructor
    · rintro ⟨rfl | ⟨member, -⟩, rfl⟩
      · exact absurd rfl differ
      · exact ⟨member, rfl⟩
    · rintro ⟨member, rfl⟩
      exact ⟨.inr ⟨member, differ⟩, rfl⟩

/-- An `add` is granted, unless the name is new and the table full. -/
theorem add_full (sorted : Sorted t.entries) (fits : t.size ≤ capacity) :
    t.add entry = .error .commandTableFull ↔ t.get? entry.name = none ∧ t.size = capacity := by
  rw [get?_eq_none sorted]
  rcases added_or_full sorted entry with ⟨⟨next, eq, -⟩, room⟩ | ⟨eq, full, absent⟩
  · rw [eq]
    refine iff_of_false (nomatch ·) fun ⟨absent, size⟩ => ?_
    rcases room with room | ⟨e, member, same⟩
    · exact Nat.ne_of_lt room size
    · exact absent e member same
  · exact iff_of_true eq ⟨absent, Nat.le_antisymm fits full⟩

theorem added_of_add (sorted : Sorted t.entries) (granted : t.add entry = .ok next) :
    Added entry t next := by
  rcases added_or_full sorted entry with ⟨⟨other, eq, added⟩, -⟩ | ⟨eq, -, -⟩
  · exact Except.ok.inj (eq.symm.trans granted) ▸ added
  · cases eq.symm.trans granted

theorem error_of_add (sorted : Sorted t.entries) {failure : Failure}
    (refused : t.add entry = .error failure) : failure = .commandTableFull := by
  rcases added_or_full sorted entry with ⟨⟨next, eq, -⟩, -⟩ | ⟨eq, -, -⟩
  · cases eq.symm.trans refused
  · exact (Except.error.inj (eq.symm.trans refused)).symm

/-- What `remove` does to sorted entries. -/
structure Removed (name : String) (t : Table) (result : Bool × Table) : Prop where
  sorted : Sorted result.2.entries
  mem : ∀ e, e ∈ result.2.entries ↔ e ∈ t.entries ∧ e.name ≠ name
  size : result.2.size ≤ t.size
  answer : result.1 = true ↔ ∃ e ∈ t.entries, e.name = name

theorem removed (sorted : Sorted t.entries) (name : String) : Removed name t (t.remove name) := by
  rcases remove_cases sorted name with ⟨before, old, behind, held, rfl, eq⟩ | ⟨absent, eq⟩
  · rw [held] at sorted
    rw [eq]
    refine ⟨(sorted_middle.mp sorted).1, fun e => held ▸ mem_around sorted e,
      by simp [size, held], ?_⟩
    exact iff_of_true rfl ⟨old, held ▸ List.mem_append_right _ List.mem_cons_self, rfl⟩
  · rw [eq]
    refine ⟨sorted, fun e => (and_iff_left_of_imp (absent e)).symm, Nat.le_refl _, ?_⟩
    exact iff_of_false Bool.false_ne_true fun ⟨e, member, same⟩ => absent e member same

theorem Removed.get? {result : Bool × Table} (removed : Removed name t result)
    (sorted : Sorted t.entries) (other : String) :
    result.2.get? other = if other = name then none else t.get? other := by
  ext e
  rw [get?_eq_some removed.sorted, removed.mem]
  split
  next same =>
    subst same
    exact iff_of_false (fun ⟨⟨_, differ⟩, same⟩ => differ same) (nomatch ·)
  next differ =>
    rw [get?_eq_some sorted]
    constructor
    · rintro ⟨⟨member, -⟩, same⟩
      exact ⟨member, same⟩
    · rintro ⟨member, rfl⟩
      exact ⟨⟨member, differ⟩, rfl⟩

theorem mem_labels (sorted : Sorted t.entries) (label : Label) :
    label ∈ t.labels ↔ ∃ e, t.get? label.text = some e ∧ e.hidden = label.hidden := by
  simp only [labels, List.mem_map, get?_eq_some sorted]
  constructor
  · rintro ⟨e, member, rfl⟩
    exact ⟨e, ⟨member, rfl⟩, rfl⟩
  · rintro ⟨e, ⟨member, text⟩, hidden⟩
    exact ⟨e, member, by rw [text, hidden]⟩

/-- A table holds what the calls so far let stand. -/
structure Holds (log : List (Call × Bool)) (t : Table) : Prop where
  sorted : Sorted t.entries
  fits : t.size ≤ capacity
  mem : ∀ e, e ∈ t.entries ↔ Call.Stands e log

theorem Holds.call (holds : Holds log t) (c : Call) :
    Holds (log ++ [(c, (t.call c).1)]) (t.call c).2 := by
  cases c with
  | add entry =>
    rcases added_or_full holds.sorted entry with ⟨⟨next, eq, added⟩, -⟩ | ⟨eq, -, -⟩
    · simp only [Table.call, eq]
      refine ⟨added.sorted, Nat.le_trans added.size (Nat.max_le.mpr ⟨holds.fits, Nat.le_refl _⟩),
        fun e => ?_⟩
      rw [added.mem, Call.stands_snoc, holds.mem, ne_comm, @eq_comm _ e]
      simp [Call.Settles]
    · simp only [Table.call, eq]
      refine ⟨holds.sorted, holds.fits, fun e => ?_⟩
      rw [Call.stands_snoc, holds.mem]
      simp [Call.Settles]
  | remove name =>
    obtain ⟨sorted, mem, size, -⟩ := removed holds.sorted name
    refine ⟨sorted, Nat.le_trans size holds.fits, fun e => ?_⟩
    refine (mem e).trans ?_
    rw [Call.stands_snoc, holds.mem, ne_comm]
    simp [Call.Settles]

theorem Holds.after (holds : Holds log t) (calls : List Call) :
    Holds (log ++ t.answered calls) (t.after calls) := by
  induction calls generalizing log t with
  | nil => exact (List.append_nil log).symm ▸ holds
  | cons c later ih =>
    have both := ih (holds.call c)
    rwa [List.append_assoc] at both

end Calls

/-- A table as a map from names: what it finds, what each operation does to that, and what the
listings go through. -/
structure Mapped (log : List (Call × Bool)) (t : Table) : Prop where
  sorted : t.entries.Pairwise fun a b => precedes a.name b.name
  fits : t.size ≤ capacity
  get : ∀ name e, t.get? name = some e ↔ e.name = name ∧ Call.Stands e log
  full : ∀ entry, t.add entry = .error .commandTableFull ↔
    t.get? entry.name = none ∧ t.size = capacity
  unchanged : ∀ entry failure, t.add entry = .error failure →
    failure = .commandTableFull ∧ t.call (.add entry) = (false, t)
  replaced : ∀ entry, (t.get? entry.name).isSome → ∃ next, t.add entry = .ok next
  added : ∀ entry next, t.add entry = .ok next →
    ∀ name, next.get? name = if name = entry.name then some entry else t.get? name
  removed : ∀ name, (t.remove name).1 = (t.get? name).isSome ∧
    ∀ other, (t.remove name).2.get? other = if other = name then none else t.get? other
  listed : ∀ e, e ∈ t.entries ↔ t.get? e.name = some e
  labelled : ∀ label, label ∈ t.labels ↔ ∃ e, t.get? label.text = some e ∧ e.hidden = label.hidden
  labels : t.labels.Pairwise fun a b => precedes a.text b.text

theorem Holds.mapped {log : List (Call × Bool)} {t : Table} (holds : Holds log t) :
    Mapped log t where
  sorted := holds.sorted
  fits := holds.fits
  get name e := by rw [get?_eq_some holds.sorted, holds.mem, and_comm]
  full entry := add_full holds.sorted holds.fits
  unchanged entry failure refused :=
    ⟨error_of_add holds.sorted refused, by simp only [Table.call, refused]⟩
  replaced entry present := by
    cases result : t.add entry with
    | ok next => exact ⟨next, rfl⟩
    | error failure =>
      obtain rfl := error_of_add holds.sorted result
      rw [((add_full holds.sorted holds.fits).mp result).1] at present
      cases present
  added entry next granted := (added_of_add holds.sorted granted).get? holds.sorted
  removed name := by
    have removed := removed holds.sorted name
    refine ⟨?_, removed.get? holds.sorted⟩
    rw [Bool.eq_iff_iff, removed.answer, isSome_get? holds.sorted]
  listed e := by rw [get?_eq_some holds.sorted, and_iff_left rfl]
  labelled := mem_labels holds.sorted
  labels := List.pairwise_map.mpr holds.sorted

theorem holds_after (preset : List Entry) (calls : List Call) :
    Holds (answered {} (preset.map .add ++ calls)) ((addAll preset {}).after calls) := by
  have empty : Holds [] {} := by
    refine ⟨List.Pairwise.nil, Nat.zero_le _, fun e => iff_of_false List.not_mem_nil ?_⟩
    rintro ⟨earlier, later, eq, -⟩
    simp at eq
  rw [addAll_eq, ← after_append]
  exact empty.after _

/-- Calls on a table of preset entries: none for an empty table, `builtins` for the standard one. -/
theorem mapped_after (preset : List Entry) (calls : List Call) :
    Mapped (answered {} (preset.map .add ++ calls)) ((addAll preset {}).after calls) :=
  (holds_after preset calls).mapped

end Table

end DeviceShell.Command
