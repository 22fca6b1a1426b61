import DeviceShell.Text.Blank
import Mathlib.Data.List.DropRight
import Mathlib.Data.List.Induction

/-! Words with blanks around them. However the blanks lie, a line comes apart into the same first
words and the same remainder. -/
namespace DeviceShell.Text

/-- Nothing but blanks. -/
def Blank (cs : List Char) : Prop := ∀ c ∈ cs, isBlank c = true

theorem blank_nil : Blank [] := fun _ member => nomatch member

/-- One or more characters, none of them blank. -/
structure IsWord (cs : List Char) : Prop where
  nonempty : cs ≠ []
  solid : ∀ c ∈ cs, isBlank c = false

instance (cs : List Char) : Decidable (IsWord cs) :=
  decidable_of_iff (cs ≠ [] ∧ cs.all (fun c => !isBlank c) = true)
    ⟨fun word => ⟨word.1, fun c member => by simpa using List.all_eq_true.mp word.2 c member⟩,
      fun word => ⟨word.nonempty,
        List.all_eq_true.mpr fun c member => by simpa using word.solid c member⟩⟩

/-- No blank at either end. -/
structure Trimmed (cs : List Char) : Prop where
  first : ∀ c ∈ cs.head?, isBlank c = false
  last : ∀ c ∈ cs.getLast?, isBlank c = false

/-- Some words and what is left behind them, as they lie in a line with blanks before, between and
after them. A blank ends each word, unless the line ends there. -/
inductive Layout : List (List Char) → List Char → List Char → Prop
  | rest {lead rest trail : List Char} : Blank lead → Trimmed rest → Blank trail →
      Layout [] rest (lead ++ rest ++ trail)
  | word {lead word behind rest : List Char} {words : List (List Char)} : Blank lead → IsWord word →
      (∀ c ∈ behind.head?, isBlank c = true) → Layout words rest behind →
      Layout (word :: words) rest (lead ++ word ++ behind)

section Trimming

variable {lead trail cs : List Char}

theorem trimChars_eq (cs : List Char) :
    trimChars cs = (cs.dropWhile isBlank).rdropWhile isBlank := rfl

theorem trimmed_trimChars (cs : List Char) : Trimmed (trimChars cs) := by
  rw [trimChars_eq]
  constructor
  · intro c first
    obtain ⟨behind, split⟩ := List.rdropWhile_prefix isBlank (l := cs.dropWhile isBlank)
    have head : (cs.dropWhile isBlank).head? = some c := by
      rw [← split, List.head?_append, first, Option.some_or]
    have stopped := List.head?_dropWhile_not isBlank cs
    rw [head] at stopped
    simpa using stopped
  · intro c last
    obtain ⟨some_left, rfl⟩ := List.mem_getLast?_eq_getLast last
    simpa using List.rdropWhile_last_not isBlank _ some_left

/-- Trimming takes blanks off both ends and nothing else. -/
theorem exists_blanks (cs : List Char) :
    ∃ lead trail, Blank lead ∧ Blank trail ∧ lead ++ trimChars cs ++ trail = cs := by
  refine ⟨cs.takeWhile isBlank, (cs.dropWhile isBlank).rtakeWhile isBlank,
    fun c member => List.mem_takeWhile_imp member, fun c member => List.mem_rtakeWhile_imp member, ?_⟩
  rw [trimChars_eq, List.append_assoc, List.rdropWhile_append_rtakeWhile,
    List.takeWhile_append_dropWhile]

theorem layout_trimChars (cs : List Char) : Layout [] (trimChars cs) cs := by
  obtain ⟨lead, trail, front, back, whole⟩ := exists_blanks cs
  have layout := Layout.rest front (trimmed_trimChars cs) back
  rwa [whole] at layout

theorem trimChars_eq_nil : trimChars cs = [] ↔ Blank cs := by
  constructor
  · intro empty
    obtain ⟨lead, trail, front, back, whole⟩ := exists_blanks cs
    rw [empty, List.append_nil] at whole
    rw [← whole]
    exact fun c member => (List.mem_append.mp member).elim (front c) (back c)
  · intro blank
    rw [trimChars_eq, List.dropWhile_eq_nil_iff.mpr blank, List.rdropWhile_nil]

/-- What is left after trimming does not depend on the blanks. -/
theorem trimChars_blanks {rest : List Char} (front : Blank lead) (trimmed : Trimmed rest)
    (back : Blank trail) : trimChars (lead ++ rest ++ trail) = rest := by
  rw [trimChars_eq, List.append_assoc, List.dropWhile_append_of_pos front]
  cases rest with
  | nil => rw [List.nil_append, List.dropWhile_eq_nil_iff.mpr back, List.rdropWhile_nil]
  | cons c rest =>
    have first := trimmed.first c rfl
    have last := trimmed.last _ (List.getLast?_eq_some_getLast (List.cons_ne_nil c rest))
    rw [List.cons_append, List.dropWhile_cons_of_neg (by simp [first]), ← List.cons_append,
      List.rdropWhile, List.reverse_append,
      List.dropWhile_append_of_pos fun d member => back d (List.mem_reverse.mp member)]
    change (c :: rest).rdropWhile isBlank = c :: rest
    rw [List.rdropWhile_eq_self_iff]
    exact fun _ => by simp [last]

theorem trimChars_of_trimmed (trimmed : Trimmed cs) : trimChars cs = cs := by
  have same := trimChars_blanks blank_nil trimmed blank_nil
  rwa [List.nil_append, List.append_nil] at same

/-- What lies between the blanks at both ends is what trimming leaves. -/
theorem layout_nil_iff {rest : List Char} : Layout [] rest cs ↔ trimChars cs = rest := by
  constructor
  · rintro ⟨front, trimmed, back⟩
    exact trimChars_blanks front trimmed back
  · rintro rfl
    exact layout_trimChars cs

end Trimming

section Splitting

variable {lead trail word behind rest cs : List Char} {words : List (List Char)}

theorem Layout.prepend (blank : Blank lead) (layout : Layout words rest cs) :
    Layout words rest (lead ++ cs) := by
  have both {front : List Char} (also : Blank front) : Blank (lead ++ front) :=
    fun c member => (List.mem_append.mp member).elim (blank c) (also c)
  cases layout with
  | rest front trimmed back =>
    simp only [← List.append_assoc]
    exact .rest (both front) trimmed back
  | word front word ends later =>
    simp only [← List.append_assoc]
    exact .word (both front) word ends later

theorem Layout.append (layout : Layout words rest cs) (blank : Blank trail) :
    Layout words rest (cs ++ trail) := by
  induction layout with
  | rest front trimmed back =>
    rw [List.append_assoc]
    exact .rest front trimmed fun c member => (List.mem_append.mp member).elim (back c) (blank c)
  | @word lead word behind rest words front isWord ends later ih =>
    rw [List.append_assoc]
    refine .word front isWord (fun c first => ?_) ih
    rw [List.head?_append] at first
    cases head : behind.head? with
    | some d => exact ends c (by rw [head] at first ⊢; exact first)
    | none =>
      rw [head, Option.none_or] at first
      exact blank c (List.mem_of_mem_head? first)

/-- A line that is not blank has a first word, and then what splitting it leaves. -/
theorem layout_of_splitWord (nonempty : (splitWordChars cs).1 ≠ [])
    (layout : Layout words rest (splitWordChars cs).2) :
    Layout ((splitWordChars cs).1 :: words) rest cs := by
  have isWord : IsWord (splitWordChars cs).1 := by
    refine ⟨nonempty, fun c member => ?_⟩
    have solid := List.mem_takeWhile_imp member
    simpa using solid
  generalize tail : (trimChars cs).dropWhile (fun c => !isBlank c) = behind
  have ends : ∀ c ∈ behind.head?, isBlank c = true := by
    intro c first
    have stopped := List.head?_dropWhile_not (fun c => !isBlank c) (trimChars cs)
    rw [tail, first] at stopped
    simpa using stopped
  have later : Layout words rest behind := by
    obtain ⟨lead, trail, front, back, whole⟩ := exists_blanks behind
    have same : (splitWordChars cs).2 = trimChars behind := by rw [← tail, splitWordChars]
    rw [same] at layout
    rw [← whole]
    exact (layout.prepend front).append back
  have body : (splitWordChars cs).1 ++ behind = trimChars cs := by
    rw [← tail]
    exact List.takeWhile_append_dropWhile
  obtain ⟨lead, trail, front, back, whole⟩ := exists_blanks cs
  rw [← body, ← List.append_assoc] at whole
  have laid := (Layout.word front isWord ends later).append back
  rwa [whole] at laid

theorem splitWordChars_fst_eq_nil : (splitWordChars cs).1 = [] ↔ Blank cs := by
  rw [← trimChars_eq_nil]
  constructor
  · intro none
    cases body : trimChars cs with
    | nil => rfl
    | cons c rest =>
      have solid := (trimmed_trimChars cs).first c (by rw [body]; rfl)
      simp [splitWordChars, body, solid] at none
  · intro empty
    simp [splitWordChars, empty]

theorem trimmed_splitWordChars (cs : List Char) : Trimmed (splitWordChars cs).2 :=
  trimmed_trimChars _

theorem IsWord.dropWhile (isWord : IsWord word) (blank : Blank lead) (behind : List Char) :
    (lead ++ word ++ behind).dropWhile isBlank = word ++ behind := by
  rw [List.append_assoc, List.dropWhile_append_of_pos blank]
  obtain ⟨c, more, rfl⟩ := List.exists_cons_of_ne_nil isWord.nonempty
  exact List.dropWhile_cons_of_neg (by simp [isWord.solid c List.mem_cons_self])

theorem IsWord.rdropWhile (isWord : IsWord word) (lead behind : List Char) :
    (lead ++ word ++ behind).rdropWhile isBlank = lead ++ word ++ behind.rdropWhile isBlank := by
  induction behind using List.reverseRecOn with
  | nil =>
    rw [List.rdropWhile_nil, List.append_nil, List.rdropWhile_eq_self_iff]
    intro some
    rw [List.getLast_append_of_right_ne_nil _ _ isWord.nonempty]
    simp [isWord.solid _ (List.getLast_mem isWord.nonempty)]
  | append_singleton behind c ih =>
    rw [← List.append_assoc, List.rdropWhile_concat, List.rdropWhile_concat]
    split
    · exact ih
    · rw [List.append_assoc]

theorem blank_head?_rdropWhile (ends : ∀ c ∈ behind.head?, isBlank c = true) :
    ∀ c ∈ (behind.rdropWhile isBlank).head?, isBlank c = true := by
  intro c first
  obtain ⟨gone, split⟩ := List.rdropWhile_prefix isBlank (l := behind)
  refine ends c ?_
  rw [← split, List.head?_append, first, Option.some_or]
  rfl

/-- The blanks at the ends of a line are not part of its layout. -/
theorem Layout.dropWhile (layout : Layout words rest cs) :
    Layout words rest (cs.dropWhile isBlank) := by
  cases layout with
  | rest front trimmed back =>
    rw [layout_nil_iff, trimChars_eq, List.dropWhile_idempotent, ← trimChars_eq]
    exact trimChars_blanks front trimmed back
  | word front isWord ends later =>
    rw [isWord.dropWhile front]
    exact .word blank_nil isWord ends later

theorem Layout.rdropWhile (layout : Layout words rest cs) :
    Layout words rest (cs.rdropWhile isBlank) := by
  induction layout with
  | @rest lead rest trail front trimmed back =>
    have whole := List.rdropWhile_append_rtakeWhile (p := isBlank) (l := lead ++ rest ++ trail)
    have blank : Blank ((lead ++ rest ++ trail).rtakeWhile isBlank) :=
      fun c member => List.mem_rtakeWhile_imp member
    have longer := (layout_trimChars ((lead ++ rest ++ trail).rdropWhile isBlank)).append blank
    rw [whole, layout_nil_iff, trimChars_blanks front trimmed back] at longer
    rw [layout_nil_iff, ← longer]
  | @word lead word behind rest words front isWord ends later ih =>
    rw [isWord.rdropWhile]
    exact .word front isWord (blank_head?_rdropWhile ends) ih

/-- Taking the first word off a line leaves the layout of the others. -/
theorem Layout.splitWordChars (layout : Layout (word :: words) rest cs) :
    (splitWordChars cs).1 = word ∧ Layout words rest (splitWordChars cs).2 := by
  cases layout with
  | @word lead _ behind _ _ front isWord ends later =>
    have body : trimChars (lead ++ word ++ behind) = word ++ behind.rdropWhile isBlank := by
      rw [trimChars_eq, isWord.dropWhile front]
      exact isWord.rdropWhile [] behind
    have solid : ∀ c ∈ word, (!isBlank c) = true := fun c member => by simp [isWord.solid c member]
    have ends := blank_head?_rdropWhile ends
    have later := later.rdropWhile
    generalize behind.rdropWhile isBlank = behind at body ends later
    simp only [Text.splitWordChars, body, List.takeWhile_append_of_pos solid,
      List.dropWhile_append_of_pos solid]
    cases behind with
    | nil => exact ⟨List.append_nil word, later.dropWhile.rdropWhile⟩
    | cons c behind =>
      rw [List.takeWhile_cons, List.dropWhile_cons, ends c rfl]
      exact ⟨List.append_nil word, later.dropWhile.rdropWhile⟩

end Splitting

section Words

variable {lead trail word behind rest cs : List Char} {ws : List (List Char)}

/-- The runs of characters that are not blank, as long as possible. -/
def runs (cs : List Char) : List (List Char) :=
  (cs.splitOnP isBlank).filter fun word => !word.isEmpty

theorem words_eq_runs (text : String) : words text = (runs text.toList).map String.ofList :=
  words_eq text

theorem runs_blank_cons {c : Char} (blank : isBlank c = true) (cs : List Char) :
    runs (c :: cs) = runs cs := by
  rw [runs, List.splitOnP_cons_eq_if_modifyHead, if_pos blank]
  rfl

theorem runs_append_of_blank (blank : Blank lead) (cs : List Char) :
    runs (lead ++ cs) = runs cs := by
  induction lead with
  | nil => rfl
  | cons c lead ih =>
    obtain ⟨first, later⟩ := List.forall_mem_cons.mp blank
    rw [List.cons_append, runs_blank_cons first, ih later]

theorem runs_of_blank (blank : Blank cs) : runs cs = [] := by
  have none := runs_append_of_blank blank []
  rwa [List.append_nil] at none

theorem runs_append_blank (blank : Blank trail) (cs : List Char) :
    runs (cs ++ trail) = runs cs := by
  cases trail with
  | nil => rw [List.append_nil]
  | cons c trail =>
    obtain ⟨first, later⟩ := List.forall_mem_cons.mp blank
    have none : (trail.splitOnP isBlank).filter (fun word => !word.isEmpty) = [] := runs_of_blank later
    rw [runs, List.splitOnP_append_cons _ _ first, List.filter_append, none, List.append_nil, runs]

theorem runs_word (isWord : IsWord word) (ends : ∀ c ∈ behind.head?, isBlank c = true) :
    runs (word ++ behind) = word :: runs behind := by
  have kept : (!word.isEmpty) = true := by simpa using isWord.nonempty
  cases behind with
  | nil =>
    rw [List.append_nil, runs, List.splitOnP_eq_singleton isWord.solid, List.filter_singleton, kept]
    rfl
  | cons c behind =>
    have blank := ends c rfl
    rw [runs_blank_cons blank, runs,
      List.splitOnP_append_cons_of_forall_mem isWord.solid c blank, List.filter_cons, if_pos kept]
    rfl

/-- The words of a line are those it was laid out with, and those of the remainder. -/
theorem Layout.runs (layout : Layout ws rest cs) : runs cs = ws ++ runs rest := by
  induction layout with
  | rest front _ back =>
    rw [runs_append_blank back, runs_append_of_blank front, List.nil_append]
  | word front isWord ends _ ih =>
    rw [List.append_assoc, runs_append_of_blank front, runs_word isWord ends, ih, List.cons_append]

theorem runs_eq_nil : runs cs = [] ↔ Blank cs := by
  refine ⟨fun none => ?_, runs_of_blank⟩
  rw [← splitWordChars_fst_eq_nil]
  by_contra named
  have runs := (layout_of_splitWord named (layout_trimChars _)).runs
  rw [none] at runs
  cases runs

/-- A trimmed text of one word is that word. -/
theorem eq_of_runs (trimmed : Trimmed cs) (single : runs cs = [word]) : cs = word := by
  have named : (splitWordChars cs).1 ≠ [] := fun none => by
    rw [runs_of_blank (splitWordChars_fst_eq_nil.mp none)] at single
    cases single
  have layout := layout_of_splitWord named (layout_trimChars _)
  have split := layout.runs
  rw [single, List.singleton_append] at split
  obtain ⟨same, none⟩ := List.cons.inj split
  have nothing : trimChars (splitWordChars cs).2 = [] := by
    rw [trimChars_of_trimmed (trimmed_splitWordChars cs)] at none ⊢
    rw [← trimChars_of_trimmed (trimmed_splitWordChars cs), trimChars_eq_nil, ← runs_eq_nil, none]
  rw [nothing, ← same] at layout
  cases layout with
  | @word lead _ behind _ _ front isWord _ later =>
    have back : Blank behind := by
      rw [← runs_eq_nil, later.runs, List.nil_append, runs_of_blank blank_nil]
    have ends : Trimmed word := ⟨fun c first => isWord.solid c (List.mem_of_mem_head? first),
      fun c last => isWord.solid c (List.mem_of_mem_getLast? last)⟩
    rw [← trimChars_of_trimmed trimmed, trimChars_blanks front ends back]

end Words

section Lines

variable {line value : String}

theorem words_eq_nil : words line = [] ↔ Blank line.toList := by
  rw [words_eq_runs, List.map_eq_nil_iff, runs_eq_nil]

theorem isEmpty_splitWord : (splitWord line).1.isEmpty = true ↔ words line = [] := by
  rw [words_eq_nil, ← splitWordChars_fst_eq_nil, splitWord, String.isEmpty_iff]
  simp

theorem isEmpty_trim : (trim line).isEmpty = true ↔ Blank line.toList := by
  rw [trim, String.isEmpty_iff, ← String.toList_eq_nil_iff, String.toList_ofList, trimChars_eq_nil]

theorem layout_trim (line : String) : Layout [] (trim line).toList line.toList := by
  rw [trim, String.toList_ofList]
  exact layout_trimChars line.toList

theorem layout_splitWord {rest : List Char} {ws : List (List Char)}
    (named : (splitWord line).1.isEmpty = false) (layout : Layout ws rest (splitWord line).2.toList) :
    Layout ((splitWord line).1.toList :: ws) rest line.toList := by
  simp only [splitWord, String.toList_ofList] at named layout ⊢
  refine layout_of_splitWord (fun none => ?_) layout
  simp [none] at named

theorem layout_of_splitWord_eq {rest : List Char} {ws : List (List Char)} {word left : String}
    (split : splitWord line = (word, left)) (named : word.isEmpty = false)
    (layout : Layout ws rest left.toList) : Layout (word.toList :: ws) rest line.toList := by
  have found : (splitWord line).1.isEmpty = false := by rw [split]; exact named
  have behind : Layout ws rest (splitWord line).2.toList := by rw [split]; exact layout
  have whole := layout_splitWord found behind
  rwa [split] at whole

theorem trim_splitWord (line : String) : trim (splitWord line).2 = (splitWord line).2 := by
  simp only [trim, splitWord, String.toList_ofList,
    trimChars_of_trimmed (trimmed_splitWordChars line.toList)]

theorem Layout.splitWord {word rest : List Char} {ws : List (List Char)}
    (layout : Layout (word :: ws) rest line.toList) :
    (splitWord line).1 = String.ofList word ∧ Layout ws rest (splitWord line).2.toList := by
  obtain ⟨first, later⟩ := layout.splitWordChars
  rw [Text.splitWord, first, String.toList_ofList]
  exact ⟨rfl, later⟩

/-- The remainder behind a word is what is left of it without the blanks. -/
theorem splitWord_of_layout {word rest : List Char} (layout : Layout [word] rest line.toList) :
    splitWord line = (String.ofList word, String.ofList rest) := by
  obtain ⟨first, later⟩ := layout.splitWord
  have left : trim (splitWord line).2 = String.ofList rest := by
    rw [trim, layout_nil_iff.mp later]
  rw [trim_splitWord] at left
  exact Prod.ext first left

/-- Splitting a line takes its first word off. -/
theorem words_of_splitWord (named : (splitWord line).1.isEmpty = false) :
    words line = (splitWord line).1 :: words (splitWord line).2 := by
  have layout := layout_splitWord named (layout_trim _)
  rw [trim_splitWord] at layout
  rw [words_eq_runs, layout.runs, words_eq_runs]
  simp

theorem words_of_isWord (isWord : IsWord value.toList) : words value = [value] := by
  have layout := runs_word isWord (fun _ none => nomatch none : ∀ c ∈ [].head?, isBlank c = true)
  rw [List.append_nil, runs_of_blank blank_nil] at layout
  rw [words_eq_runs, layout, List.map_singleton, String.ofList_toList]

/-- The remainder behind the first word is a word exactly if it has no other words. -/
theorem splitWord_snd_eq (isWord : IsWord value.toList) :
    (splitWord line).2 = value ↔ words (splitWord line).2 = [value] := by
  constructor
  · rintro rfl
    exact words_of_isWord isWord
  · intro single
    rw [words_eq_runs, List.map_eq_singleton_iff] at single
    obtain ⟨word, runs, rfl⟩ := single
    have trimmed : Trimmed (splitWord line).2.toList := by
      simpa [splitWord] using trimmed_splitWordChars line.toList
    rw [← eq_of_runs trimmed runs, String.ofList_toList]

end Lines

end DeviceShell.Text
