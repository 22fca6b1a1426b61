import DeviceShell.Monitor.Interval
import DeviceShell.Proofs.Text.Numerals

/-! Which arguments ask for an interval, and what is said of those that do not. -/
namespace DeviceShell.Monitor

open Text

/-- The interval that an argument asks for: the preset, if there is nothing in it but blanks, or the
number that it is, if 32 bits can hold it. -/
inductive Asks (args : String) (preset : UInt32) : UInt32 → Prop
  | preset : Blank args.toList → Asks args preset preset
  | number {n : Numeral} {interval : UInt32} : n.Fills args → n.value = interval.toNat →
      Asks args preset interval

/-- A remark that tells numbers that are out of range from what is no number. -/
structure Tells (args : String) (misuse : Misuse) : Prop where
  outOfRange : misuse = .outOfRange ↔
    ∃ n : Numeral, n.Fills args ∧ ¬ (0 ≤ n.value ∧ n.value < 2 ^ 32)
  invalid : misuse = .invalid ↔ ∀ n : Numeral, ¬ n.Fills args

variable {args : String} {preset interval : UInt32} {n : Numeral} {mode : Mode} {misuse : Misuse}

theorem ofArgs_of_blank (blank : Blank args.toList) :
    Mode.ofArgs args preset = .ok (.ofInterval preset) := by
  rw [Mode.ofArgs, if_pos (isEmpty_trim.mpr blank)]

theorem ofArgs_of_unread (given : ¬ Blank args.toList)
    (unread : signed64? (trim args).toList = none) :
    Mode.ofArgs args preset = .error (intervalError .invalid) := by
  rw [Mode.ofArgs, if_neg (isEmpty_trim.not.mpr given), unread]

theorem ofArgs_of_within64 (fills : n.Fills args) (within : n.Within64) :
    Mode.ofArgs args preset =
      if 0 ≤ n.value ∧ n.value < UInt32.size then .ok (.ofInterval (UInt32.ofNat n.value.toNat))
      else .error (intervalError .outOfRange) := by
  rw [Mode.ofArgs, if_neg (isEmpty_trim.not.mpr fills.not_blank), fills.toList_trim,
    Numeral.signed64?_of_within64 within]

theorem ofArgs_of_interval (fills : n.Fills args) (held : n.value = interval.toNat) :
    Mode.ofArgs args preset = .ok (.ofInterval interval) := by
  have below := interval.toNat_lt
  have within : n.Within64 := by
    rw [Numeral.Within64, held]
    omega
  rw [ofArgs_of_within64 fills within, held, if_pos ⟨Int.natCast_nonneg _, Int.ofNat_lt.mpr below⟩,
    Int.toNat_natCast, UInt32.ofNat_toNat]

theorem ofArgs_of_outside (fills : n.Fills args) (within : n.Within64)
    (outside : ¬ (0 ≤ n.value ∧ n.value < 2 ^ 32)) :
    Mode.ofArgs args preset = .error (intervalError .outOfRange) := by
  rw [ofArgs_of_within64 fills within]
  exact if_neg outside

theorem ofArgs_of_beyond (fills : n.Fills args) (beyond : ¬ n.Within64) :
    Mode.ofArgs args preset = .error (intervalError .invalid) := by
  refine ofArgs_of_unread fills.not_blank ?_
  rw [fills.toList_trim, Numeral.signed64?_of_not_within64 beyond]

theorem ofArgs_of_no_number (given : ¬ Blank args.toList) (other : ∀ n : Numeral, ¬ n.Fills args) :
    Mode.ofArgs args preset = .error (intervalError .invalid) := by
  refine ofArgs_of_unread given ?_
  cases read : signed64? (trim args).toList with
  | none => rfl
  | some value =>
    obtain ⟨n, same⟩ := Numeral.exists_of_signed64? read
    refine absurd ?_ (other n)
    rw [Numeral.Fills, same]
    exact layout_trim args

/-- A number that 32 bits can hold is one of them. -/
theorem exists_interval (inside : 0 ≤ n.value ∧ n.value < 2 ^ 32) :
    ∃ interval : UInt32, n.value = interval.toNat := by
  refine ⟨UInt32.ofNat n.value.toNat, ?_⟩
  rw [UInt32.toNat_ofNat_of_lt' (by rw [UInt32.size]; omega)]
  omega

/-- What an argument can be, and what comes of it. -/
inductive Answered (args : String) (preset : UInt32) : Except Failure Mode → Prop
  | asked {interval : UInt32} : Asks args preset interval →
      Answered args preset (.ok (.ofInterval interval))
  | outside {n : Numeral} : n.Fills args → n.Within64 → ¬ (0 ≤ n.value ∧ n.value < 2 ^ 32) →
      Answered args preset (.error (intervalError .outOfRange))
  | beyond {n : Numeral} : n.Fills args → ¬ n.Within64 →
      Answered args preset (.error (intervalError .invalid))
  | other : ¬ Blank args.toList → (∀ n : Numeral, ¬ n.Fills args) →
      Answered args preset (.error (intervalError .invalid))

theorem answered_ofArgs (args : String) (preset : UInt32) :
    Answered args preset (Mode.ofArgs args preset) := by
  by_cases blank : Blank args.toList
  · rw [ofArgs_of_blank blank]
    exact .asked (.preset blank)
  · by_cases number : ∃ n : Numeral, n.Fills args
    · obtain ⟨n, fills⟩ := number
      by_cases inside : 0 ≤ n.value ∧ n.value < 2 ^ 32
      · obtain ⟨interval, held⟩ := exists_interval inside
        rw [ofArgs_of_interval fills held]
        exact .asked (.number fills held)
      · by_cases within : n.Within64
        · rw [ofArgs_of_outside fills within inside]
          exact .outside fills within inside
        · rw [ofArgs_of_beyond fills within]
          exact .beyond fills within
    · rw [not_exists] at number
      rw [ofArgs_of_no_number blank number]
      exact .other blank number

theorem ofArgs_of_asks (asks : Asks args preset interval) :
    Mode.ofArgs args preset = .ok (.ofInterval interval) := by
  cases asks with
  | preset blank => exact ofArgs_of_blank blank
  | number fills held => exact ofArgs_of_interval fills held

theorem ofInterval_eq_once : Mode.ofInterval interval = .once ↔ interval = 0 := by
  unfold Mode.ofInterval
  split
  · rename_i zero
    exact iff_of_true rfl zero
  · rename_i positive
    exact iff_of_false Mode.noConfusion positive

/-- An argument is taken exactly if it asks for an interval, and only 0 stands for a single frame.
On all others a usage error is reported. -/
theorem ofArgs_accepts (args : String) (preset : UInt32) :
    (∀ mode, Mode.ofArgs args preset = .ok mode ↔
      ∃ interval, Asks args preset interval ∧ mode = .ofInterval interval ∧
        (mode = .once ↔ interval = 0)) ∧
    ((∃ misuse, Mode.ofArgs args preset = .error (.usage ⟨"top", "[interval_ms]", misuse⟩)) ↔
      ∀ interval, ¬ Asks args preset interval) := by
  constructor
  · intro mode
    constructor
    · intro taken
      have answered := answered_ofArgs args preset
      rw [taken] at answered
      cases answered with
      | asked asks => exact ⟨_, asks, rfl, ofInterval_eq_once⟩
    · rintro ⟨interval, asks, rfl, -⟩
      exact ofArgs_of_asks asks
  · constructor
    · rintro ⟨misuse, refused⟩ interval asks
      cases refused.symm.trans (ofArgs_of_asks asks)
    · intro none
      generalize answer : Mode.ofArgs args preset = result
      cases answer ▸ answered_ofArgs args preset with
      | asked asks => exact absurd asks (none _)
      | outside | beyond | other => exact ⟨_, rfl⟩

/-- A sign and zeros in front change nothing, nor do wide blanks around the number. -/
example : Mode.ofArgs "\u00a0-000\u3000" 5 = .ok .once := by decide +kernel

/-- Of a number that is out of range the remark says so exactly if 64 bits can hold it. So the
remarks tell such numbers from what is no number, unless 64 bits cannot. -/
theorem tells_iff (args : String) (preset : UInt32) (failure : Failure)
    (refused : Mode.ofArgs args preset = .error failure) :
    ∃ misuse, failure = .usage ⟨"top", "[interval_ms]", misuse⟩ ∧
      (misuse = .outOfRange ↔ ∃ n : Numeral, n.Fills args ∧ n.Within64) ∧
      (misuse = .invalid ↔ ∀ n : Numeral, n.Fills args → ¬ n.Within64) ∧
      (Tells args misuse ↔ ∀ n : Numeral, n.Fills args → n.Within64) := by
  have answered := answered_ofArgs args preset
  rw [refused] at answered
  cases answered with
  | @outside n fills within outside =>
    refine ⟨_, rfl, ?_, ?_, ?_⟩
    · exact iff_of_true rfl ⟨n, fills, within⟩
    · exact iff_of_false Misuse.noConfusion fun none => none n fills within
    · refine iff_of_true ⟨?_, ?_⟩ fun m others => fills.eq others ▸ within
      · exact iff_of_true rfl ⟨n, fills, outside⟩
      · exact iff_of_false Misuse.noConfusion fun none => none n fills
  | @beyond n fills beyond =>
    refine ⟨_, rfl, ?_, ?_, ?_⟩
    · refine iff_of_false Misuse.noConfusion ?_
      rintro ⟨m, others, within⟩
      exact beyond (fills.eq others ▸ within)
    · exact iff_of_true rfl fun m others => fills.eq others ▸ beyond
    · refine iff_of_false (fun tells => ?_) fun all => beyond (all n fills)
      exact tells.invalid.mp rfl n fills
  | other given none =>
    refine ⟨_, rfl, ?_, ?_, ?_⟩
    · exact iff_of_false Misuse.noConfusion fun ⟨n, fills, _⟩ => none n fills
    · exact iff_of_true rfl fun n fills => absurd fills (none n)
    · refine iff_of_true ⟨?_, iff_of_true rfl none⟩ fun n fills => absurd fills (none n)
      exact iff_of_false Misuse.noConfusion fun ⟨n, fills, _⟩ => none n fills

/-- The least number that 64 bits can hold. -/
theorem tells_iff_least :
    let n : Numeral :=
      ⟨.minus, [9, 2, 2, 3, 3, 7, 2, 0, 3, 6, 8, 5, 4, 7, 7, 5, 8, 0, 8], by decide⟩
    let args := " -9223372036854775808\u3000"
    n.Fills args ∧ n.value = -2 ^ 63 ∧
      Mode.ofArgs args 1000 = .error (intervalError .outOfRange) ∧ Tells args .outOfRange := by
  intro n args
  have fills : n.Fills args := layout_nil_iff.mpr (by decide +kernel)
  have within : n.Within64 := by decide +kernel
  have refused : Mode.ofArgs args 1000 = .error (intervalError .outOfRange) := by decide +kernel
  obtain ⟨misuse, same, -, -, tells⟩ := tells_iff args 1000 _ refused
  cases same
  exact ⟨fills, by decide +kernel, refused, tells.mpr fun m others => fills.eq others ▸ within⟩

/-- The least one above zero that they cannot: it is out of range, and taken for no number. -/
theorem not_told_beyond :
    let n : Numeral := ⟨.none, [9, 2, 2, 3, 3, 7, 2, 0, 3, 6, 8, 5, 4, 7, 7, 5, 8, 0, 8], by decide⟩
    let args := "9223372036854775808"
    n.Fills args ∧ n.value = 2 ^ 63 ∧
      Mode.ofArgs args 1000 = .error (intervalError .invalid) ∧ ¬ Tells args .invalid := by
  intro n args
  have fills : n.Fills args := layout_nil_iff.mpr (by decide +kernel)
  exact ⟨fills, by decide +kernel, by decide +kernel, fun tells => tells.invalid.mp rfl n fills⟩

end DeviceShell.Monitor
