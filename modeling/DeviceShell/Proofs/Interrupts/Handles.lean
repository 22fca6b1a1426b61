import DeviceShell.Interrupts
import Mathlib.Data.List.Induction

/-! Who has cancelled a token. What a token reads follows from the operations so far: which of them
made its flag, and which came at a moment when they reached it. -/
namespace DeviceShell.Interrupts

/-- What can be done to a latch and to the tokens that have been handed out. A token goes by its
number: 0 is the one that was handed out first. -/
inductive Operation where
  | arm
  | disarm
  | raise
  | take (byte : UInt8)
  | make
  | copy (number : Nat)
  | cancel (number : Nat)
  deriving DecidableEq

/-- Operations that make a flag. -/
def Operation.makes : Operation → Bool
  | .arm | .make => true
  | _ => false

/-- A latch, and the tokens that have been handed out. -/
structure Desk where
  interrupts : Interrupts
  held : List Token := []

namespace Desk

def operate (d : Desk) : Operation → Desk
  | .arm => ⟨d.interrupts.arm.2, d.held ++ [d.interrupts.arm.1]⟩
  | .disarm => { d with interrupts := d.interrupts.disarm }
  | .raise => { d with interrupts := d.interrupts.raise }
  | .take byte => { d with interrupts := (d.interrupts.take byte).2 }
  | .make => ⟨d.interrupts.newToken.2, d.held ++ [d.interrupts.newToken.1]⟩
  | .copy number => { d with held := d.held ++ d.held[number]?.toList }
  | .cancel number =>
    { d with
      interrupts := d.held[number]?.elim d.interrupts fun token => d.interrupts.cancel token }

/-- A new latch after operations. -/
def after (byte : UInt8) (operations : List Operation) : Desk :=
  operations.foldl operate { interrupts := { byte := byte } }

end Desk

section History

/-- For each token that operations hand out, the turn of the operation that made its flag. -/
def origins (operations : List Operation) : List Nat :=
  operations.zipIdx.foldl (fun origins (operation, turn) => match operation with
    | .arm | .make => origins ++ [turn]
    | .copy number => origins ++ origins[number]?.toList
    | _ => origins) []

/-- Of the operations that arm or disarm, the latest is the one at a turn, and it arms. -/
def Armed (operations : List Operation) (turn : Nat) : Prop :=
  operations[turn]? = some .arm ∧
    ∀ later, turn < later → operations[later]? ≠ some .arm ∧ operations[later]? ≠ some .disarm

/-- An operation reaches the flag that was made at a turn: it cancels a token with that flag, or it
is an interrupt while that turn's token is armed. -/
inductive Reaches (byte : UInt8) (before : List Operation) (origin : Nat) : Operation → Prop
  | cancel {number : Nat} : (origins before)[number]? = some origin →
      Reaches byte before origin (.cancel number)
  | raise : Armed before origin → Reaches byte before origin .raise
  | take : Armed before origin → Reaches byte before origin (.take byte)

/-- One of the operations reached the flag that was made at a turn. -/
def Raised (byte : UInt8) (operations : List Operation) (origin : Nat) : Prop :=
  ∃ before operation after, operations = before ++ operation :: after ∧
    Reaches byte before origin operation

/-- A flag is made at a turn. -/
def Made (operations : List Operation) (turn : Nat) : Prop :=
  ∃ operation, operations[turn]? = some operation ∧ operation.makes = true

/-- The token for the flag that is made at a turn. -/
def flagOf (operations : List Operation) (turn : Nat) : Token :=
  ⟨(operations.take turn).countP Operation.makes⟩

variable {byte : UInt8} {operations : List Operation} {operation : Operation} {turn origin : Nat}

theorem origins_snoc (operations : List Operation) (operation : Operation) :
    origins (operations ++ [operation]) = match operation with
      | .arm | .make => origins operations ++ [operations.length]
      | .copy number => origins operations ++ (origins operations)[number]?.toList
      | _ => origins operations := by
  simp only [origins, List.zipIdx_append, List.foldl_append]
  cases operation <;> simp

theorem Armed.lt (armed : Armed operations turn) : turn < operations.length := by
  obtain ⟨inside, -⟩ := List.getElem?_eq_some_iff.mp armed.1
  exact inside

theorem Made.lt (made : Made operations turn) : turn < operations.length := by
  obtain ⟨operation, found, -⟩ := made
  obtain ⟨inside, -⟩ := List.getElem?_eq_some_iff.mp found
  exact inside

theorem Armed.made (armed : Armed operations turn) : Made operations turn := ⟨.arm, armed.1, rfl⟩

theorem getElem?_snoc (operations : List Operation) (operation : Operation) (turn : Nat) :
    (operations ++ [operation])[turn]? =
      if turn = operations.length then some operation else operations[turn]? := by
  rcases Nat.lt_trichotomy turn operations.length with before | rfl | behind
  · rw [if_neg (Nat.ne_of_lt before), List.getElem?_append_left before]
  · rw [if_pos rfl, List.getElem?_concat_length]
  · rw [if_neg (Nat.ne_of_gt behind), List.getElem?_eq_none (Nat.le_of_lt behind),
      List.getElem?_eq_none (by simpa using Nat.succ_le_of_lt behind)]

theorem made_snoc : Made (operations ++ [operation]) turn ↔
    Made operations turn ∨ turn = operations.length ∧ operation.makes = true := by
  simp only [Made, getElem?_snoc]
  by_cases last : turn = operations.length
  · subst last
    simp
  · simp [last]

/-- What armed or disarmed the latch is out of date after an `arm` or a `disarm`. -/
theorem Armed.eq_length (armed : Armed (operations ++ [operation]) turn)
    (moves : operation = .arm ∨ operation = .disarm) : turn = operations.length := by
  have inside := armed.lt
  rw [List.length_append, List.length_singleton] at inside
  by_contra other
  have now := armed.2 operations.length (by omega)
  rw [List.getElem?_concat_length] at now
  rcases moves with rfl | rfl
  · exact now.1 rfl
  · exact now.2 rfl

theorem armed_snoc_arm : Armed (operations ++ [.arm]) turn ↔ turn = operations.length := by
  constructor
  · intro armed
    exact armed.eq_length (.inl rfl)
  · rintro rfl
    refine ⟨List.getElem?_concat_length, fun later behind => ?_⟩
    rw [List.getElem?_eq_none (by simpa using Nat.succ_le_of_lt behind)]
    simp

theorem not_armed_snoc_disarm : ¬ Armed (operations ++ [.disarm]) turn := by
  intro armed
  have here := armed.1
  rw [armed.eq_length (.inr rfl), List.getElem?_concat_length] at here
  cases here

theorem armed_snoc (arms : operation ≠ .arm) (disarms : operation ≠ .disarm) :
    Armed (operations ++ [operation]) turn ↔ Armed operations turn := by
  constructor
  · intro armed
    have earlier : turn ≠ operations.length := by
      rintro rfl
      have here := armed.1
      rw [List.getElem?_concat_length] at here
      exact arms (Option.some.inj here)
    refine ⟨?_, fun later behind => ?_⟩
    · have here := armed.1
      rwa [getElem?_snoc, if_neg earlier] at here
    · have since := armed.2 later behind
      rw [getElem?_snoc] at since
      split at since
      · rename_i last
        rw [last, List.getElem?_eq_none (Nat.le_refl _)]
        simp
      · exact since
  · intro armed
    refine ⟨?_, fun later behind => ?_⟩
    · rw [List.getElem?_append_left armed.lt]
      exact armed.1
    · rw [getElem?_snoc]
      split
      · exact ⟨fun same => arms (Option.some.inj same), fun same => disarms (Option.some.inj same)⟩
      · exact armed.2 later behind

/-- Every token that is handed out has a flag that was made before. -/
theorem made_of_mem_origins (member : origin ∈ origins operations) : Made operations origin := by
  induction operations using List.reverseRecOn with
  | nil => cases member
  | append_singleton operations operation ih =>
    have kept (earlier : origin ∈ origins operations) : Made (operations ++ [operation]) origin :=
      made_snoc.mpr (.inl (ih earlier))
    have fresh (makes : operation.makes = true)
        (member : origin ∈ origins operations ++ [operations.length]) :
        Made (operations ++ [operation]) origin := by
      rcases List.mem_append.mp member with earlier | last
      · exact kept earlier
      · exact made_snoc.mpr (.inr ⟨List.mem_singleton.mp last, makes⟩)
    rw [origins_snoc] at member
    cases operation with
    | arm => exact fresh rfl member
    | make => exact fresh rfl member
    | copy number =>
      rcases List.mem_append.mp member with earlier | copied
      · exact kept earlier
      · exact kept (List.mem_of_getElem? (Option.mem_toList.mp copied))
    | disarm => exact kept member
    | raise => exact kept member
    | take byte => exact kept member
    | cancel number => exact kept member

theorem Reaches.made (reaches : Reaches byte operations origin operation) :
    Made operations origin := by
  cases reaches with
  | cancel found => exact made_of_mem_origins (List.mem_of_getElem? found)
  | raise armed => exact armed.made
  | take armed => exact armed.made

theorem raised_snoc : Raised byte (operations ++ [operation]) origin ↔
    Raised byte operations origin ∨ Reaches byte operations origin operation := by
  constructor
  · rintro ⟨before, last, after, split, reaches⟩
    rcases List.eq_nil_or_concat after with rfl | ⟨after, newest, rfl⟩
    · obtain ⟨rfl, same⟩ := List.append_inj' split rfl
      cases same
      exact .inr reaches
    · refine .inl ⟨before, last, after, ?_, reaches⟩
      rw [List.concat_eq_append, ← List.cons_append, ← List.append_assoc] at split
      exact (List.append_inj' split rfl).1
  · rintro (⟨before, last, after, rfl, reaches⟩ | reaches)
    · exact ⟨before, last, after ++ [operation], by simp, reaches⟩
    · exact ⟨operations, operation, [], rfl, reaches⟩

theorem Raised.made (raised : Raised byte operations origin) : Made operations origin := by
  obtain ⟨before, operation, after, rfl, reaches⟩ := raised
  have inside := reaches.made.lt
  obtain ⟨maker, found, makes⟩ := reaches.made
  refine ⟨maker, ?_, makes⟩
  rw [List.getElem?_append_left inside, found]

theorem flagOf_snoc (made : Made operations turn) :
    flagOf (operations ++ [operation]) turn = flagOf operations turn := by
  simp only [flagOf, List.take_append_of_le_length (Nat.le_of_lt made.lt)]

theorem flagOf_last (operations : List Operation) (operation : Operation) :
    flagOf (operations ++ [operation]) operations.length = ⟨operations.countP Operation.makes⟩ := by
  simp [flagOf]

/-- Flags made at different turns are different. -/
theorem flag_lt_of_lt (made : Made operations turn) {later : Nat} (behind : turn < later) :
    (flagOf operations turn).flag < (operations.take later).countP Operation.makes := by
  obtain ⟨maker, found, makes⟩ := made
  have upTo : operations.take (turn + 1) = operations.take turn ++ [maker] := by
    rw [List.take_add_one, found]
    rfl
  have counted : (operations.take (turn + 1)).countP Operation.makes =
      (operations.take turn).countP Operation.makes + 1 := by
    rw [upTo, List.countP_append, List.countP_singleton, if_pos makes]
  have more : (operations.take (turn + 1)).countP Operation.makes ≤
      (operations.take later).countP Operation.makes :=
    (List.take_sublist_take_left behind).countP_le
  simp only [flagOf]
  omega

theorem flag_lt (made : Made operations turn) :
    (flagOf operations turn).flag < operations.countP Operation.makes := by
  have within := flag_lt_of_lt made made.lt
  rwa [List.take_length] at within

theorem flagOf_inj (made : Made operations turn) (other : Made operations origin) :
    flagOf operations turn = flagOf operations origin ↔ turn = origin := by
  constructor
  · intro same
    have flags := congrArg Token.flag same
    rcases Nat.lt_trichotomy turn origin with before | equal | behind
    · have less := flag_lt_of_lt made before
      simp only [flagOf] at flags less
      omega
    · exact equal
    · have less := flag_lt_of_lt other behind
      simp only [flagOf] at flags less
      omega
  · rintro rfl
    rfl

end History

/-- The same interrupt byte, and the same token armed among as many flags. -/
structure Alike (i j : Interrupts) : Prop where
  byte : j.byte = i.byte
  armed : j.armed = i.armed
  flags : j.flags.length = i.flags.length

theorem Alike.refl (i : Interrupts) : i.Alike i := ⟨rfl, rfl, rfl⟩

theorem Alike.trans {i j k : Interrupts} (first : i.Alike j) (second : j.Alike k) : i.Alike k :=
  ⟨second.byte.trans first.byte, second.armed.trans first.armed, second.flags.trans first.flags⟩

theorem alike_cancel (i : Interrupts) (token : Token) : i.Alike (i.cancel token) :=
  ⟨rfl, rfl, List.length_set⟩

theorem alike_raise (i : Interrupts) : i.Alike i.raise := by
  unfold raise
  split
  · exact i.alike_cancel _
  · exact .refl i

theorem alike_take (byte : UInt8) (i : Interrupts) : i.Alike (i.take byte).2 := by
  unfold take
  split
  · exact i.alike_raise
  · exact .refl i

theorem isCancelled_newToken {token : Token} (i : Interrupts) (inside : token.flag < i.flags.length) :
    i.newToken.2.isCancelled token = i.isCancelled token := by
  simp [isCancelled, newToken, List.getElem?_append_left inside]

theorem not_isCancelled_newToken (i : Interrupts) :
    i.newToken.2.isCancelled i.newToken.1 = false := by
  simp [isCancelled, newToken]

theorem isCancelled_cancel {token : Token} (i : Interrupts) (other : Token)
    (inside : token.flag < i.flags.length) :
    (i.cancel other).isCancelled token = true ↔ i.isCancelled token = true ∨ other = token := by
  obtain ⟨flag⟩ := token
  obtain ⟨set⟩ := other
  by_cases same : set = flag
  · subst same
    simp [isCancelled, cancel, inside]
  · simp [isCancelled, cancel, same]

theorem isCancelled_raise {token : Token} (i : Interrupts) (inside : token.flag < i.flags.length) :
    i.raise.isCancelled token = true ↔ i.isCancelled token = true ∨ i.armed = some token := by
  unfold raise
  split
  · rename_i armed found
    rw [isCancelled_cancel i armed inside, found, Option.some_inj]
  · rename_i nobody
    simp [nobody]

theorem inside_of_isCancelled {token : Token} {i : Interrupts}
    (cancelled : i.isCancelled token = true) : token.flag < i.flags.length := by
  by_contra outside
  simp [isCancelled, List.getElem?_eq_none (Nat.le_of_not_lt outside)] at cancelled

namespace Desk

/-- The token that an operation cancels. -/
def target (d : Desk) : Operation → Option Token
  | .raise => d.interrupts.armed
  | .take byte => if byte = d.interrupts.byte then d.interrupts.armed else none
  | .cancel number => d.held[number]?
  | _ => none

/-- An operation leaves the tokens that there are as they read, but for the one that it cancels. -/
theorem isCancelled_operate {token : Token} (d : Desk) (operation : Operation)
    (inside : token.flag < d.interrupts.flags.length) :
    (d.operate operation).interrupts.isCancelled token = true ↔
      d.interrupts.isCancelled token = true ∨ d.target operation = some token := by
  cases operation with
  | arm =>
    refine (Bool.eq_iff_iff.mp (isCancelled_newToken d.interrupts inside)).trans ?_
    simp [target]
  | make =>
    refine (Bool.eq_iff_iff.mp (isCancelled_newToken d.interrupts inside)).trans ?_
    simp [target]
  | disarm => simp [target, operate, disarm, isCancelled]
  | copy number => simp [target, operate]
  | raise => exact isCancelled_raise d.interrupts inside
  | take byte =>
    simp only [operate, target, Interrupts.take]
    split
    · exact isCancelled_raise d.interrupts inside
    · simp
  | cancel number =>
    simp only [operate, target]
    rcases d.held[number]? with _ | other
    · simp
    · simpa using isCancelled_cancel d.interrupts other inside

/-- An operation that arms, disarms or makes no token leaves all but the flags' values. -/
theorem alike_operate (d : Desk) {operation : Operation} (arms : operation ≠ .arm)
    (disarms : operation ≠ .disarm) (makes : operation ≠ .make) :
    d.interrupts.Alike (d.operate operation).interrupts := by
  cases operation with
  | arm => exact absurd rfl arms
  | disarm => exact absurd rfl disarms
  | make => exact absurd rfl makes
  | raise => exact d.interrupts.alike_raise
  | take fed => exact alike_take fed d.interrupts
  | copy number => exact .refl d.interrupts
  | cancel number =>
    simp only [operate]
    rcases d.held[number]? with _ | token
    · exact .refl d.interrupts
    · exact d.interrupts.alike_cancel token

theorem byte_operate (d : Desk) (operation : Operation) :
    (d.operate operation).interrupts.byte = d.interrupts.byte := by
  cases operation with
  | arm => rfl
  | disarm => rfl
  | make => rfl
  | raise | take | copy | cancel => refine (d.alike_operate ?_ ?_ ?_).byte <;> nofun

theorem length_flags_operate (d : Desk) (operation : Operation) :
    (d.operate operation).interrupts.flags.length =
      d.interrupts.flags.length + if operation.makes then 1 else 0 := by
  cases operation with
  | arm => simp [operate, arm, newToken, Operation.makes]
  | make => simp [operate, newToken, Operation.makes]
  | disarm => rfl
  | raise | take | copy | cancel => refine (d.alike_operate ?_ ?_ ?_).flags <;> nofun

theorem armed_operate (d : Desk) {operation : Operation} (arms : operation ≠ .arm)
    (disarms : operation ≠ .disarm) :
    (d.operate operation).interrupts.armed = d.interrupts.armed := by
  by_cases makes : operation = .make
  · subst makes
    rfl
  · exact (d.alike_operate arms disarms makes).armed

/-- A desk is what operations on a new latch come to. -/
structure Records (byte : UInt8) (operations : List Operation) (d : Desk) : Prop where
  routes : d.interrupts.byte = byte
  flags : d.interrupts.flags.length = operations.countP Operation.makes
  held : d.held = (origins operations).map (flagOf operations)
  armed : ∀ token, d.interrupts.armed = some token ↔
    ∃ turn, Armed operations turn ∧ flagOf operations turn = token
  raised : ∀ turn, Made operations turn →
    (d.interrupts.isCancelled (flagOf operations turn) = true ↔ Raised byte operations turn)

namespace Records

variable {byte : UInt8} {operations : List Operation} {d : Desk} {turn : Nat}

theorem getElem?_held (records : Records byte operations d) (number : Nat) :
    d.held[number]? = (origins operations)[number]?.map (flagOf operations) := by
  rw [records.held, List.getElem?_map]

theorem armed_iff (records : Records byte operations d) (made : Made operations turn) :
    d.interrupts.armed = some (flagOf operations turn) ↔ Armed operations turn := by
  rw [records.armed]
  constructor
  · rintro ⟨other, armed, same⟩
    rwa [← (flagOf_inj armed.made made).mp same]
  · intro armed
    exact ⟨turn, armed, rfl⟩

theorem inside (records : Records byte operations d) (made : Made operations turn) :
    (flagOf operations turn).flag < d.interrupts.flags.length := by
  rw [records.flags]
  exact flag_lt made

/-- What an operation cancels is what it reaches. -/
theorem target_iff (records : Records byte operations d) (made : Made operations turn)
    (operation : Operation) :
    d.target operation = some (flagOf operations turn) ↔
      Reaches byte operations turn operation := by
  cases operation with
  | raise =>
    refine (records.armed_iff made).trans ⟨.raise, ?_⟩
    rintro ⟨⟩
    assumption
  | take fed =>
    simp only [target, records.routes]
    constructor
    · intro cancels
      split at cancels
      · rename_i same
        subst same
        exact .take ((records.armed_iff made).mp cancels)
      · cases cancels
    · rintro ⟨⟩
      rw [if_pos rfl]
      exact (records.armed_iff made).mpr ‹_›
  | cancel number =>
    simp only [target, records.getElem?_held, Option.map_eq_some_iff]
    constructor
    · rintro ⟨origin, found, same⟩
      have member := made_of_mem_origins (List.mem_of_getElem? found)
      rw [(flagOf_inj member made).mp same] at found
      exact .cancel found
    · rintro ⟨found⟩
      exact ⟨turn, found, rfl⟩
  | arm => exact ⟨nofun, nofun⟩
  | disarm => exact ⟨nofun, nofun⟩
  | make => exact ⟨nofun, nofun⟩
  | copy number => exact ⟨nofun, nofun⟩

theorem raised_operate (records : Records byte operations d) (operation : Operation)
    (made : Made (operations ++ [operation]) turn) :
    (d.operate operation).interrupts.isCancelled (flagOf (operations ++ [operation]) turn) = true ↔
      Raised byte (operations ++ [operation]) turn := by
  rcases made_snoc.mp made with earlier | ⟨rfl, makes⟩
  · rw [flagOf_snoc earlier, isCancelled_operate d operation (records.inside earlier),
      records.raised turn earlier, records.target_iff earlier, raised_snoc]
  · have clear : (d.operate operation).interrupts.isCancelled
        ⟨operations.countP Operation.makes⟩ = false := by
      rw [← records.flags]
      cases operation with
      | arm => exact not_isCancelled_newToken d.interrupts
      | make => exact not_isCancelled_newToken d.interrupts
      | disarm => cases makes
      | raise => cases makes
      | take fed => cases makes
      | copy number => cases makes
      | cancel number => cases makes
    have unreached : ¬ Raised byte (operations ++ [operation]) operations.length := by
      rw [raised_snoc]
      rintro (raised | reaches)
      · exact Nat.lt_irrefl _ raised.made.lt
      · exact Nat.lt_irrefl _ reaches.made.lt
    rw [flagOf_last, clear]
    exact ⟨nofun, fun raised => absurd raised unreached⟩

theorem held_operate (records : Records byte operations d) (operation : Operation) :
    (d.operate operation).held =
      (origins (operations ++ [operation])).map (flagOf (operations ++ [operation])) := by
  have kept : (origins operations).map (flagOf (operations ++ [operation])) = d.held := by
    rw [records.held]
    apply List.map_congr_left
    intro origin member
    exact flagOf_snoc (made_of_mem_origins member)
  have fresh : d.held ++ [⟨d.interrupts.flags.length⟩] =
      (origins operations ++ [operations.length]).map (flagOf (operations ++ [operation])) := by
    rw [List.map_append, kept, List.map_singleton, flagOf_last, records.flags]
  rw [origins_snoc]
  cases operation with
  | arm => exact fresh
  | make => exact fresh
  | copy number =>
    have copied : d.held[number]? =
        (origins operations)[number]?.map (flagOf (operations ++ [.copy number])) := by
      rw [← kept, List.getElem?_map]
    change d.held ++ d.held[number]?.toList = _
    rw [List.map_append, kept, copied, Option.toList_map]
  | disarm => exact kept.symm
  | raise => exact kept.symm
  | take fed => exact kept.symm
  | cancel number => exact kept.symm

theorem armed_operate (records : Records byte operations d) (operation : Operation)
    (token : Token) : (d.operate operation).interrupts.armed = some token ↔
      ∃ turn, Armed (operations ++ [operation]) turn ∧
        flagOf (operations ++ [operation]) turn = token := by
  by_cases arms : operation = .arm
  · subst arms
    simp only [armed_snoc_arm, exists_eq_left, flagOf_last, ← records.flags]
    exact Option.some_inj
  by_cases disarms : operation = .disarm
  · subst disarms
    simp only [not_armed_snoc_disarm, false_and, exists_false, iff_false]
    exact nofun
  rw [Desk.armed_operate d arms disarms, records.armed]
  constructor
  · rintro ⟨turn, armed, same⟩
    exact ⟨turn, (armed_snoc arms disarms).mpr armed, (flagOf_snoc armed.made).trans same⟩
  · rintro ⟨turn, armed, same⟩
    have earlier := (armed_snoc arms disarms).mp armed
    exact ⟨turn, earlier, (flagOf_snoc earlier.made).symm.trans same⟩

theorem operate (records : Records byte operations d) (operation : Operation) :
    Records byte (operations ++ [operation]) (d.operate operation) where
  routes := (d.byte_operate operation).trans records.routes
  flags := by
    rw [length_flags_operate, records.flags, List.countP_append, List.countP_singleton]
  held := records.held_operate operation
  armed := records.armed_operate operation
  raised _ made := records.raised_operate operation made

end Records

theorem after_snoc (byte : UInt8) (operations : List Operation) (operation : Operation) :
    after byte (operations ++ [operation]) = (after byte operations).operate operation := by
  simp [after]

/-- Whatever has been done to a latch, its desk is accounted for. -/
theorem records_after (byte : UInt8) (operations : List Operation) :
    Records byte operations (after byte operations) := by
  induction operations using List.reverseRecOn with
  | nil =>
    refine ⟨rfl, rfl, rfl, fun token => ⟨nofun, ?_⟩, ?_⟩
    · rintro ⟨turn, armed, -⟩
      exact absurd armed.lt (Nat.not_lt_zero turn)
    · intro turn made
      exact absurd made.lt (Nat.not_lt_zero turn)
  | append_singleton operations operation ih =>
    rw [after_snoc]
    exact ih.operate operation

end Desk

/-- A token reads cancelled exactly if an operation reached its flag: one that cancelled a token
with that flag, or an interrupt while the latch was armed with it and with nothing since. No
operation lowers a flag. The interrupt byte is the one that is not passed on, and the latch is armed
exactly if the latest operation that arms or disarms it arms it. -/
theorem reads_iff_raised (byte : UInt8) (operations : List Operation) :
    (∀ (number : Nat) token origin, (Desk.after byte operations).held[number]? = some token →
      (origins operations)[number]? = some origin →
      ((Desk.after byte operations).interrupts.isCancelled token = true ↔
        Raised byte operations origin)) ∧
    (Desk.after byte operations).held.length = (origins operations).length ∧
    (∀ operation token, (Desk.after byte operations).interrupts.isCancelled token = true →
      (Desk.after byte (operations ++ [operation])).interrupts.isCancelled token = true) ∧
    (∀ fed, ((Desk.after byte operations).interrupts.take fed).1 = true ↔ fed = byte) ∧
    ((Desk.after byte operations).interrupts.isArmed = true ↔
      ∃ turn, Armed operations turn) := by
  have records := Desk.records_after byte operations
  refine ⟨?_, ?_, ?_, ?_, ?_⟩
  · intro number token origin held found
    rw [records.getElem?_held, found] at held
    cases held
    exact records.raised origin (made_of_mem_origins (List.mem_of_getElem? found))
  · rw [records.held, List.length_map]
  · intro operation token cancelled
    rw [Desk.after_snoc, Desk.isCancelled_operate _ _ (inside_of_isCancelled cancelled)]
    exact .inl cancelled
  · intro fed
    simp [Interrupts.take, records.routes, apply_ite Prod.fst]
  · rw [isArmed, Option.isSome_iff_exists]
    simp only [records.armed]
    constructor
    · rintro ⟨token, turn, armed, -⟩
      exact ⟨turn, armed⟩
    · rintro ⟨turn, armed⟩
      exact ⟨_, turn, armed, rfl⟩

/-- A copy is cancelled, a free token is left alone, and the interrupt byte finds the second arm. -/
theorem reads_iff_raised_rearmed :
    let operations : List Operation :=
      [.arm, .copy 0, .make, .arm, .take 3, .disarm, .raise, .cancel 1]
    let desk := Desk.after 3 operations
    desk.held = [⟨0⟩, ⟨0⟩, ⟨1⟩, ⟨2⟩] ∧ origins operations = [0, 0, 2, 3] ∧
      Raised 3 operations 0 ∧ ¬ Raised 3 operations 2 ∧ Raised 3 operations 3 ∧
      ¬ ∃ turn, Armed operations turn := by
  intro operations desk
  obtain ⟨reads, -, -, -, armed⟩ := reads_iff_raised 3 operations
  refine ⟨rfl, rfl, ?_, ?_, ?_, ?_⟩
  · exact (reads 1 ⟨0⟩ 0 rfl rfl).mp rfl
  · intro raised
    have cancelled := (reads 2 ⟨1⟩ 2 rfl rfl).mpr raised
    cases cancelled
  · exact (reads 3 ⟨2⟩ 3 rfl rfl).mp rfl
  · intro still
    have latched := armed.mpr still
    cases latched

end DeviceShell.Interrupts
