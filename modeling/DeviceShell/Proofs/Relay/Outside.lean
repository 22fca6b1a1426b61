import DeviceShell.Proofs.Log.Registration
import DeviceShell.Shared

/-! What the actions of other parties come to: the level and the clock they leave, and the records
that they make of what is said. -/
namespace DeviceShell

/-- The level after actions: the last one they set, or else the one before them. -/
def lastLevel (level : Log.Level) (actions : List Action) : Log.Level :=
  actions.foldl (fun level action => match action with
    | .setLevel new => new
    | _ => level) level

/-- The clock after actions. -/
def lastClock (clock : UInt64) (actions : List Action) : UInt64 :=
  actions.foldl (fun clock action => match action with
    | .setClock new => new
    | _ => clock) clock

/-- The records of what actions say, leaving out what the level at that moment does not allow. -/
def heard : Log.Level → UInt64 → List Action → List String
  | _, _, [] => []
  | level, clock, .emit e :: later =>
    if level.allows e.level then e.record clock :: heard level clock later
    else heard level clock later
  | _, clock, .setLevel new :: later => heard new clock later
  | level, _, .setClock new :: later => heard level new later
  | level, clock, .raise :: later | level, clock, .input _ :: later => heard level clock later

theorem heard_append (level : Log.Level) (clock : UInt64) (first second : List Action) :
    heard level clock (first ++ second) =
      heard level clock first ++ heard (lastLevel level first) (lastClock clock first) second := by
  induction first generalizing level clock with
  | nil => rfl
  | cons action later ih =>
    cases action with
    | emit e =>
      by_cases allowed : level.allows e.level
      · simp only [List.cons_append, heard, allowed, if_true, ih]
        rfl
      · simp only [List.cons_append, heard, allowed, ih]
        rfl
    | setLevel new => exact ih new clock
    | setClock new => exact ih level new
    | raise => exact ih level clock
    | input byte => exact ih level clock

theorem lastLevel_of_untouched {level : Log.Level} {actions : List Action}
    (untouched : ∀ new, .setLevel new ∉ actions) : lastLevel level actions = level := by
  induction actions with
  | nil => rfl
  | cons action later ih =>
    have rest := ih fun new member => untouched new (List.mem_cons_of_mem _ member)
    cases action with
    | setLevel new => exact absurd List.mem_cons_self (untouched new)
    | emit e => exact rest
    | setClock clock => exact rest
    | raise => exact rest
    | input byte => exact rest

namespace Shared

theorem level_actAll (s : Shared) (actions : List Action) :
    (s.actAll actions).log.hub.level = lastLevel s.log.hub.level actions := by
  induction actions generalizing s with
  | nil => rfl
  | cons action later ih =>
    refine (ih (s.act action)).trans ?_
    cases action <;> rfl

theorem clock_actAll (s : Shared) (actions : List Action) :
    (s.actAll actions).log.clock = lastClock s.log.clock actions := by
  induction actions generalizing s with
  | nil => rfl
  | cons action later ih =>
    refine (ih (s.act action)).trans ?_
    cases action <;> rfl

theorem sinks_actAll (s : Shared) (actions : List Action) :
    (s.actAll actions).log.hub.sinks = s.log.hub.sinks := by
  induction actions generalizing s with
  | nil => rfl
  | cons action later ih =>
    refine (ih (s.act action)).trans ?_
    cases action <;> rfl

theorem numbered_actAll {s : Shared} {asked : Nat} (numbered : s.log.hub.Numbered asked)
    (actions : List Action) : (s.actAll actions).log.hub.Numbered asked := by
  induction actions generalizing s with
  | nil => exact numbered
  | cons action later ih =>
    cases action with
    | setLevel level => exact ih (numbered.setLevel level)
    | emit e => exact ih numbered
    | setClock clock => exact ih numbered
    | raise => exact ih numbered
    | input byte => exact ih numbered

theorem actAll_append (s : Shared) (first second : List Action) :
    s.actAll (first ++ second) = (s.actAll first).actAll second := List.foldl_append

@[simp] theorem actAll_append_singleton (s : Shared) (actions : List Action) (action : Action) :
    s.actAll (actions ++ [action]) = (s.actAll actions).act action := by
  simp [actAll]

end Shared

end DeviceShell
