import DeviceShell.Device.Basic
import DeviceShell.Proofs.Interrupts.Handles

/-! What neither a command nor another task changes for good. -/
namespace DeviceShell

/-- As many sinks and the same interrupt byte. -/
structure Shared.Alike (s t : Shared) : Prop where
  places : t.log.hub.sinks.length = s.log.hub.sinks.length
  byte : t.interrupts.byte = s.interrupts.byte

namespace Shared

variable {s t u : Shared}

theorem Alike.refl (s : Shared) : s.Alike s := ⟨rfl, rfl⟩

theorem Alike.trans (first : s.Alike t) (second : t.Alike u) : s.Alike u :=
  ⟨second.places.trans first.places, second.byte.trans first.byte⟩

theorem byte_raise (i : Interrupts) : i.raise.byte = i.byte := i.alike_raise.byte

theorem byte_take (byte : UInt8) (i : Interrupts) : (i.take byte).2.byte = i.byte :=
  (Interrupts.alike_take byte i).byte

theorem alike_act (s : Shared) (action : Action) : s.Alike (s.act action) := by
  cases action with
  | emit e => exact ⟨rfl, rfl⟩
  | setLevel level => exact ⟨rfl, rfl⟩
  | setClock clock => exact ⟨rfl, rfl⟩
  | raise => exact ⟨rfl, byte_raise s.interrupts⟩
  | input byte => exact ⟨rfl, byte_take byte s.interrupts⟩

theorem alike_actAll (s : Shared) (actions : List Action) : s.Alike (s.actAll actions) := by
  induction actions generalizing s with
  | nil => exact .refl s
  | cons action later ih => exact (s.alike_act action).trans (ih (s.act action))

end Shared

/-- Alike to the reader and to a command that has to decide whether it goes on. -/
structure Device.Alike (d e : Device) : Prop where
  shared : d.shared.Alike e.shared
  appRunning : e.flags.appRunning = d.flags.appRunning

namespace Device

variable {d e f : Device}

theorem Alike.refl (d : Device) : d.Alike d := ⟨.refl _, rfl⟩

theorem Alike.trans (first : d.Alike e) (second : e.Alike f) : d.Alike f :=
  ⟨first.shared.trans second.shared, second.appRunning.trans first.appRunning⟩

end Device

end DeviceShell
