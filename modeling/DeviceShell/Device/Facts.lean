import DeviceShell.Text.Fit
import DeviceShell.Text.Numeral

/-! What a device says about itself. -/

namespace DeviceShell

/-- A group of properties to list. -/
inductive Scope where
  | device
  | power
  /-- Every property, with other keys. -/
  | all
  deriving DecidableEq, Repr

structure Facts where
  name : String := ""
  model : String := ""
  firmware : String := ""
  properties : Scope → List (String × String) := fun _ => []

namespace Facts

def version : String := "0.3.0"

/-- Bytes kept of a name or a model. -/
def nameLimit : Nat := 24

/-- What stands between a property's group and its key. -/
def separator : Scope → String
  | .all => "_"
  | .device | .power => "."

/-- The board that the program runs on: its properties by group, and whether a scope lists them. -/
def board (name model system : String) (cores : Nat) : Facts :=
  let name := Text.fit nameLimit name
  let hardware : List (String × String × String) :=
    [("hardware", "name", name), ("hardware", "model", model),
     ("hardware", "cores", Text.decimal cores), ("firmware", "version", version),
     ("firmware", "target", system)]
  let power : List (String × String × String) :=
    [("power", "source", "external"), ("power", "battery", "absent")]
  { name := name
    model := model
    firmware := version
    properties := fun scope =>
      let listed := match scope with
        | .device => hardware
        | .power => power
        | .all => hardware ++ power
      listed.map fun (group, key, value) => (group ++ separator scope ++ key, value) }

end Facts

end DeviceShell
