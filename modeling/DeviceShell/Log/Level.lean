/-! The device-wide log threshold and the order of severities. -/

namespace DeviceShell.Log

/-- A severity, or the threshold that was never chosen: `unset` acts as `info` but keeps a name of
its own. -/
inductive Level where
  | unset
  | trace
  | debug
  | info
  | warn
  | error
  deriving DecidableEq, Repr

namespace Level

def all : List Level := [.unset, .trace, .debug, .info, .warn, .error]

def name : Level → String
  | .unset => "default"
  | .trace => "trace"
  | .debug => "debug"
  | .info => "info"
  | .warn => "warn"
  | .error => "error"

def ofName? (name : String) : Option Level := all.find? fun level => level.name = name

def number : Level → UInt8
  | .unset => 0
  | .trace => 1
  | .debug => 2
  | .info => 3
  | .warn => 4
  | .error => 5

/-- Numbers that stand for no level mean that none was chosen. -/
def ofNumber (number : UInt8) : Level :=
  (all.find? fun level => level.number = number).getD .unset

def effective : Level → Level
  | .unset => .info
  | level => level

def letter (level : Level) : String :=
  match level.effective with
  | .trace => "T"
  | .debug => "D"
  | .warn => "W"
  | .error => "E"
  | .unset | .info => "I"

def rank (level : Level) : UInt8 := level.effective.number

/-- A threshold lets through the records that are at least as severe. -/
def allows (threshold record : Level) : Bool := threshold.rank ≤ record.rank

/-- The severity a level filters by, in capitals. -/
def filterName (level : Level) : String := level.effective.name.toUpper

theorem ofName?_name (level : Level) : ofName? level.name = some level := by
  cases level <;> decide

end Level

end DeviceShell.Log
