import DeviceShell.Log.Level
import DeviceShell.Text.Fit
import DeviceShell.Text.Numeral

/-! Log records: what a task has to say, stamped and cut to the size of a record. -/

namespace DeviceShell.Log

/-- Something said to the log. The message comes in the pieces in which it was put together. -/
structure Emission where
  level : Level
  target : String
  message : List String
  deriving DecidableEq, Repr

/-- Bytes in a record before its line end. -/
def bodyLimit : Nat := 254

def lineEnd : String := "\r\n"

/-- A record opens with the milliseconds since start, the severity and the speaker. -/
def stamp (clock : UInt64) (level : Level) (target : String) : List String :=
  [Text.decimal clock.toNat, " [", level.letter, "][", target, "] "]

namespace Emission

def pieces (e : Emission) (clock : UInt64) : List String :=
  stamp clock e.level e.target ++ e.message

def body (e : Emission) (clock : UInt64) : String := Text.fitPieces bodyLimit (e.pieces clock)

def record (e : Emission) (clock : UInt64) : String := e.body clock ++ lineEnd

end Emission

end DeviceShell.Log
