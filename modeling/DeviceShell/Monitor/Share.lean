import DeviceShell.Text.Align
import DeviceShell.Text.Fit
import DeviceShell.Text.Numeral

/-! Shares of a whole, and how shares and run times are written. -/

namespace DeviceShell.Monitor

/-- Tenths of a percent, rounded down; nothing is no share of nothing. The quotient is kept in 64
bits. -/
def permille (part whole : UInt64) : UInt64 :=
  if whole = 0 then 0 else UInt64.ofNat (part.toNat * 1000 / whole.toNat)

def percent (part whole : UInt64) : UInt64 := permille part whole / 10

/-- Bytes that a number of tenths is written in. -/
def tenthsRoom : Nat := 24

/-- A number of tenths, with a point before the last digit. -/
def tenthsPieces (value : UInt64) : List String :=
  [Text.decimal (value.toNat / 10), ".", Text.decimal (value.toNat % 10)]

def tenths (value : UInt64) : String := Text.joinWhole tenthsRoom (tenthsPieces value)

/-- A number of tenths as it is displayed: it is written in its room, and set in the field from
there. -/
def displayTenths (field : Text.Field) (value : UInt64) : String := field.set (tenths value)

def uptime (seconds : UInt64) : String :=
  let s := seconds.toNat
  Text.decimal (s / 3600) ++ "h" ++ Text.decimal (s / 60 % 60) ++ "m" ++
    Text.decimal (s % 60) ++ "s"

def uptimeOfMillis (millis : UInt64) : String := uptime (millis / 1000)

theorem utf8ByteSize_join_tenthsPieces_le (value : UInt64) :
    (String.join (tenthsPieces value)).utf8ByteSize ≤ tenthsRoom := by
  have units : (Text.decimal (value.toNat / 10)).utf8ByteSize ≤ 20 :=
    Text.utf8ByteSize_decimal_le (Nat.lt_of_le_of_lt (Nat.div_le_self ..) value.toNat_lt)
  have last : (Text.decimal (value.toNat % 10)).utf8ByteSize = 1 := by
    rw [Text.utf8ByteSize_decimal, Nat.toDigits_of_lt_base (Nat.mod_lt _ (by decide))]
    rfl
  have point : ".".utf8ByteSize = 1 := rfl
  simp only [tenthsPieces, String.join_cons, String.join_nil, String.utf8ByteSize_append,
    String.utf8ByteSize_empty, point, tenthsRoom]
  omega

/-- No number of 64 bits is too long for the room. -/
theorem tenths_eq (value : UInt64) : tenths value =
    Text.decimal (value.toNat / 10) ++ "." ++ Text.decimal (value.toNat % 10) := by
  rw [tenths, Text.joinWhole_of_fits (utf8ByteSize_join_tenthsPieces_le value)]
  simp only [tenthsPieces, String.join_cons, String.join_nil, String.append_empty,
    String.append_assoc]

@[simp] theorem displayTenths_plain (value : UInt64) : displayTenths {} value = tenths value := by
  simp [displayTenths, Text.Field.set, Text.Field.kept, Text.repeated]

theorem displayTenths_right (width : Nat) (value : UInt64) :
    displayTenths { place := .right, width := width } value =
      Text.alignRight width (tenths value) := rfl

end DeviceShell.Monitor
