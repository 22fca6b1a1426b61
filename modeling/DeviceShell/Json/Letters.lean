import DeviceShell.Json.Token

/-! The contents of a JSON text, character by character and escape by escape. -/

namespace DeviceShell.Json

def hexValue? (c : Char) : Option Nat :=
  if '0' ≤ c ∧ c ≤ '9' then some (c.toNat - '0'.toNat)
  else if 'a' ≤ c ∧ c ≤ 'f' then some (c.toNat - 'a'.toNat + 10)
  else if 'A' ≤ c ∧ c ≤ 'F' then some (c.toNat - 'A'.toNat + 10)
  else none

def escaped? (c : Char) : Option Char :=
  if c = quote ∨ c = backslash ∨ c = '/' then some c
  else if c = 'b' then some '\x08'
  else if c = 'f' then some '\x0c'
  else if c = 'n' then some '\n'
  else if c = 'r' then some '\r'
  else if c = 't' then some '\t'
  else none

/-- A code unit that begins a surrogate pair. -/
def isHigh (unit : Nat) : Bool := 0xD800 ≤ unit && unit < 0xDC00

def isLow (unit : Nat) : Bool := 0xDC00 ≤ unit && unit < 0xE000

def joinPair (high low : Nat) : Char :=
  Char.ofNat (0x10000 + (high - 0xD800) * 0x400 + (low - 0xDC00))

/-- The characters so far, last one first, the first half of a pair whose second half must come
next, and whether every pair so far was whole. -/
structure Letters where
  done : List Char := []
  high : Option Nat := none
  sound : Bool := true
  deriving DecidableEq, Repr

namespace Letters

def add (c : Char) (l : Letters) : Letters :=
  { done := c :: l.done, high := none, sound := l.sound && l.high.isNone }

def addUnit (unit : Nat) (l : Letters) : Letters :=
  match l.high with
  | some high =>
    if isLow unit then { l with done := joinPair high unit :: l.done, high := none }
    else { l with high := none, sound := false }
  | none =>
    if isHigh unit then { l with high := some unit }
    else if isLow unit then { l with sound := false }
    else l.add (Char.ofNat unit)

def text? (l : Letters) : Option String :=
  if l.sound && l.high.isNone then some (String.ofList l.done.reverse) else none

end Letters

/-- Inside a text: between characters, after a backslash, or in the digits of a code unit. -/
inductive TextPlace where
  | plain
  | escape
  | unit (left value : Nat)
  deriving DecidableEq, Repr

end DeviceShell.Json
