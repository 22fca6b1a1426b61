/-! The tokens of a JSON text. -/

namespace DeviceShell.Json

/-- The two kinds of brackets: square ones hold a sequence, curly ones members. -/
inductive Bracket where
  | square
  | curly
  deriving DecidableEq, Repr

/-- A value without parts. A number keeps its value only if it is written as bare digits and 64
bits can hold it, and a text is missing if its escapes name half of a surrogate pair. -/
inductive Scalar where
  | null
  | boolean (value : Bool)
  | number (natural : Option Nat)
  | text (value : Option String)
  deriving DecidableEq, Repr

/-- A value that can be written: a natural number of 64 bits, or a text. -/
inductive Datum where
  | natural (value : UInt64)
  | text (value : String)
  deriving DecidableEq, Repr

def Datum.scalar : Datum → Scalar
  | .natural n => .number (some n.toNat)
  | .text t => .text (some t)

inductive Token where
  | opening (bracket : Bracket)
  | closing (bracket : Bracket)
  | comma
  | colon
  | scalar (value : Scalar)
  deriving DecidableEq, Repr

def isGap (c : Char) : Bool := c = ' ' || c = '\n' || c = '\t' || c = '\r'

def openSquare : Char := '\x5b'

def closeSquare : Char := '\x5d'

def openCurly : Char := '\x7b'

def closeCurly : Char := '\x7d'

def quote : Char := '\x22'

def backslash : Char := '\x5c'

def Token.ofChar? (c : Char) : Option Token :=
  if c = openSquare then some (.opening .square)
  else if c = closeSquare then some (.closing .square)
  else if c = openCurly then some (.opening .curly)
  else if c = closeCurly then some (.closing .curly)
  else if c = ',' then some .comma
  else if c = ':' then some .colon
  else none

end DeviceShell.Json
