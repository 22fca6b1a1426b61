import DeviceShell.Json.Letters
import DeviceShell.Text.Numeral

/-! Cutting a JSON text into tokens, one character at a time. The machine holds no nesting, so a
text of any depth takes no more than its tokens. -/

namespace DeviceShell.Json

/-- Inside a number: what has been read last. -/
inductive NumberPlace where
  | minus
  | zero
  | whole
  | point
  | fraction
  | exponentMark
  | exponentSign
  | exponent
  deriving DecidableEq, Repr

namespace NumberPlace

def isEnd : NumberPlace → Bool
  | .zero | .whole | .fraction | .exponent => true
  | .minus | .point | .exponentMark | .exponentSign => false

def first? (c : Char) : Option NumberPlace :=
  if c = '-' then some .minus
  else if c = '0' then some .zero
  else if c.isDigit then some .whole
  else none

/-- Where one more character leads, if it belongs to the number. -/
def next? (c : Char) : NumberPlace → Option NumberPlace
  | .minus => if c = '0' then some .zero else if c.isDigit then some .whole else none
  | .zero => if c = '.' then some .point else if c = 'e' ∨ c = 'E' then some .exponentMark else none
  | .whole =>
    if c.isDigit then some .whole
    else if c = '.' then some .point
    else if c = 'e' ∨ c = 'E' then some .exponentMark
    else none
  | .point => if c.isDigit then some .fraction else none
  | .fraction =>
    if c.isDigit then some .fraction
    else if c = 'e' ∨ c = 'E' then some .exponentMark
    else none
  | .exponentMark =>
    if c.isDigit then some .exponent
    else if c = '+' ∨ c = '-' then some .exponentSign
    else none
  | .exponentSign => if c.isDigit then some .exponent else none
  | .exponent => if c.isDigit then some .exponent else none

end NumberPlace

/-- The value of bare digits when one more character is read. -/
def grow (c : Char) (place : NumberPlace) (natural : Option Nat) : Option Nat :=
  if place = .whole then Text.growBelow UInt64.size natural c else none

inductive Mode where
  | between
  /-- A word of which these letters are left. -/
  | word (left : List Char) (value : Scalar)
  | number (place : NumberPlace) (natural : Option Nat)
  | text (place : TextPlace) (letters : Letters)
  deriving DecidableEq, Repr

/-- The machine, and the tokens that are complete, last one first. -/
structure Lexer where
  mode : Mode := .between
  tokens : List Token := []
  deriving DecidableEq, Repr

namespace Lexer

def emit (token : Token) (l : Lexer) : Lexer := { mode := .between, tokens := token :: l.tokens }

def enter (mode : Mode) (l : Lexer) : Lexer := { l with mode := mode }

def start (l : Lexer) (c : Char) : Option Lexer :=
  if isGap c then some (l.enter .between)
  else if c = quote then some (l.enter (.text .plain {}))
  else if c = 'n' then some (l.enter (.word ['u', 'l', 'l'] .null))
  else if c = 't' then some (l.enter (.word ['r', 'u', 'e'] (.boolean true)))
  else if c = 'f' then some (l.enter (.word ['a', 'l', 's', 'e'] (.boolean false)))
  else
    match NumberPlace.first? c with
    | some place =>
      some (l.enter (.number place (if place = .minus then none else some (c.toNat - '0'.toNat))))
    | none => (Token.ofChar? c).map l.emit

def stepText (l : Lexer) (place : TextPlace) (letters : Letters) (c : Char) : Option Lexer :=
  match place with
  | .plain =>
    if c = quote then some (l.emit (.scalar (.text letters.text?)))
    else if c = backslash then some (l.enter (.text .escape letters))
    else if c < ' ' then none
    else some (l.enter (.text .plain (letters.add c)))
  | .escape =>
    if c = 'u' then some (l.enter (.text (.unit 4 0) letters))
    else (escaped? c).map fun d => l.enter (.text .plain (letters.add d))
  | .unit left value =>
    (hexValue? c).map fun digit =>
      let value := 16 * value + digit
      if left ≤ 1 then l.enter (.text .plain (letters.addUnit value))
      else l.enter (.text (.unit (left - 1) value) letters)

/-- One character more; none if no JSON text goes on like this. -/
def step (l : Lexer) (c : Char) : Option Lexer :=
  match l.mode with
  | .between => l.start c
  | .word [] _ => none
  | .word [last] value => if c = last then some (l.emit (.scalar value)) else none
  | .word (next :: left) value => if c = next then some (l.enter (.word left value)) else none
  | .number place natural =>
    match place.next? c with
    | some further => some (l.enter (.number further (grow c further natural)))
    | none => if place.isEnd then (l.emit (.scalar (.number natural))).start c else none
  | .text place letters => l.stepText place letters c

def finish (l : Lexer) : Option (List Token) :=
  match l.mode with
  | .between => some l.tokens.reverse
  | .number place natural =>
    if place.isEnd then some (l.emit (.scalar (.number natural))).tokens.reverse else none
  | .word _ _ | .text _ _ => none

end Lexer

def tokens? (text : String) : Option (List Token) :=
  (text.toList.foldlM Lexer.step {}).bind Lexer.finish

end DeviceShell.Json
