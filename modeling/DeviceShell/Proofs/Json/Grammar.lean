import DeviceShell.Json.Token
import DeviceShell.Text.Numeral
import Mathlib.Data.List.Forall2

/-! JSON by its grammar: which characters are a value, and in which ways a text can be spelled. No
reader comes into this. -/
namespace DeviceShell.Json

/-- What may stand between two tokens. -/
def Gap (cs : List Char) : Prop := ∀ c ∈ cs, c ∈ [' ', '\n', '\t', '\r']

instance (cs : List Char) : Decidable (Gap cs) := List.decidableBAll _ cs

section Numbers

/-- Some digits, at least one. -/
def Digits (cs : List Char) : Prop := cs ≠ [] ∧ ∀ c ∈ cs, c.isDigit = true

instance (cs : List Char) : Decidable (Digits cs) :=
  have := List.decidableBAll (fun c : Char => c.isDigit = true) cs
  inferInstanceAs (Decidable (_ ∧ _))

/-- Only zero begins with a zero. -/
inductive Whole : List Char → Prop
  | zero : Whole ['0']
  | digits {c : Char} {cs : List Char} : c.isDigit = true → c ≠ '0' →
      (∀ d ∈ cs, d.isDigit = true) → Whole (c :: cs)

inductive Fraction : List Char → Prop
  | none : Fraction []
  | digits {cs : List Char} : Digits cs → Fraction ('.' :: cs)

inductive Exponent : List Char → Prop
  | none : Exponent []
  | digits {mark : Char} {sign cs : List Char} : mark ∈ ['e', 'E'] → sign ∈ [[], ['+'], ['-']] →
      Digits cs → Exponent (mark :: (sign ++ cs))

def Number (cs : List Char) : Prop :=
  ∃ sign whole fraction exponent, sign ∈ [[], ['-']] ∧ Whole whole ∧ Fraction fraction ∧
    Exponent exponent ∧ cs = sign ++ (whole ++ (fraction ++ exponent))

end Numbers

section Texts

/-- A digit in base sixteen, with small letters or capitals. -/
def HexDigit (c : Char) (n : Nat) : Prop :=
  n < 16 ∧ (c = Nat.digitChar n ∨ c = (Nat.digitChar n).toUpper)

/-- The four digits of a code unit. -/
inductive CodeUnit : Nat → List Char → Prop
  | digits {a b c d : Char} {w x y z : Nat} : HexDigit a w → HexDigit b x → HexDigit c y →
      HexDigit d z → CodeUnit (((w * 16 + x) * 16 + y) * 16 + z) [a, b, c, d]

/-- The letters that stand for a character behind a backslash. -/
def escapes : List (Char × Char) :=
  [(quote, quote), (backslash, backslash), ('/', '/'), ('b', '\x08'), ('f', '\x0c'), ('n', '\n'),
   ('r', '\r'), ('t', '\t')]

/-- A character that may stand for itself. -/
def Plain (c : Char) : Prop := c ≠ quote ∧ c ≠ backslash ∧ ' ' ≤ c

/-- The ways to write a character inside a text. Beyond sixteen bits it takes two code units. -/
inductive Letter : Char → List Char → Prop
  | plain {c : Char} : Plain c → Letter c [c]
  | escape {c letter : Char} : (letter, c) ∈ escapes → Letter c [backslash, letter]
  | unit {c : Char} {digits : List Char} : CodeUnit c.toNat digits →
      Letter c (backslash :: 'u' :: digits)
  | pair {c : Char} {high low : List Char} : 0x10000 ≤ c.toNat →
      CodeUnit (0xD800 + (c.toNat - 0x10000) / 0x400) high →
      CodeUnit (0xDC00 + (c.toNat - 0x10000) % 0x400) low →
      Letter c (backslash :: 'u' :: high ++ backslash :: 'u' :: low)

/-- The ways to write a text. -/
def Quoted (text : String) (cs : List Char) : Prop :=
  ∃ letters, List.Forall₂ Letter text.toList letters ∧ cs = quote :: (letters.flatten ++ [quote])

/-- What stands inside quotes, whether or not its code units come in whole pairs. -/
inductive Stroke : List Char → Prop
  | plain {c : Char} : Plain c → Stroke [c]
  | escape {c letter : Char} : (letter, c) ∈ escapes → Stroke [backslash, letter]
  | unit {n : Nat} {digits : List Char} : CodeUnit n digits → Stroke (backslash :: 'u' :: digits)

/-- The ways to write a natural number or a text so that it is understood. -/
inductive Meant : Datum → List Char → Prop
  | natural (n : UInt64) : Meant (.natural n) (Text.decimal n.toNat).toList
  | text {text : String} {cs : List Char} : Quoted text cs → Meant (.text text) cs

/-- Quotes with anything inside. -/
def Literal (cs : List Char) : Prop :=
  ∃ strokes : List (List Char), (∀ stroke ∈ strokes, Stroke stroke) ∧
    cs = quote :: (strokes.flatten ++ [quote])

end Texts

section Values

/-- Characters with gaps around them. -/
def Spaced (cs ds : List Char) : Prop :=
  ∃ before after, Gap before ∧ Gap after ∧ ds = before ++ (cs ++ after)

/-- A key and a value, with gaps around either. -/
def Keyed (key value cs : List Char) : Prop :=
  ∃ before behind, Spaced key before ∧ Spaced value behind ∧ cs = before ++ ':' :: behind

theorem spaced_self (cs : List Char) : Spaced cs cs :=
  ⟨[], [], List.forall_mem_nil _, List.forall_mem_nil _, (List.append_nil cs).symm⟩

theorem spaced_append {gap : List Char} (blank : Gap gap) (cs : List Char) : Spaced cs (cs ++ gap) :=
  ⟨[], gap, List.forall_mem_nil _, blank, rfl⟩

theorem spaced_prepend {gap : List Char} (blank : Gap gap) (cs : List Char) :
    Spaced cs (gap ++ cs) :=
  ⟨gap, [], blank, List.forall_mem_nil _, by rw [List.append_nil]⟩

theorem keyed_self (key value : List Char) : Keyed key value (key ++ ':' :: value) :=
  ⟨key, value, spaced_self key, spaced_self value, rfl⟩

def Bracket.left : Bracket → Char
  | .square => openSquare
  | .curly => openCurly

def Bracket.right : Bracket → Char
  | .square => closeSquare
  | .curly => closeCurly

def Bracket.around (bracket : Bracket) (cs : List Char) : List Char :=
  bracket.left :: (cs ++ [bracket.right])

/-- Members inside curly brackets, or nothing but a gap. -/
def Object (members : List (List Char)) (cs : List Char) : Prop :=
  ∃ gap, Gap gap ∧ cs = Bracket.curly.around (List.intercalate [','] members ++ gap)

/-- The words of the grammar, and what they stand for. -/
def words : List (Scalar × List Char) :=
  [(.null, ['n', 'u', 'l', 'l']), (.boolean true, ['t', 'r', 'u', 'e']),
   (.boolean false, ['f', 'a', 'l', 's', 'e'])]

/-- A value, what stands between two commas inside brackets, or all that stands inside them. -/
inductive Form where
  | value
  | element (bracket : Bracket)
  | elements (bracket : Bracket)

/-- The characters of a form. Values are of any kind and depth, with gaps wherever there may be
gaps. -/
inductive Written : Form → List Char → Prop
  | word {scalar : Scalar} {cs : List Char} : (scalar, cs) ∈ words → Written .value cs
  | number {cs : List Char} : Number cs → Written .value cs
  | text {cs : List Char} : Literal cs → Written .value cs
  | empty {bracket : Bracket} {gap : List Char} : Gap gap → Written .value (bracket.around gap)
  | nested {bracket : Bracket} {cs : List Char} : Written (.elements bracket) cs →
      Written .value (bracket.around cs)
  | item {cs ds : List Char} : Written .value cs → Spaced cs ds → Written (.element .square) ds
  | member {key cs ds : List Char} : Literal key → Written .value cs → Keyed key cs ds →
      Written (.element .curly) ds
  | last {bracket : Bracket} {cs : List Char} : Written (.element bracket) cs →
      Written (.elements bracket) cs
  | more {bracket : Bracket} {cs ds : List Char} : Written (.element bracket) cs →
      Written (.elements bracket) ds → Written (.elements bracket) (cs ++ ',' :: ds)

/-- The tokens of a form. -/
inductive Shaped : Form → List Token → Prop
  | scalar (scalar : Scalar) : Shaped .value [.scalar scalar]
  | empty (bracket : Bracket) : Shaped .value [.opening bracket, .closing bracket]
  | nested {bracket : Bracket} {tokens : List Token} : Shaped (.elements bracket) tokens →
      Shaped .value (.opening bracket :: (tokens ++ [.closing bracket]))
  | item {tokens : List Token} : Shaped .value tokens → Shaped (.element .square) tokens
  | member {tokens : List Token} (key : Option String) : Shaped .value tokens →
      Shaped (.element .curly) (.scalar (.text key) :: .colon :: tokens)
  | last {bracket : Bracket} {tokens : List Token} : Shaped (.element bracket) tokens →
      Shaped (.elements bracket) tokens
  | more {bracket : Bracket} {first later : List Token} : Shaped (.element bracket) first →
      Shaped (.elements bracket) later → Shaped (.elements bracket) (first ++ .comma :: later)

end Values

end DeviceShell.Json
