import DeviceShell.Json.Token

/-! The outline of a JSON text: its outermost bracket and what stands directly in it. What lies
deeper is checked and passed over, to any depth. -/

namespace DeviceShell.Json

inductive Awaiting where
  | value
  | valueOrClose
  | key
  | keyOrClose
  | colon
  | commaOrClose
  | nothing
  deriving DecidableEq, Repr

/-- What may come next, and the brackets that are open, innermost first. -/
structure Grammar where
  awaiting : Awaiting := .value
  nesting : List Bracket := []
  deriving DecidableEq, Repr

namespace Grammar

def afterValue (nesting : List Bracket) : Grammar :=
  ⟨if nesting.isEmpty then .nothing else .commaOrClose, nesting⟩

def value (nesting : List Bracket) : Token → Option Grammar
  | .scalar _ => some (afterValue nesting)
  | .opening .square => some ⟨.valueOrClose, .square :: nesting⟩
  | .opening .curly => some ⟨.keyOrClose, .curly :: nesting⟩
  | _ => none

def close (nesting : List Bracket) (bracket : Bracket) : Option Grammar :=
  match nesting with
  | innermost :: outer => if innermost = bracket then some (afterValue outer) else none
  | [] => none

def key (nesting : List Bracket) : Token → Option Grammar
  | .scalar (.text _) => some ⟨.colon, nesting⟩
  | _ => none

def afterComma (nesting : List Bracket) : Option Grammar :=
  match nesting with
  | .square :: _ => some ⟨.value, nesting⟩
  | .curly :: _ => some ⟨.key, nesting⟩
  | [] => none

/-- One token more; none if no JSON text goes on like this. -/
def step (g : Grammar) (token : Token) : Option Grammar :=
  match g.awaiting, token with
  | .value, _ => value g.nesting token
  | .valueOrClose, .closing bracket => close g.nesting bracket
  | .valueOrClose, _ => value g.nesting token
  | .key, _ => key g.nesting token
  | .keyOrClose, .closing bracket => close g.nesting bracket
  | .keyOrClose, _ => key g.nesting token
  | .colon, .colon => some ⟨.value, g.nesting⟩
  | .commaOrClose, .comma => afterComma g.nesting
  | .commaOrClose, .closing bracket => close g.nesting bracket
  | _, _ => none

end Grammar

/-- A value as far as an outline shows it. -/
inductive Item where
  | scalar (value : Scalar)
  | nested
  deriving DecidableEq, Repr

/-- A member's key and value. In a sequence, and for a key that is no text, the key is missing. -/
structure Member where
  key : Option String
  value : Item
  deriving DecidableEq, Repr

/-- An outline being drawn: the grammar, the outermost bracket, the key of the next member, and the
members so far, last one first. -/
structure Outline where
  grammar : Grammar := {}
  bracket : Option Bracket := none
  key : Option String := none
  members : List Member := []
  deriving DecidableEq, Repr

namespace Outline

def append (item : Item) (o : Outline) : Outline :=
  { o with key := none, members := ⟨o.key, item⟩ :: o.members }

/-- What a token adds, given the grammar after it. -/
def note (token : Token) (after : Grammar) (o : Outline) : Outline :=
  match o.grammar.nesting, token with
  | [], .opening bracket => { o with bracket := some bracket }
  | [_], .scalar value =>
    match o.grammar.awaiting, value with
    | .key, .text name => { o with key := name }
    | .keyOrClose, .text name => { o with key := name }
    | _, _ => o.append (.scalar value)
  | [_, _], .closing _ => if after.nesting.length = 1 then o.append .nested else o
  | _, _ => o

def step (o : Outline) (token : Token) : Option Outline :=
  (o.grammar.step token).map fun after => { o.note token after with grammar := after }

def finish (o : Outline) : Option (Option Bracket × List Member) :=
  if o.grammar.awaiting = .nothing then some (o.bracket, o.members.reverse) else none

end Outline

/-- The outermost bracket, if the text has one, and what stands directly in it. -/
def outline? (tokens : List Token) : Option (Option Bracket × List Member) :=
  (tokens.foldlM Outline.step {}).bind Outline.finish

end DeviceShell.Json
