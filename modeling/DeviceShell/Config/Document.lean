import DeviceShell.Config.Basic
import DeviceShell.Json.Library

/-! Configurations as JSON documents: members by name in any order, or values in the order of the
fields. What is not given keeps its usual value, and members of other names are passed over. -/

namespace DeviceShell.Config

/-- The parts of a configuration, in the order in which they are written. -/
inductive Field where
  | relayTimeout
  | relayChunk
  | topInterval
  | helpColumns
  | helpWidth
  | interruptByte
  | prompt
  | sourceUrl
  deriving DecidableEq, Repr

namespace Field

def all : List Field :=
  [.relayTimeout, .relayChunk, .topInterval, .helpColumns, .helpWidth, .interruptByte, .prompt,
   .sourceUrl]

def key : Field → String
  | .relayTimeout => "relay_read_timeout_ms"
  | .relayChunk => "relay_chunk_size"
  | .topInterval => "top_interval_ms"
  | .helpColumns => "help_columns"
  | .helpWidth => "help_column_width"
  | .interruptByte => "interrupt_byte"
  | .prompt => "prompt"
  | .sourceUrl => "source_url"

def ofKey? (key : String) : Option Field := all.find? fun f => f.key = key

theorem ofKey?_key (f : Field) : ofKey? f.key = some f := by
  cases f <;> decide

end Field

/-- A number below a bound, written as bare digits. -/
def natural? (bound : Nat) : Json.Item → Option Nat
  | .scalar (.number (some n)) => if n < bound then some n else none
  | _ => none

def text? (limit : Nat) : Json.Item → Option (Text.Bounded limit)
  | .scalar (.text (some t)) => Text.Bounded.ofString? limit t
  | _ => none

/-- Set a field, if the value is one that it can have. -/
def set? (item : Json.Item) (c : Config) : Field → Option Config
  | .relayTimeout => (natural? UInt32.size item).map fun n => { c with relayTimeout := .ofNat n }
  | .relayChunk => (natural? UInt64.size item).map fun n => { c with relayChunk := .ofNat n }
  | .topInterval => (natural? UInt32.size item).map fun n => { c with topInterval := .ofNat n }
  | .helpColumns => (natural? UInt64.size item).map fun n => { c with helpColumns := .ofNat n }
  | .helpWidth => (natural? UInt64.size item).map fun n => { c with helpWidth := .ofNat n }
  | .interruptByte => (natural? UInt8.size item).map fun n => { c with interruptByte := .ofNat n }
  | .prompt => (text? 16 item).map fun t => { c with prompt := t }
  | .sourceUrl => (text? 96 item).map fun t => { c with sourceUrl := t }

/-- Set fields by position. There is no position after the last field. -/
def setInOrder : List Field → List Json.Member → Config → Option Config
  | _, [], c => some c
  | [], _ :: _, _ => none
  | f :: fs, m :: ms, c => (c.set? m.value f).bind (setInOrder fs ms)

/-- Set fields by key, given those already set; a field is set once. -/
def setByKey : List Field → List Json.Member → Config → Option Config
  | _, [], c => some c
  | set, m :: ms, c =>
    match m.key with
    | none => none
    | some key =>
      match Field.ofKey? key with
      | none => setByKey set ms c
      | some f => if f ∈ set then none else (c.set? m.value f).bind (setByKey (f :: set) ms)

def ofOutline : Option Json.Bracket × List Json.Member → Option Config
  | (some .square, members) => setInOrder Field.all members {}
  | (some .curly, members) => setByKey [] members {}
  | (none, _) => none

/-- The configuration that a text describes, usable or not. -/
def ofText? (json : Json.Library) (text : String) : Option Config :=
  (json.outline? text).bind ofOutline

def ofJson (json : Json.Library) (text : String) : Except Failure Config :=
  match ofText? json text with
  | some c => c.validate
  | none => .error (.config "malformed JSON")

/-- What is written for a field. -/
def value (c : Config) : Field → Json.Datum
  | .relayTimeout => .natural c.relayTimeout.toUInt64
  | .relayChunk => .natural c.relayChunk
  | .topInterval => .natural c.topInterval.toUInt64
  | .helpColumns => .natural c.helpColumns
  | .helpWidth => .natural c.helpWidth
  | .interruptByte => .natural c.interruptByte.toUInt64
  | .prompt => .text c.prompt.text
  | .sourceUrl => .text c.sourceUrl.text

/-- Write a configuration: every field, in order. -/
def toJson (json : Json.Library) (c : Config) : String :=
  json.writeObject (Field.all.map fun f => (f.key, c.value f))

end DeviceShell.Config
