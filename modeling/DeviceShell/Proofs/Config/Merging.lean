import DeviceShell.Config.Document
import DeviceShell.Proofs.Json.Library

/-! Reading a document merges it into the usual configuration. Of its members only those count that
fields have the names of, and of these only their values: the order of the members, the gaps between
the tokens, the spelling of the texts and all the other members are lost. -/
namespace DeviceShell.Config

/-- Another configuration with one field of this one. -/
def lend (c d : Config) : Field → Config
  | .relayTimeout => { d with relayTimeout := c.relayTimeout }
  | .relayChunk => { d with relayChunk := c.relayChunk }
  | .topInterval => { d with topInterval := c.topInterval }
  | .helpColumns => { d with helpColumns := c.helpColumns }
  | .helpWidth => { d with helpWidth := c.helpWidth }
  | .interruptByte => { d with interruptByte := c.interruptByte }
  | .prompt => { d with prompt := c.prompt }
  | .sourceUrl => { d with sourceUrl := c.sourceUrl }

/-- The characters of a member: the value that a field has here, or any value at all if no field has
this name. -/
def Writes (c : Config) (key : String) (cs : List Char) : Prop :=
  ∃ name value, Json.Quoted key name ∧ Json.Keyed name value cs ∧
    match Field.ofKey? key with
    | some f => Json.Meant (c.value f) value
    | none => Json.Written .value value

/-- A document whose members have these keys, in this order. -/
def Document (c : Config) (keys : List String) (text : String) : Prop :=
  ∃ members object, List.Forall₂ c.Writes keys members ∧ Json.Object members object ∧
    Json.Spaced object text.toList

/-- The usual configuration, with the fields of these names from this one. -/
def merged (c : Config) (keys : List String) : Config :=
  (keys.filterMap Field.ofKey?).foldl c.lend {}

/-- What it takes to be valid. -/
structure Usable (c : Config) : Prop where
  relayTimeout : c.relayTimeout ≠ 0
  relayChunk : c.relayChunk ≠ 0
  helpColumns : c.helpColumns ≠ 0
  helpWidth : c.helpWidth ≠ 0
  notReturn : c.interruptByte ≠ 13
  notNewline : c.interruptByte ≠ 10

variable {c d : Config} {f : Field} {keys : List String} {set : List Field}

section Fields

theorem Field.ofKey?_eq_some_iff {key : String} : ofKey? key = some f ↔ f.key = key := by
  refine ⟨fun known => by simpa using List.find?_some known, ?_⟩
  rintro rfl
  exact ofKey?_key f

/-- A number in its range is accepted. -/
theorem natural?_number {bound n : Nat} (below : n < bound) :
    natural? bound (.scalar (.number (some n))) = some n := if_pos below

theorem text?_text {limit : Nat} (t : Text.Bounded limit) :
    text? limit (.scalar (.text (some t.text))) = some t := dif_pos t.fits

/-- What is written for a field is accepted for it. -/
theorem set?_value (c d : Config) (f : Field) :
    d.set? (.scalar (c.value f).scalar) f = some (c.lend d f) := by
  cases f with
  | relayTimeout =>
    simp [set?, value, Json.Datum.scalar, lend, natural?_number c.relayTimeout.toNat_lt]
  | relayChunk => simp [set?, value, Json.Datum.scalar, lend, natural?_number c.relayChunk.toNat_lt]
  | topInterval =>
    simp [set?, value, Json.Datum.scalar, lend, natural?_number c.topInterval.toNat_lt]
  | helpColumns =>
    simp [set?, value, Json.Datum.scalar, lend, natural?_number c.helpColumns.toNat_lt]
  | helpWidth => simp [set?, value, Json.Datum.scalar, lend, natural?_number c.helpWidth.toNat_lt]
  | interruptByte =>
    simp [set?, value, Json.Datum.scalar, lend, natural?_number c.interruptByte.toNat_lt]
  | prompt => simp [set?, value, Json.Datum.scalar, lend, text?_text]
  | sourceUrl => simp [set?, value, Json.Datum.scalar, lend, text?_text]

/-- Together the fields are the whole configuration. -/
theorem foldl_lend (c d : Config) : Field.all.foldl c.lend d = c := by
  simp only [Field.all, List.foldl_cons, List.foldl_nil, lend]

/-- The values of its fields are all there is to a configuration. -/
theorem eq_of_value (same : ∀ f, c.value f = d.value f) : c = d := by
  have lends : c.lend = d.lend := by
    funext e f
    have accepted := set?_value c e f
    rw [same f, set?_value, Option.some_inj] at accepted
    exact accepted.symm
  rw [← foldl_lend c {}, lends, foldl_lend]

theorem value_lend (c d : Config) (f g : Field) :
    (c.lend d f).value g = if g = f then c.value g else d.value g := by
  cases f <;> cases g <;> rfl

/-- In whatever order fields are lent, the others stay. -/
theorem value_foldl_lend (c d : Config) (fields : List Field) (f : Field) :
    (fields.foldl c.lend d).value f = if f ∈ fields then c.value f else d.value f := by
  induction fields generalizing d with
  | nil => rfl
  | cons g later ih =>
    rw [List.foldl_cons, ih, value_lend]
    by_cases member : f ∈ later
    · rw [if_pos member, if_pos (List.mem_cons_of_mem g member)]
    · simp only [member, List.mem_cons, or_false, if_false]

theorem value_merged (c : Config) (keys : List String) (f : Field) :
    (c.merged keys).value f = if f.key ∈ keys then c.value f else ({} : Config).value f := by
  have named : f ∈ keys.filterMap Field.ofKey? ↔ f.key ∈ keys := by
    simp [Field.ofKey?_eq_some_iff]
  rw [merged, value_foldl_lend]
  simp only [named]

theorem flaw?_eq_none_iff (c : Config) : c.flaw? = none ↔ c.Usable := by
  constructor
  · intro flawless
    unfold flaw? at flawless
    repeat' split at flawless
    iterate 5
      cases flawless
    rename_i timeout chunk columns width line
    exact ⟨timeout, chunk, columns, width, fun r => line (.inl r), fun n => line (.inr n)⟩
  · rintro ⟨timeout, chunk, columns, width, notReturn, notNewline⟩
    simp [flaw?, timeout, chunk, columns, width, notReturn, notNewline]

theorem validate_eq_ok_iff : c.validate = .ok d ↔ d = c ∧ d.Usable := by
  unfold validate
  constructor
  · intro valid
    split at valid
    · cases valid
    · rename_i flawless
      cases valid
      exact ⟨rfl, (flaw?_eq_none_iff c).mp flawless⟩
  · rintro ⟨rfl, usable⟩
    rw [(flaw?_eq_none_iff d).mpr usable]

end Fields

section Members

variable {text : String}

/-- What is known of a member of this key. -/
def known (c : Config) (key : String) : Json.Known := ⟨key, (Field.ofKey? key).map c.value⟩

theorem writes_known {key : String} {cs : List Char} (writes : c.Writes key cs) :
    (c.known key).Writes cs := by
  obtain ⟨name, value, quoted, keyed, content⟩ := writes
  refine ⟨name, value, quoted, keyed, ?_⟩
  cases named : Field.ofKey? key with
  | some f =>
    rw [named] at content
    simpa only [known, named, Option.map_some] using content
  | none =>
    rw [named] at content
    simpa only [known, named, Option.map_none] using content

/-- Members of different keys set their fields one after the other. -/
theorem setByKey_members {members : List Json.Member}
    (shows : List.Forall₂ (fun key => (c.known key).Shows) keys members) (once : keys.Nodup)
    (d : Config)
    (fresh : ∀ key ∈ keys, ∀ f, Field.ofKey? key = some f → f ∉ set) :
    setByKey set members d = some ((keys.filterMap Field.ofKey?).foldl c.lend d) := by
  induction shows generalizing set d with
  | nil => rfl
  | @cons key m keys members one _ ih =>
    obtain ⟨other, once⟩ := List.nodup_cons.mp once
    obtain ⟨first, rest⟩ := List.forall_mem_cons.mp fresh
    have named : m.key = some key := one.key
    rw [setByKey, named]
    dsimp only
    cases known : Field.ofKey? key with
    | none => rw [List.filterMap_cons_none known, ← ih once d rest]
    | some f =>
      have meant : (c.known key).datum = some (c.value f) := by
        rw [Config.known, known, Option.map_some]
      have fresher : ∀ later ∈ keys, ∀ g, Field.ofKey? later = some g → g ∉ f :: set := by
        intro later member g same
        rw [List.mem_cons, not_or]
        refine ⟨?_, rest later member g same⟩
        rintro rfl
        rw [← Field.ofKey?_eq_some_iff.mp known, Field.ofKey?_eq_some_iff.mp same] at other
        exact other member
      dsimp only
      rw [if_neg (first f known), one.value _ meant, set?_value, Option.bind_some,
        ih once (c.lend d f) fresher, List.filterMap_cons_some known, List.foldl_cons]

theorem ofText?_document (json : Json.Library) [lawful : json.Lawful] (once : keys.Nodup)
    (document : c.Document keys text) : ofText? json text = some (c.merged keys) := by
  obtain ⟨members, object, writes, held, spaced⟩ := document
  have known : List.Forall₂ Json.Known.Writes (keys.map c.known) members := by
    rw [List.forall₂_map_left_iff]
    exact writes.imp fun _ _ => writes_known
  obtain ⟨shown, outline, shows⟩ := lawful.outline?_object _ _ _ _ known held spaced
  rw [List.forall₂_map_left_iff] at shows
  rw [ofText?, outline, Option.bind_some, ofOutline,
    setByKey_members shows once {} (fun _ _ _ _ => List.not_mem_nil), merged]

theorem validate_document (json : Json.Library) [json.Lawful] (once : keys.Nodup)
    (document : c.Document keys text) : ofJson json text = (c.merged keys).validate := by
  rw [ofJson, ofText?_document json once document]

/-- Which fields a document has, and their values, is all that is merged. -/
theorem merged_congr {other : Config} {others : List String}
    (known : ∀ f : Field, f.key ∈ others ↔ f.key ∈ keys)
    (same : ∀ f : Field, f.key ∈ keys → other.value f = c.value f) :
    other.merged others = c.merged keys := by
  refine eq_of_value fun f => ?_
  rw [value_merged, value_merged]
  by_cases member : f.key ∈ keys
  · rw [if_pos ((known f).mpr member), if_pos member, same f member]
  · rw [if_neg (fun there => member ((known f).mp there)), if_neg member]

/-- A document is read as the usual configuration with the fields of the document, if that is
usable. Every other document that has the same fields, with the same values, is read as the same. -/
theorem ofJson_document (json : Json.Library) [json.Lawful] (once : keys.Nodup)
    (document : c.Document keys text) :
    ofJson json text = (c.merged keys).validate ∧
    (∀ f, (c.merged keys).value f = if f.key ∈ keys then c.value f else ({} : Config).value f) ∧
    (∀ d, ofJson json text = .ok d ↔ d = c.merged keys ∧ d.Usable) ∧
    ∀ (other : Config) (others : List String) (again : String), others.Nodup →
      other.Document others again → (∀ f : Field, f.key ∈ others ↔ f.key ∈ keys) →
      (∀ f : Field, f.key ∈ keys → other.value f = c.value f) →
        ofJson json again = ofJson json text := by
  have read := validate_document json once document
  refine ⟨read, c.value_merged keys, fun d => ?_, ?_⟩
  · rw [read]
    exact validate_eq_ok_iff
  · intro other others again single documented known same
    rw [read, validate_document json single documented, merged_congr known same]

/-- An escaped key, gaps, a nested value of another name, and an order other than that of the
fields. -/
theorem ofJson_document_reordered :
    let c : Config := { helpColumns := 5, prompt := ⟨"> ", by decide⟩ }
    let keys := ["prompt", "x", "help_columns"]
    let text :=
      "\x7b\"\\u0070rompt\" : \"> \",\n\"x\":[ \x7b\"\":[]\x7d,-1.5e+9],\"help_columns\":5 \x7d"
    keys.Nodup ∧ c.Document keys text ∧ ofJson .standard text = .ok c := by
  intro c keys text
  have once : keys.Nodup := by decide
  have space : Json.Gap [' '] := by decide
  have newline : Json.Gap ['\n'] := by decide
  have escaped : Json.Quoted "prompt" "\"\\u0070rompt\"".toList := by
    refine ⟨["\\u0070".toList, ['r'], ['o'], ['m'], ['p'], ['t']], ?_, rfl⟩
    refine .cons (.unit (.digits (w := 0) (x := 0) (y := 7) (z := 0) ?_ ?_ ?_ ?_)) ?_
    iterate 4
      exact ⟨by decide, .inl rfl⟩
    exact .cons (Json.letter_writeChar 'r') (.cons (Json.letter_writeChar 'o')
      (.cons (Json.letter_writeChar 'm') (.cons (Json.letter_writeChar 'p')
        (.cons (Json.letter_writeChar 't') .nil))))
  have prompt : c.Writes "prompt" "\"\\u0070rompt\" : \"> \"".toList :=
    ⟨_, "\"> \"".toList, escaped,
      ⟨_, _, Json.spaced_append space _, Json.spaced_prepend space _, rfl⟩,
      .text (Json.quoted_writeText "> ")⟩
  have inner : Json.Written .value "\x7b\"\":[]\x7d".toList :=
    @Json.Written.nested .curly _ (.last (.member ⟨[], List.forall_mem_nil _, rfl⟩
      (@Json.Written.empty .square _ (List.forall_mem_nil _)) (Json.keyed_self _ _)))
  have number : Json.Written .value "-1.5e+9".toList :=
    .number ⟨['-'], ['1'], ['.', '5'], ['e', '+', '9'], by decide,
      .digits (by decide) (by decide) (List.forall_mem_nil _), .digits (by decide),
      @Json.Exponent.digits 'e' ['+'] ['9'] (by decide) (by decide) (by decide), rfl⟩
  have nested : Json.Written .value "[ \x7b\"\":[]\x7d,-1.5e+9]".toList :=
    @Json.Written.nested .square _ (.more (.item inner (Json.spaced_prepend space _))
      (.last (.item number (Json.spaced_self _))))
  have other : c.Writes "x" "\n\"x\":[ \x7b\"\":[]\x7d,-1.5e+9]".toList :=
    ⟨"\"x\"".toList, _, Json.quoted_writeText "x",
      ⟨_, _, Json.spaced_prepend newline _, Json.spaced_self _, rfl⟩, nested⟩
  have columns : c.Writes "help_columns" "\"help_columns\":5".toList :=
    ⟨_, "5".toList, Json.quoted_writeText "help_columns", Json.keyed_self _ _, .natural 5⟩
  have document : c.Document keys text :=
    ⟨_, _, .cons prompt (.cons other (.cons columns .nil)), ⟨[' '], space, rfl⟩,
      [], [], by decide, by decide, by decide +kernel +zetaReduce⟩
  exact ⟨once, document, ((ofJson_document .standard once document).2.2.1 c).mpr
    ⟨rfl, by constructor <;> decide⟩⟩

end Members

end DeviceShell.Config
