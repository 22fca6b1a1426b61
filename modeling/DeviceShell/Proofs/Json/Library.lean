import DeviceShell.Json.Library
import DeviceShell.Proofs.Json.Skipping

/-! The laws of a JSON library, by the grammar: whatever the gaps and the spelling of the texts, it
reads an object as its members, and what it writes is an object of these members. -/
namespace DeviceShell.Json

/-- What is known of a member: its key, and what its value means, if anything. -/
structure Known where
  key : String
  datum : Option Datum

/-- The characters of such a member. The value is of any kind if nothing is known of it. -/
def Known.Writes (known : Known) (cs : List Char) : Prop :=
  ∃ name value, Quoted known.key name ∧ Keyed name value cs ∧
    match known.datum with
    | some datum => Meant datum value
    | none => Written .value value

/-- A member of an outline shows what is known. -/
structure Known.Shows (known : Known) (m : Member) : Prop where
  key : m.key = some known.key
  value (datum : Datum) : known.datum = some datum → m.value = .scalar datum.scalar

class Library.Lawful (json : Library) : Prop where
  outline?_object (known : List Known) (members : List (List Char)) (object : List Char)
    (text : String) : List.Forall₂ Known.Writes known members → Object members object →
      Spaced object text.toList →
        ∃ shown, json.outline? text = some (some .curly, shown) ∧
          List.Forall₂ Known.Shows known shown
  object_writeObject (members : List (String × Datum)) :
    ∃ written object,
      List.Forall₂ Known.Writes (members.map fun m => ⟨m.1, some m.2⟩) written ∧
        Object written object ∧ Spaced object (json.writeObject members).toList

variable {known : List Known}

/-- Every member that may be written can be outlined, and shows what is known. -/
theorem exists_part {one : Known} {cs : List Char} (writes : one.Writes cs) :
    ∃ part : Part, part.chars = cs ∧ one.Shows part.member := by
  obtain ⟨key, datum⟩ := one
  obtain ⟨name, value, quoted, keyed, content⟩ := writes
  have named := (cut_quoted quoted).spelled
  cases datum with
  | some datum =>
    refine ⟨⟨cs, key, _, _, named.keyed content.spelled keyed, outlined_scalar _⟩, rfl, rfl, ?_⟩
    intro other same
    cases same
    rfl
  | none =>
    obtain ⟨tokens, shaped, spelled⟩ := content.spelled
    obtain ⟨item, outlined⟩ := shaped.outlined
    exact ⟨⟨cs, key, tokens, item, named.keyed spelled keyed, outlined⟩, rfl, rfl, nofun⟩

theorem exists_parts {members : List (List Char)}
    (writes : List.Forall₂ Known.Writes known members) :
    ∃ parts : List Part, parts.map Part.chars = members ∧
      List.Forall₂ Known.Shows known (parts.map Part.member) := by
  induction writes with
  | nil => exact ⟨[], rfl, .nil⟩
  | cons one _ ih =>
    obtain ⟨part, rfl, shows⟩ := exists_part one
    obtain ⟨parts, rfl, later⟩ := ih
    exact ⟨part :: parts, rfl, .cons shows later⟩

theorem writes_writeMember (key : String) (datum : Datum) :
    Known.Writes ⟨key, some datum⟩ (writeMember key datum) :=
  ⟨_, _, quoted_writeText key, keyed_self _ _, meant_write datum⟩

instance : Library.standard.Lawful where
  outline?_object known members object text writes held spaced := by
    obtain ⟨parts, rfl, shows⟩ := exists_parts writes
    exact ⟨_, outline?_object held spaced, shows⟩
  object_writeObject members := by
    refine ⟨members.map fun m => writeMember m.1 m.2, _, ?_, ⟨[], List.forall_mem_nil _, rfl⟩, ?_⟩
    · rw [List.forall₂_map_left_iff, List.forall₂_map_right_iff, List.forall₂_same]
      exact fun m _ => writes_writeMember m.1 m.2
    · rw [Library.standard, String.toList_ofList, List.append_nil]
      exact spaced_self _

end DeviceShell.Json
