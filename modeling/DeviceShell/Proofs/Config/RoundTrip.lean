import DeviceShell.Proofs.Config.Merging

/-! A configuration that has been written is read back as it was. -/
namespace DeviceShell.Config

/-- What is written is a document that has every field. -/
theorem document_toJson (json : Json.Library) [lawful : json.Lawful] (c : Config) :
    c.Document (Field.all.map Field.key) (toJson json c) := by
  obtain ⟨written, object, writes, held, spaced⟩ :=
    lawful.object_writeObject (Field.all.map fun f => (f.key, c.value f))
  refine ⟨written, object, ?_, held, spaced⟩
  rw [List.map_map, List.forall₂_map_left_iff] at writes
  rw [List.forall₂_map_left_iff]
  refine writes.imp fun f cs ⟨name, value, quoted, keyed, meant⟩ => ?_
  refine ⟨name, value, quoted, keyed, ?_⟩
  rw [Field.ofKey?_key]
  exact meant

theorem ofText?_toJson (json : Json.Library) [json.Lawful] (c : Config) :
    ofText? json (toJson json c) = some c := by
  have whole : c.merged (Field.all.map Field.key) = c := by
    have fields : (Field.all.map Field.key).filterMap Field.ofKey? = Field.all := by decide
    rw [merged, fields, foldl_lend]
  rw [ofText?_document json (by decide) (c.document_toJson json), whole]

/-- A configuration that is valid is read back from what is written for it, with all its fields. -/
theorem ofJson_toJson (json : Json.Library) [json.Lawful] (c : Config)
    (valid : c.validate = .ok c) : ofJson json (toJson json c) = .ok c := by
  rw [ofJson, ofText?_toJson]
  exact valid

/-- Escapes of every kind, and the largest number of all. -/
theorem ofJson_toJson_escaped :
    let c : Config :=
      { relayChunk := .ofNat (UInt64.size - 1), prompt := ⟨"\"\\\x01😀\n\t>", by decide⟩ }
    c.validate = .ok c ∧ ofJson .standard (toJson .standard c) = .ok c :=
  ⟨rfl, ofJson_toJson .standard _ rfl⟩

end DeviceShell.Config
