import DeviceShell.Json.Outline
import DeviceShell.Proofs.Json.Spelling

/-! Objects, from their characters to their outline: a text that holds members in curly brackets is
outlined as these members, in their order. -/
namespace DeviceShell.Json

variable {α : Type} {members : List Member} {tokens : List Token} {item : Item} {key : String}

/-- Tokens of one value, which is outlined as this item. -/
def Outlined (tokens : List Token) (item : Item) : Prop :=
  ∀ o : Outline, o.grammar = ⟨.value, [.curly]⟩ → tokens.foldlM Outline.step o =
    some { o.append item with grammar := ⟨.commaOrClose, [.curly]⟩ }

theorem outlined_scalar (value : Scalar) : Outlined [.scalar value] (.scalar value) := by
  intro o place
  obtain ⟨grammar, bracket, key, members⟩ := o
  cases place
  rfl

def memberTokens (key : String) (tokens : List Token) : List Token :=
  .scalar (.text (some key)) :: .colon :: tokens

/-- A member as it stands in a text, with the gaps around it: its characters, its key, the tokens of
its value, and what an outline shows of that. -/
structure Part where
  chars : List Char
  key : String
  tokens : List Token
  item : Item
  spelled : Spelled chars (memberTokens key tokens)
  outlined : Outlined tokens item

namespace Part

def member (p : Part) : Member := ⟨some p.key, p.item⟩

def memberTokens (p : Part) : List Token := Json.memberTokens p.key p.tokens

end Part

theorem spelled_intercalate (chars : α → List Char) (tokens : α → List Token) {parts : List α}
    (spelled : ∀ part ∈ parts, Spelled (chars part) (tokens part)) :
    Spelled (List.intercalate [','] (parts.map chars))
      (List.intercalate [.comma] (parts.map tokens)) := by
  induction parts with
  | nil => exact cut_nil.spelled
  | cons part later ih =>
    obtain ⟨first, rest⟩ := List.forall_mem_cons.mp spelled
    cases later with
    | nil => simpa only [List.map_cons, List.map_nil, List.intercalate_singleton] using first
    | cons next later =>
      rw [List.map_cons, List.map_cons, List.map_cons, List.map_cons, List.intercalate_cons_cons,
        List.intercalate_cons_cons, List.append_assoc, List.append_assoc]
      exact first.append_mark rfl (ih rest)

/-- An outline among the members of an object. -/
def amid (awaiting : Awaiting) (members : List Member) : Outline :=
  { grammar := ⟨awaiting, [.curly]⟩, bracket := some .curly, members := members.reverse }

/-- What may come before a member. -/
def BeforeMember (awaiting : Awaiting) : Prop := awaiting = .key ∨ awaiting = .keyOrClose

theorem foldlM_memberTokens {awaiting : Awaiting} (place : BeforeMember awaiting)
    (outlined : Outlined tokens item) :
    (memberTokens key tokens).foldlM Outline.step (amid awaiting members) =
      some (amid .commaOrClose (members ++ [⟨some key, item⟩])) := by
  have named : (amid awaiting members).step (.scalar (.text (some key))) =
      some { amid .colon members with key := some key } := by
    rcases place with rfl | rfl <;> rfl
  have colon : ({ amid .colon members with key := some key } : Outline).step .colon =
      some { amid .value members with key := some key } := rfl
  rw [memberTokens, List.foldlM_cons, named, Option.bind_eq_bind, Option.bind_some, List.foldlM_cons,
    colon, Option.bind_eq_bind, Option.bind_some, outlined _ rfl]
  simp [amid, Outline.append]

/-- A comma goes between two members. -/
theorem foldlM_parts {awaiting : Awaiting} (place : BeforeMember awaiting) (part : Part)
    (parts : List Part) :
    (List.intercalate [.comma] ((part :: parts).map Part.memberTokens)).foldlM Outline.step
        (amid awaiting members) =
      some (amid .commaOrClose (members ++ (part :: parts).map Part.member)) := by
  induction parts generalizing awaiting members part with
  | nil =>
    rw [List.map_singleton, List.intercalate_singleton, Part.memberTokens,
      foldlM_memberTokens place part.outlined]
    rfl
  | cons next later ih =>
    have comma : (amid .commaOrClose (members ++ [part.member])).step .comma =
        some (amid .key (members ++ [part.member])) := rfl
    rw [List.map_cons, List.map_cons, List.intercalate_cons_cons, List.append_assoc,
      List.foldlM_append, Part.memberTokens, foldlM_memberTokens place part.outlined,
      Option.bind_eq_bind, Option.bind_some, List.singleton_append, List.foldlM_cons]
    change ((amid .commaOrClose (members ++ [part.member])).step .comma).bind _ = _
    rw [comma, Option.bind_some, ← List.map_cons, ih (.inl rfl), List.append_assoc,
      List.singleton_append, ← List.map_cons]

theorem outline?_members (parts : List Part) :
    outline? (.opening .curly :: (List.intercalate [.comma] (parts.map Part.memberTokens) ++
      [.closing .curly])) = some (some .curly, parts.map Part.member) := by
  have opened : Outline.step {} (.opening .curly) = some (amid .keyOrClose []) := rfl
  rw [outline?, List.foldlM_cons, opened, Option.bind_eq_bind, Option.bind_some, List.foldlM_append]
  cases parts with
  | nil => rfl
  | cons part later =>
    have closed (members : List Member) : (amid .commaOrClose members).step (.closing .curly) =
        some { amid .commaOrClose members with grammar := ⟨.nothing, []⟩ } := rfl
    rw [foldlM_parts (.inr rfl), Option.bind_eq_bind, Option.bind_some, List.foldlM_cons, closed,
      List.nil_append]
    simp [amid, Outline.finish]

/-- A text that holds members in curly brackets is outlined as these. -/
theorem outline?_object {text : String} {cs : List Char} {parts : List Part}
    (object : Object (parts.map Part.chars) cs) (spaced : Spaced cs text.toList) :
    (tokens? text).bind outline? = some (some .curly, parts.map Part.member) := by
  obtain ⟨gap, blank, rfl⟩ := object
  have listed := spelled_intercalate Part.chars Part.memberTokens
    fun part (_ : part ∈ parts) => part.spelled
  have spelled := ((listed.append_gap blank).around .curly).spelled.spaced spaced
  rw [tokens?_of_spelled spelled, Option.bind_some, outline?_members]

end DeviceShell.Json
