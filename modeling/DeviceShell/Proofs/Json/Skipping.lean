import DeviceShell.Proofs.Json.Objects

/-! Nested values, passed over. An outline shows nothing of what stands two brackets deep or deeper,
and there is no bound on the depth: the tokens of a value bring the grammar back to the brackets
between which it began. -/
namespace DeviceShell.Json

variable {form : Form} {awaiting : Awaiting} {bracket : Bracket} {nesting : List Bracket}
variable {before between after : Grammar} {first second tokens : List Token}

/-- Tokens that lead an outline from one place of the grammar to another and change nothing else. -/
def Passed (tokens : List Token) (before after : Grammar) : Prop :=
  ∀ o : Outline, o.grammar = before →
    tokens.foldlM Outline.step o = some { o with grammar := after }

theorem passed_nil (place : Grammar) : Passed [] place place := by
  rintro ⟨_, bracket, key, members⟩ rfl
  rfl

theorem Passed.append (one : Passed first before between) (other : Passed second between after) :
    Passed (first ++ second) before after := fun o place => by
  rw [List.foldlM_append, one o place, Option.bind_eq_bind, Option.bind_some, other _ rfl]

theorem Passed.cons {token : Token} (one : Passed [token] before between)
    (other : Passed tokens between after) : Passed (token :: tokens) before after :=
  one.append other

/-- Two brackets deep, a step of the grammar is all that happens. -/
theorem passed_step {token : Token} (step : before.step token = some after)
    (deep : 2 ≤ before.nesting.length) (still : 2 ≤ after.nesting.length) :
    Passed [token] before after := by
  intro o place
  have unnoted : o.note token after = o := by
    unfold Outline.note
    split
    · rename_i none
      rw [← place, none] at deep
      exact absurd deep (by decide)
    · rename_i one
      rw [← place, one] at deep
      exact absurd deep (Nat.not_succ_le_self 1)
    · exact if_neg (by omega)
    · rfl
  rw [List.foldlM_cons, Outline.step, place, step, Option.map_some, unnoted]
  rfl

/-- What is awaited behind a bracket that opens. -/
def Bracket.beginning : Bracket → Awaiting
  | .square => .valueOrClose
  | .curly => .keyOrClose

/-- What is awaited behind a comma. -/
def Bracket.following : Bracket → Awaiting
  | .square => .value
  | .curly => .key

/-- Where a form may begin. -/
def Form.Begins (awaiting : Awaiting) (nesting : List Bracket) : Form → Prop
  | .value => awaiting = .value ∨ awaiting = .valueOrClose
  | .element bracket | .elements bracket =>
    nesting.head? = some bracket ∧ (awaiting = bracket.following ∨ awaiting = bracket.beginning)

/-- Where a bracket may close. -/
def Bracket.Closes (bracket : Bracket) (awaiting : Awaiting) : Prop :=
  awaiting = bracket.beginning ∨ awaiting = .commaOrClose

theorem step_opening (begins : Form.value.Begins awaiting nesting) (bracket : Bracket) :
    Grammar.step ⟨awaiting, nesting⟩ (.opening bracket) =
      some ⟨bracket.beginning, bracket :: nesting⟩ := by
  rcases begins with rfl | rfl <;> cases bracket <;> rfl

theorem step_closing (closes : bracket.Closes awaiting) (inside : nesting ≠ []) :
    Grammar.step ⟨awaiting, bracket :: nesting⟩ (.closing bracket) =
      some ⟨.commaOrClose, nesting⟩ := by
  obtain ⟨innermost, outer, rfl⟩ := List.exists_cons_of_ne_nil inside
  rcases closes with rfl | rfl <;> cases bracket <;> rfl

theorem step_scalar (begins : Form.value.Begins awaiting nesting) (inside : nesting ≠ [])
    (scalar : Scalar) :
    Grammar.step ⟨awaiting, nesting⟩ (.scalar scalar) = some ⟨.commaOrClose, nesting⟩ := by
  obtain ⟨innermost, outer, rfl⟩ := List.exists_cons_of_ne_nil inside
  rcases begins with rfl | rfl <;> rfl

/-- Whatever is passed over inside brackets is passed over with them. -/
theorem Passed.around (begins : Form.value.Begins awaiting nesting) (deep : 2 ≤ nesting.length)
    {last : Awaiting} (closes : bracket.Closes last)
    (inner : Passed tokens ⟨bracket.beginning, bracket :: nesting⟩ ⟨last, bracket :: nesting⟩) :
    Passed (.opening bracket :: (tokens ++ [.closing bracket])) ⟨awaiting, nesting⟩
      ⟨.commaOrClose, nesting⟩ := by
  have deeper : 2 ≤ (bracket :: nesting).length := by
    rw [List.length_cons]
    omega
  have inside : nesting ≠ [] := List.ne_nil_of_length_pos (by omega)
  have opened := passed_step (step_opening begins bracket) deep deeper
  exact opened.cons (inner.append (passed_step (step_closing closes inside) deeper deep))

/-- From the second bracket on, whatever a form holds is passed over. -/
theorem Shaped.passed (shaped : Shaped form tokens) :
    ∀ {awaiting : Awaiting} {nesting : List Bracket},
    2 ≤ nesting.length → form.Begins awaiting nesting →
      Passed tokens ⟨awaiting, nesting⟩ ⟨.commaOrClose, nesting⟩ := by
  induction shaped with
  | scalar scalar =>
    intro awaiting nesting deep begins
    have inside : nesting ≠ [] := List.ne_nil_of_length_pos (by omega)
    exact passed_step (step_scalar begins inside scalar) deep deep
  | empty bracket =>
    intro awaiting nesting deep begins
    exact .around begins deep (.inl rfl) (passed_nil _)
  | nested _ ih =>
    intro awaiting nesting deep begins
    refine .around begins deep (.inr rfl) (ih ?_ ⟨rfl, .inr rfl⟩)
    rw [List.length_cons]
    omega
  | item _ ih =>
    intro awaiting nesting deep begins
    exact ih deep begins.2
  | member key _ ih =>
    intro awaiting nesting deep begins
    have named : Grammar.step ⟨awaiting, nesting⟩ (.scalar (.text key)) =
        some ⟨.colon, nesting⟩ := by
      rcases begins.2 with rfl | rfl <;> rfl
    exact (passed_step named deep deep).cons
      ((passed_step rfl deep deep).cons (ih deep (.inl rfl)))
  | last _ ih => exact ih
  | @more bracket _ _ _ _ one other =>
    intro awaiting nesting deep begins
    have comma : Grammar.step ⟨.commaOrClose, nesting⟩ .comma =
        some ⟨bracket.following, nesting⟩ := by
      obtain ⟨outer, rfl⟩ := List.head?_eq_some_iff.mp begins.1
      cases bracket <;> rfl
    exact (one deep begins).append
      ((passed_step comma deep deep).cons (other deep ⟨begins.1, .inl rfl⟩))

/-- A value in brackets, among the members. -/
theorem outlined_around {last : Awaiting} (closes : bracket.Closes last)
    (inner : Passed tokens ⟨bracket.beginning, [bracket, .curly]⟩ ⟨last, [bracket, .curly]⟩) :
    Outlined (.opening bracket :: (tokens ++ [.closing bracket])) .nested := by
  intro o place
  have opened : o.step (.opening bracket) =
      some { o with grammar := ⟨bracket.beginning, [bracket, .curly]⟩ } := by
    obtain ⟨grammar, outermost, key, members⟩ := o
    cases place
    cases bracket <;> rfl
  have closed : Outline.step { o with grammar := ⟨last, [bracket, .curly]⟩ } (.closing bracket) =
      some { o.append .nested with grammar := ⟨.commaOrClose, [.curly]⟩ } := by
    rw [Outline.step, step_closing closes (List.cons_ne_nil _ _)]
    rfl
  rw [List.foldlM_cons, opened, Option.bind_eq_bind, Option.bind_some, List.foldlM_append,
    inner _ rfl, Option.bind_eq_bind, Option.bind_some, List.foldlM_cons, closed]
  rfl

/-- Any value can stand among the members. -/
theorem Shaped.outlined (shaped : Shaped .value tokens) : ∃ item, Outlined tokens item := by
  cases shaped with
  | scalar scalar => exact ⟨_, outlined_scalar scalar⟩
  | empty bracket => exact ⟨_, outlined_around (.inl rfl) (passed_nil _)⟩
  | nested inner =>
    exact ⟨_, outlined_around (.inr rfl) (inner.passed (Nat.le_refl 2) ⟨rfl, .inr rfl⟩)⟩

end DeviceShell.Json
