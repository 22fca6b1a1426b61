import DeviceShell.Json.Written
import DeviceShell.Proofs.Json.Grammar
import DeviceShell.Proofs.Json.Reading

/-! From the grammar to tokens. Whatever is written by the grammar is cut into tokens of the same
form, and a text is read as the one that was meant, in all the ways to write it. -/
namespace DeviceShell.Json

open Lexer

variable {cs ds : List Char} {c : Char} {tokens first second : List Token}

section Gaps

theorem cut_gap {gap : List Char} (blank : Gap gap) : Cut gap [] := by
  induction gap with
  | nil => exact cut_nil
  | cons c later ih =>
    obtain ⟨space, blank⟩ := List.forall_mem_cons.mp blank
    have passed : isGap c = true := by
      simpa [isGap, or_assoc] using space
    have one : Cut [c] [] := fun before => by
      have stays : (behind before).step c = some (behind before) := if_pos passed
      rw [read_cons, stays, List.append_nil]
      rfl
    exact one.append (ih blank)

theorem delimits_of_gap {gap : List Char} (blank : Gap gap) : ∀ c ∈ gap, delimits c = true := by
  intro c member
  have space := blank c member
  simp only [List.mem_cons, List.not_mem_nil, or_false] at space
  rcases space with rfl | rfl | rfl | rfl <;> rfl

theorem Spelled.append_gap {gap : List Char} (spelled : Spelled cs tokens) (blank : Gap gap) :
    Spelled (cs ++ gap) tokens := by
  cases gap with
  | nil => rwa [List.append_nil]
  | cons c later =>
    have ended := spelled.append_cut (delimits_of_gap blank c List.mem_cons_self) (cut_gap blank)
    rw [List.append_nil] at ended
    exact ended.spelled

theorem Spelled.spaced (spelled : Spelled cs tokens) (spaced : Spaced cs ds) :
    Spelled ds tokens := by
  obtain ⟨before, after, ahead, behind, rfl⟩ := spaced
  exact (cut_gap ahead).append_spelled (spelled.append_gap behind)

theorem Spelled.keyed {key value : List Char} (one : Spelled key first)
    (other : Spelled value second) (keyed : Keyed key value cs) :
    Spelled cs (first ++ .colon :: second) := by
  obtain ⟨before, behind, left, right, rfl⟩ := keyed
  exact (one.spaced left).append_mark rfl (other.spaced right)

theorem Spelled.around (spelled : Spelled cs tokens) (bracket : Bracket) :
    Cut (bracket.around cs) (.opening bracket :: (tokens ++ [.closing bracket])) := by
  have opened : Cut [bracket.left] [.opening bracket] := by
    cases bracket <;> exact cut_mark rfl
  have closing : Token.ofChar? bracket.right = some (.closing bracket) := by
    cases bracket <;> rfl
  exact opened.append (spelled.append_cut (delimits_of_mark closing) (cut_mark closing))

end Gaps

section Texts

/-- A lexer in a text. -/
def inText (place : TextPlace) (letters : Letters) (before : List Token) : Lexer :=
  { mode := .text place letters, tokens := before.reverse }

theorem hexValue?_of_hexDigit {n : Nat} (digit : HexDigit c n) : hexValue? c = some n := by
  have values : ∀ n < 16, hexValue? (Nat.digitChar n) = some n ∧
      hexValue? (Nat.digitChar n).toUpper = some n := by decide
  obtain ⟨below, rfl | rfl⟩ := digit
  · exact (values n below).1
  · exact (values n below).2

variable (letters : Letters) (before : List Token)

theorem read_plain (plain : Plain c) :
    (inText .plain letters before).read [c] = some (inText .plain (letters.add c) before) := by
  obtain ⟨open_text, close_text, sign⟩ := plain
  simp only [read_cons, inText, step, stepText, if_neg open_text, if_neg close_text,
    if_neg (show ¬ c < ' ' from Char.not_lt.mpr sign)]
  rfl

theorem read_escape {letter : Char} (escape : (letter, c) ∈ escapes) :
    (inText .plain letters before).read [backslash, letter] =
      some (inText .plain (letters.add c) before) := by
  have known : ∀ pair ∈ escapes, escaped? pair.1 = some pair.2 ∧ pair.1 ≠ 'u' := by decide
  obtain ⟨stands, other⟩ := known _ escape
  have opened : (inText .plain letters before).step backslash =
      some (inText .escape letters before) := rfl
  rw [read_cons, opened, Option.bind_some, read_cons]
  simp only [inText, step, stepText, if_neg other, stands, Option.map_some]
  rfl

theorem read_codeUnit {n : Nat} {digits : List Char} (unit : CodeUnit n digits) :
    (inText .plain letters before).read (backslash :: 'u' :: digits) =
      some (inText .plain (letters.addUnit n) before) := by
  have opened : (inText .plain letters before).read [backslash, 'u'] =
      some (inText (.unit 4 0) letters before) := rfl
  change (inText .plain letters before).read ([backslash, 'u'] ++ digits) = _
  rw [read_append, opened, Option.bind_some]
  obtain @⟨a, b, c, d, w, x, y, z, first, second, third, fourth⟩ := unit
  have digit {c : Char} {digit left value : Nat} (hex : HexDigit c digit) :
      (inText (.unit (left + 2) value) letters before).step c =
        some (inText (.unit (left + 1) (value * 16 + digit)) letters before) := by
    have more : ¬ left + 2 ≤ 1 := by omega
    simp only [inText, step, stepText, hexValue?_of_hexDigit hex, Option.map_some, if_neg more,
      Nat.mul_comm 16]
    rfl
  have last {c : Char} {digit value : Nat} (hex : HexDigit c digit) :
      (inText (.unit 1 value) letters before).step c =
        some (inText .plain (letters.addUnit (value * 16 + digit)) before) := by
    simp only [inText, step, stepText, hexValue?_of_hexDigit hex, Option.map_some, Nat.mul_comm 16]
    rfl
  rw [read_cons, digit first, Option.bind_some, read_cons, digit second, Option.bind_some, read_cons,
    digit third, Option.bind_some, read_cons, last fourth, Nat.zero_mul, Nat.zero_add]
  rfl

/-- A character is no half of a surrogate pair. -/
theorem addUnit_toNat (c : Char) (done : List Char) :
    ({ done := done } : Letters).addUnit c.toNat = { done := c :: done } := by
  have valid : c.toNat < 0xD800 ∨ 0xDFFF < c.toNat ∧ c.toNat < 0x110000 := c.valid
  have high : isHigh c.toNat = false := by
    simp only [isHigh, Bool.and_eq_false_iff, decide_eq_false_iff_not]
    omega
  have low : isLow c.toNat = false := by
    simp only [isLow, Bool.and_eq_false_iff, decide_eq_false_iff_not]
    omega
  simp [Letters.addUnit, high, low, Letters.add]

theorem addUnit_pair {high low : Nat} (first : isHigh high = true) (second : isLow low = true)
    (done : List Char) : (({ done := done } : Letters).addUnit high).addUnit low =
      { done := joinPair high low :: done } := by
  simp [Letters.addUnit, first, second]

/-- The halves of a character that takes two code units. -/
theorem surrogates (wide : 0x10000 ≤ c.toNat) : ∃ high low,
    high = 0xD800 + (c.toNat - 0x10000) / 0x400 ∧ low = 0xDC00 + (c.toNat - 0x10000) % 0x400 ∧
      isHigh high = true ∧ isLow low = true ∧ joinPair high low = c := by
  have valid : c.toNat < 0xD800 ∨ 0xDFFF < c.toNat ∧ c.toNat < 0x110000 := c.valid
  refine ⟨_, _, rfl, rfl, ?_, ?_, ?_⟩
  · simp only [isHigh, Bool.and_eq_true, decide_eq_true_eq]
    omega
  · simp only [isLow, Bool.and_eq_true, decide_eq_true_eq]
    omega
  · have value : 0x10000 + (0xD800 + (c.toNat - 0x10000) / 0x400 - 0xD800) * 0x400 +
        (0xDC00 + (c.toNat - 0x10000) % 0x400 - 0xDC00) = c.toNat := by omega
    rw [joinPair, value, Char.ofNat_toNat]

theorem read_letter (letter : Letter c cs) (done : List Char) :
    (inText .plain { done := done } before).read cs =
      some (inText .plain { done := c :: done } before) := by
  cases letter with
  | plain plain => exact read_plain _ before plain
  | escape escape => exact read_escape _ before escape
  | unit unit => rw [read_codeUnit _ before unit, addUnit_toNat]
  | pair wide high low =>
    obtain ⟨one, other, left, right, first, second, joined⟩ := surrogates wide
    rw [← left] at high
    rw [← right] at low
    rw [read_append, read_codeUnit _ before high, Option.bind_some, read_codeUnit _ before low,
      addUnit_pair first second, joined]

theorem read_stroke (stroke : Stroke cs) : ∃ further, ∀ before,
    (inText .plain letters before).read cs = some (inText .plain further before) := by
  cases stroke with
  | plain plain => exact ⟨_, fun before => read_plain letters before plain⟩
  | escape escape => exact ⟨_, fun before => read_escape letters before escape⟩
  | unit unit => exact ⟨_, fun before => read_codeUnit letters before unit⟩

theorem step_quote : (inText .plain letters before).step quote =
    some (behind (before ++ [.scalar (.text letters.text?)])) := by
  rw [← emit_behind]
  rfl

/-- A text is read as what was meant. -/
theorem cut_quoted {text : String} (quoted : Quoted text cs) :
    Cut cs [.scalar (.text (some text))] := by
  obtain ⟨letters, spelled, rfl⟩ := quoted
  intro before
  have contents {chars : List Char} {letters : List (List Char)}
      (spelled : List.Forall₂ Letter chars letters) (done : List Char) :
      (inText .plain { done := done } before).read letters.flatten =
        some (inText .plain { done := chars.reverse ++ done } before) := by
    induction spelled generalizing done with
    | nil => rfl
    | cons letter _ ih =>
      rw [List.flatten_cons, read_append, read_letter before letter, Option.bind_some, ih,
        List.reverse_cons, List.append_assoc, List.singleton_append]
  have opened : (behind before).step quote = some (inText .plain {} before) := rfl
  have whole : ({ done := text.toList.reverse } : Letters).text? = some text := by
    simp [Letters.text?]
  rw [read_cons, opened, Option.bind_some, read_append, contents spelled [], Option.bind_some,
    List.append_nil, read_cons, step_quote, whole]
  rfl

/-- Whatever stands in quotes is a text, if perhaps one without a meaning. -/
theorem cut_literal (literal : Literal cs) : ∃ text, Cut cs [.scalar (.text text)] := by
  obtain ⟨strokes, each, rfl⟩ := literal
  have contents (letters : Letters) : ∃ further, ∀ before,
      (inText .plain letters before).read strokes.flatten = some (inText .plain further before) := by
    induction strokes generalizing letters with
    | nil => exact ⟨letters, fun _ => rfl⟩
    | cons stroke later ih =>
      obtain ⟨first, each⟩ := List.forall_mem_cons.mp each
      obtain ⟨between, one⟩ := read_stroke letters first
      obtain ⟨further, rest⟩ := ih each between
      refine ⟨further, fun before => ?_⟩
      rw [List.flatten_cons, read_append, one, Option.bind_some, rest]
  obtain ⟨further, contents⟩ := contents {}
  refine ⟨further.text?, fun before => ?_⟩
  have opened : (behind before).step quote = some (inText .plain {} before) := rfl
  rw [read_cons, opened, Option.bind_some, read_append, contents, Option.bind_some, read_cons,
    step_quote]
  rfl

theorem codeUnit_hexadecimal {n : Nat} (below : n < 0x10000) :
    CodeUnit n (Text.hexadecimal 4 n) := by
  have digit (n : Nat) : HexDigit (Text.hexDigit n) (n % 16) := ⟨Nat.mod_lt n (by decide), .inl rfl⟩
  have value : ((n / 16 / 16 / 16 % 16 * 16 + n / 16 / 16 % 16) * 16 + n / 16 % 16) * 16 + n % 16 =
      n := by omega
  have unit := CodeUnit.digits (digit (n / 16 / 16 / 16)) (digit (n / 16 / 16)) (digit (n / 16))
    (digit n)
  rwa [value] at unit

theorem letter_writeChar (c : Char) : Letter c (writeChar c) := by
  unfold writeChar
  split
  · rename_i self
    rcases self with rfl | rfl <;> exact .escape (by decide)
  · rename_i plain
    obtain ⟨open_text, close_text⟩ := not_or.mp plain
    repeat' split
    -- The controls that have a letter of their own.
    iterate 5
      subst c
      exact .escape (by decide)
    · rename_i control
      have few : c.toNat < 32 := control
      exact .unit (codeUnit_hexadecimal (by omega))
    · rename_i sign
      exact .plain ⟨open_text, close_text, Char.not_lt.mp sign⟩

/-- What is written for a text is one of the ways to write it. -/
theorem quoted_writeText (text : String) : Quoted text (writeText text) := by
  refine ⟨text.toList.map writeChar, ?_, by rw [writeText, List.flatMap_def]⟩
  rw [List.forall₂_map_right_iff, List.forall₂_same]
  exact fun c _ => letter_writeChar c

end Texts

section Numbers

/-- Where characters lead inside a number. -/
def NumberPlace.walk (place : NumberPlace) (cs : List Char) : Option NumberPlace :=
  cs.foldlM (fun place c => place.next? c) place

variable {place last : NumberPlace}

theorem NumberPlace.walk_append (place : NumberPlace) (cs ds : List Char) :
    place.walk (cs ++ ds) = (place.walk cs).bind fun between => between.walk ds :=
  List.foldlM_append

theorem NumberPlace.walk_cons (place : NumberPlace) (c : Char) (cs : List Char) :
    place.walk (c :: cs) = (place.next? c).bind fun between => between.walk cs :=
  List.foldlM_cons

/-- Places that any number of digits may follow. -/
theorem walk_digits (stays : ∀ c, c.isDigit = true → place.next? c = some place)
    (digits : ∀ c ∈ cs, c.isDigit = true) : place.walk cs = some place := by
  induction cs with
  | nil => rfl
  | cons c later ih =>
    obtain ⟨digit, digits⟩ := List.forall_mem_cons.mp digits
    rw [NumberPlace.walk_cons, stays c digit, Option.bind_some, ih digits]

theorem walk_some_digits (leads : ∀ c, c.isDigit = true → place.next? c = some last)
    (stays : ∀ c, c.isDigit = true → last.next? c = some last) (digits : Digits cs) :
    place.walk cs = some last := by
  obtain ⟨some_digit, digits⟩ := digits
  obtain ⟨c, later, rfl⟩ := List.exists_cons_of_ne_nil some_digit
  obtain ⟨digit, digits⟩ := List.forall_mem_cons.mp digits
  rw [NumberPlace.walk_cons, leads c digit, Option.bind_some, walk_digits stays digits]

/-- Behind the digits in front of the point. -/
def BehindWhole (place : NumberPlace) : Prop := place = .zero ∨ place = .whole

/-- Where an exponent may begin. -/
def BeforeExponent (place : NumberPlace) : Prop := BehindWhole place ∨ place = .fraction

theorem walk_fraction (fraction : Fraction cs) (from_whole : BehindWhole place) :
    ∃ last, BeforeExponent last ∧ place.walk cs = some last := by
  cases fraction with
  | none => exact ⟨place, .inl from_whole, rfl⟩
  | @digits ds digits =>
    have point : place.next? '.' = some .point := by
      rcases from_whole with rfl | rfl <;> rfl
    have behind : NumberPlace.point.walk ds = some .fraction :=
      walk_some_digits (fun c digit => if_pos digit) (fun c digit => if_pos digit) digits
    refine ⟨.fraction, .inr rfl, ?_⟩
    rw [NumberPlace.walk_cons, point, Option.bind_some, behind]

theorem walk_exponent (exponent : Exponent cs) (before : BeforeExponent place) :
    ∃ last, last.isEnd = true ∧ place.walk cs = some last := by
  cases exponent with
  | none =>
    refine ⟨place, ?_, rfl⟩
    rcases before with (rfl | rfl) | rfl <;> rfl
  | @digits mark sign ds marks signs digits =>
    have begun : place.next? mark = some .exponentMark := by
      simp only [List.mem_cons, List.not_mem_nil, or_false] at marks
      rcases before with (rfl | rfl) | rfl <;> rcases marks with rfl | rfl <;> rfl
    refine ⟨.exponent, rfl, ?_⟩
    rw [NumberPlace.walk_cons, begun, Option.bind_some]
    simp only [List.mem_cons, List.not_mem_nil, or_false] at signs
    have unsigned : NumberPlace.exponentMark.walk ds = some .exponent :=
      walk_some_digits (fun c digit => if_pos digit) (fun c digit => if_pos digit) digits
    have signed : NumberPlace.exponentSign.walk ds = some .exponent :=
      walk_some_digits (fun c digit => if_pos digit) (fun c digit => if_pos digit) digits
    rcases signs with rfl | rfl | rfl
    · exact unsigned
    · exact signed
    · exact signed

/-- The digits in front of the point, at the beginning of a number or behind its sign. -/
theorem walk_whole (whole : Whole cs) : ∃ c later place, cs = c :: later ∧
    NumberPlace.first? c = some place ∧ NumberPlace.minus.next? c = some place ∧
      BehindWhole place ∧ place.walk later = some place := by
  cases whole with
  | zero => exact ⟨'0', [], .zero, rfl, rfl, rfl, .inl rfl, rfl⟩
  | @digits c later digit other digits =>
    have sign : c ≠ '-' := by
      rintro rfl
      cases digit
    refine ⟨c, later, .whole, rfl, ?_, ?_, .inr rfl, walk_digits (fun c digit => if_pos digit) digits⟩
    · simp [NumberPlace.first?, sign, other, digit]
    · simp [NumberPlace.next?, other, digit]

theorem walk_number (number : Number cs) : ∃ c later place last, cs = c :: later ∧
    NumberPlace.first? c = some place ∧ place.walk later = some last ∧ last.isEnd = true := by
  obtain ⟨sign, whole, fraction, exponent, signs, one, two, three, rfl⟩ := number
  obtain ⟨c, later, place, rfl, first, signed, behind, walk⟩ := walk_whole one
  obtain ⟨further, before, second⟩ := walk_fraction two behind
  obtain ⟨last, ends, third⟩ := walk_exponent three before
  have rest : place.walk (later ++ (fraction ++ exponent)) = some last := by
    rw [NumberPlace.walk_append, walk, Option.bind_some, NumberPlace.walk_append, second,
      Option.bind_some, third]
  simp only [List.mem_cons, List.not_mem_nil, or_false] at signs
  rcases signs with rfl | rfl
  · exact ⟨c, _, place, last, rfl, first, rest, ends⟩
  · refine ⟨'-', c :: (later ++ (fraction ++ exponent)), .minus, last, rfl, rfl, ?_, ends⟩
    rw [NumberPlace.walk_cons, signed, Option.bind_some, rest]

theorem step_first (first : NumberPlace.first? c = some place) : ∃ natural, ∀ before,
    (behind before).step c = some { mode := .number place natural, tokens := before.reverse } := by
  refine ⟨if place = .minus then none else some (c.toNat - '0'.toNat), fun before => ?_⟩
  have others : isGap c = false ∧ c ≠ quote ∧ c ≠ 'n' ∧ c ≠ 't' ∧ c ≠ 'f' := by
    refine ⟨Bool.eq_false_iff.mpr fun gap => ?_, ?_, ?_, ?_, ?_⟩
    · simp only [isGap, Bool.or_eq_true, decide_eq_true_eq] at gap
      rcases gap with ((rfl | rfl) | rfl) | rfl <;> cases first
    all_goals
      rintro rfl
      cases first
  obtain ⟨gap, text, null, yes, no⟩ := others
  simp [step, Lexer.start, behind, enter, gap, text, null, yes, no, first]

theorem read_walk (walk : place.walk cs = some last) (natural : Option Nat) :
    ∃ further, ∀ before : List Token,
      ({ mode := .number place natural, tokens := before } : Lexer).read cs =
        some { mode := .number last further, tokens := before } := by
  induction cs generalizing place natural with
  | nil =>
    cases walk
    exact ⟨natural, fun _ => rfl⟩
  | cons c later ih =>
    rw [NumberPlace.walk_cons, Option.bind_eq_some_iff] at walk
    obtain ⟨between, next, walk⟩ := walk
    obtain ⟨further, rest⟩ := ih walk (grow c between natural)
    refine ⟨further, fun before => ?_⟩
    simp only [read_cons, step, next, enter, Option.bind_some, rest]

/-- Every number of the grammar is one token. -/
theorem spelled_number (number : Number cs) :
    ∃ natural, Spelled cs [.scalar (.number natural)] := by
  obtain ⟨c, later, place, last, rfl, first, walk, ends⟩ := walk_number number
  obtain ⟨natural, started⟩ := step_first first
  obtain ⟨further, rest⟩ := read_walk walk natural
  refine ⟨further, fun before => ⟨_, ?_, settled_number ends⟩⟩
  rw [read_cons, started, Option.bind_some, rest]

end Numbers

section Values

theorem meant_write (datum : Datum) : Meant datum datum.write := by
  cases datum with
  | natural n => exact .natural n
  | text t => exact .text (quoted_writeText t)

theorem Meant.spelled {datum : Datum} (meant : Meant datum cs) :
    Spelled cs [.scalar datum.scalar] := by
  cases meant with
  | natural n => exact spelled_decimal n.toNat_lt
  | text quoted => exact (cut_quoted quoted).spelled

theorem cut_word {scalar : Scalar} (word : (scalar, cs) ∈ words) : Cut cs [.scalar scalar] := by
  intro before
  rw [← emit_behind]
  simp only [words, List.mem_cons, List.not_mem_nil, or_false, Prod.mk.injEq] at word
  rcases word with ⟨rfl, rfl⟩ | ⟨rfl, rfl⟩ | ⟨rfl, rfl⟩ <;> rfl

/-- What is written in a form is cut into tokens of this form. -/
theorem Written.spelled {form : Form} (written : Written form cs) :
    ∃ tokens, Shaped form tokens ∧ Spelled cs tokens := by
  induction written with
  | word word => exact ⟨_, .scalar _, (cut_word word).spelled⟩
  | number number =>
    obtain ⟨natural, spelled⟩ := spelled_number number
    exact ⟨_, .scalar _, spelled⟩
  | text literal =>
    obtain ⟨text, cut⟩ := cut_literal literal
    exact ⟨_, .scalar _, cut.spelled⟩
  | @empty bracket gap blank =>
    exact ⟨_, .empty bracket, ((cut_gap blank).spelled.around bracket).spelled⟩
  | nested _ ih =>
    obtain ⟨tokens, shaped, spelled⟩ := ih
    exact ⟨_, .nested shaped, (spelled.around _).spelled⟩
  | item _ spaced ih =>
    obtain ⟨tokens, shaped, spelled⟩ := ih
    exact ⟨tokens, .item shaped, spelled.spaced spaced⟩
  | member literal _ keyed ih =>
    obtain ⟨key, cut⟩ := cut_literal literal
    obtain ⟨tokens, shaped, spelled⟩ := ih
    exact ⟨_, .member key shaped, cut.spelled.keyed spelled keyed⟩
  | last _ ih =>
    obtain ⟨tokens, shaped, spelled⟩ := ih
    exact ⟨tokens, .last shaped, spelled⟩
  | more _ _ first later =>
    obtain ⟨tokens, shaped, spelled⟩ := first
    obtain ⟨rest, shape, spelling⟩ := later
    exact ⟨_, .more shaped shape, spelled.append_mark rfl spelling⟩

end Values

end DeviceShell.Json
