import DeviceShell.Terminal.Console

/-! Output that is pushed to the terminal piece by piece. -/
namespace DeviceShell

namespace Console

variable {c : Console} {texts : List String}

/-- Write some texts, and push each of them to the terminal by itself. -/
def publish (texts : List String) (c : Console) : Console :=
  texts.foldl (fun c text => (c.write text).flush) c

theorem publish_cons (text : String) (later : List String) (c : Console) :
    c.publish (text :: later) = ((c.write text).flush).publish later := rfl

theorem write_append (first second : String) (c : Console) :
    c.write (first ++ second) = (c.write first).write second := by
  simp only [write, writeBytes, Text.encode_append, List.append_assoc]

theorem output_write (text : String) (c : Console) :
    (c.write text).output = c.output ++ Text.encode text :=
  output_writeBytes _ c

theorem publish_append (first second : List String) (c : Console) :
    c.publish (first ++ second) = (c.publish first).publish second := by
  rw [publish, List.foldl_append, publish, publish]

theorem output_publish (texts : List String) (c : Console) :
    (c.publish texts).output = c.output ++ Text.encode (String.join texts) := by
  induction texts generalizing c with
  | nil => exact (List.append_nil c.output).symm
  | cons text later ih =>
    rw [publish_cons, ih, output_flush, output_write, String.join_cons,
      Text.encode_append, List.append_assoc]

/-- Each text is one more segment behind what has been pushed before. What was held back goes with
the first. -/
theorem flushed_publish (texts : List String) (c : Console) :
    (c.publish texts).flushed.toList =
      c.flushed.toList ++ (texts.map Text.encode).modifyHead (c.tail ++ ·) := by
  induction texts generalizing c with
  | nil => exact (List.append_nil _).symm
  | cons text later ih =>
    have pushed : ((c.write text).flush).flushed.toList =
        c.flushed.toList ++ [c.tail ++ Text.encode text] := History.toList_push _ _
    have empty : ((c.write text).flush).tail = [] := rfl
    rw [publish_cons, ih, pushed, empty, List.append_assoc]
    simp only [List.nil_append]
    cases later <;> rfl

theorem size_flushed_publish (texts : List String) (c : Console) :
    (c.publish texts).flushed.size = c.flushed.size + texts.length := by
  rw [← History.length_toList, flushed_publish, List.length_append, List.length_modifyHead,
    List.length_map, History.length_toList]

/-- What is pushed later does not change what the terminal has been sent. -/
theorem take_flushed_flush {count : Nat} (sent : count ≤ c.flushed.size) (text : String) :
    ((c.write text).flush).flushed.toList.take count = c.flushed.toList.take count := by
  have later : ((c.write text).flush).flushed.toList = c.flushed.toList ++ [(c.write text).tail] :=
    History.toList_push _ _
  rw [later, List.take_append_of_le_length (by rwa [History.length_toList])]

/-- Nothing is kept back. -/
theorem tail_publish (some_text : texts ≠ []) : (c.publish texts).tail = [] := by
  obtain ⟨front, last, rfl⟩ := List.eq_nil_or_concat texts |>.resolve_left some_text
  rw [List.concat_eq_append, publish_append]
  rfl

/-- What the terminal has been sent with the first of the texts. -/
theorem flatten_take_publish {count : Nat} (pushed : 0 < count) (inside : count ≤ texts.length) :
    ((c.publish texts).flushed.toList.take (c.flushed.size + count)).flatten =
      c.output ++ Text.encode (String.join (texts.take count)) := by
  have whole := flushed_publish (texts.drop count) (c.publish (texts.take count))
  have room : (c.publish (texts.take count)).flushed.toList.length = c.flushed.size + count := by
    rw [History.length_toList, size_flushed_publish, List.length_take, Nat.min_eq_left inside]
  have empty : (c.publish (texts.take count)).tail = [] := tail_publish fun none => by
    have short := congrArg List.length none
    rw [List.length_take, Nat.min_eq_left inside] at short
    exact absurd short (Nat.ne_of_gt pushed)
  have all := publish_append (texts.take count) (texts.drop count) c
  rw [List.take_append_drop] at all
  rw [all, whole, ← room, List.take_left, ← output_publish, output, empty, List.append_nil]

end Console

end DeviceShell
