import DeviceShell.Input.Reader
import DeviceShell.Proofs.Shell.Alike

/-! The lines that an input completes. They depend on its bytes, the unfinished line and the
interrupt byte, and on nothing else. -/
namespace DeviceShell.Input

/-- The bytes that reads give until the input is over. -/
def bytesOf : List Read → Bytes
  | [] => []
  | .data bytes _ :: later => bytes ++ bytesOf later
  | .wouldBlock :: later | .interrupted :: later => bytesOf later
  | .failed _ :: _ => []

namespace Typing

/-- The lines that bytes complete. -/
def lines (t : Typing) (bytes : Bytes) : List String := (t.feedAll bytes).1

/-- Typing that will complete the same lines. -/
structure Alike (t u : Typing) : Prop where
  editor : u.editor = t.editor
  byte : u.shared.interrupts.byte = t.shared.interrupts.byte

variable {t u : Typing}

theorem feed_congr (alike : t.Alike u) (b : UInt8) :
    (u.feed b).1 = (t.feed b).1 ∧ (t.feed b).2.Alike (u.feed b).2 := by
  by_cases raised : b = t.shared.interrupts.byte
  · have same : b = u.shared.interrupts.byte := raised.trans alike.byte.symm
    simp only [feed, Interrupts.take, if_pos raised, if_pos same, true_and]
    refine ⟨rfl, ?_⟩
    rw [Shared.byte_raise, Shared.byte_raise]
    exact alike.byte
  · have other : b ≠ u.shared.interrupts.byte := fun same => raised (same.trans alike.byte)
    simp only [feed, Interrupts.take, if_neg raised, if_neg other, alike.editor]
    split
    · exact ⟨rfl, rfl, alike.byte⟩
    · exact ⟨rfl, rfl, alike.byte⟩
    · exact ⟨rfl, rfl, alike.byte⟩

theorem lines_cons (t : Typing) (b : UInt8) (bytes : Bytes) :
    t.lines (b :: bytes) = (t.feed b).1.toList ++ (t.feed b).2.lines bytes := by
  unfold lines
  rw [feedAll]
  split
  · rename_i after fed
    rw [fed]
    rfl
  · rename_i line after fed
    rw [fed]
    rfl

theorem lines_congr (alike : t.Alike u) (bytes : Bytes) : u.lines bytes = t.lines bytes := by
  induction bytes generalizing t u with
  | nil => rfl
  | cons b bytes ih =>
    obtain ⟨same, later⟩ := feed_congr alike b
    rw [lines_cons, lines_cons, same, ih later]

theorem alike_feed (t : Typing) (b : UInt8) : t.shared.Alike (t.feed b).2.shared := by
  unfold feed
  split
  · rename_i interrupts taken
    refine ⟨rfl, ?_⟩
    have byte := Shared.byte_take b t.shared.interrupts
    rw [taken] at byte
    exact byte
  · split <;> exact ⟨rfl, rfl⟩

end Typing

namespace Reader

variable {χ : Type} [Mailbox χ] (r : Reader χ)

theorem alike_deliver (line : String) :
    r.typing.Alike (r.deliver line).typing ∧
      r.typing.shared.Alike (r.deliver line).typing.shared := by
  unfold deliver
  split
  · exact ⟨⟨rfl, rfl⟩, .refl _⟩
  · exact ⟨⟨rfl, rfl⟩, ⟨rfl, rfl⟩⟩

theorem feed_eq (b : UInt8) :
    r.feed b = match (r.typing.feed b).1 with
      | some line => ({ r with typing := (r.typing.feed b).2 } : Reader χ).deliver line
      | none => { r with typing := (r.typing.feed b).2 } := by
  unfold feed
  split <;>
    · rename_i fed
      rw [fed]

theorem alike_feed (b : UInt8) :
    (r.typing.feed b).2.Alike (r.feed b).typing ∧
      r.typing.shared.Alike (r.feed b).typing.shared := by
  have fed := r.typing.alike_feed b
  rw [feed_eq]
  split
  · rename_i line _
    obtain ⟨typing, shared⟩ :=
      alike_deliver ({ r with typing := (r.typing.feed b).2 } : Reader χ) line
    exact ⟨typing, fed.trans shared⟩
  · exact ⟨⟨rfl, rfl⟩, fed⟩

end Reader

end DeviceShell.Input
