import DeviceShell.Device.Facts
import DeviceShell.Monitor.Snapshot
import DeviceShell.Proofs.Text.Filling

/-! The names of threads and of the board. Each is what a buffer of 24 bytes keeps of the text that
was given for it. -/
namespace DeviceShell

open Monitor Text

/-- A thread's own names are kept as they are. -/
theorem Monitor.Thread.new_new (app name : String) (activity : Activity) (priority : UInt8) :
    Thread.new (Thread.new app name activity priority).app
        (Thread.new app name activity priority).name activity priority =
      Thread.new app name activity priority := by
  simp only [Thread.new, fit_fit]

theorem Facts.board_board (name model system : String) (cores : Nat) :
    board (board name model system cores).name model system cores = board name model system cores := by
  simp only [board, fit_fit]

/-- Whatever text is given as the name of an application, of a thread or of the board, the name is
what any buffer of 24 bytes is left with when it is filled with that text, and the longest beginning
of it that takes no more. Given once more, it is kept as it is. -/
theorem names_kept (β : Type) [Buffer β] [Buffer.Lawful β 24] (app name label model system : String)
    (activity : Activity) (priority : UInt8) (cores : Nat) :
    let thread := Thread.new app name activity priority
    let board := Facts.board label model system cores
    Buffer.Kept β 24 app thread.app ∧ Buffer.Kept β 24 name thread.name ∧
      Buffer.Kept β 24 label board.name ∧
      Thread.new thread.app thread.name activity priority = thread ∧
      Facts.board board.name model system cores = board := by
  intro thread board
  refine ⟨Buffer.kept_fit app, Buffer.kept_fit name, Buffer.kept_fit label, ?_, ?_⟩
  · exact Thread.new_new app name activity priority
  · exact Facts.board_board label model system cores

/-- A character of two bytes where there is room for one, a name that fits, and a character of four
bytes where there is room for three. -/
theorem names_kept_wide :
    let first := repeated 23 'x' ++ "éy"
    let last := repeated 19 'x' ++ "é😀"
    let thread := Thread.new first "idle" .ready 0
    let board := Facts.board last "esp" "linux" 2
    Buffer.Lawful (Bounded 24) 24 ∧
      Buffer.Kept (Bounded 24) 24 first thread.app ∧ thread.app = repeated 23 'x' ∧
      Buffer.Kept (Bounded 24) 24 "idle" thread.name ∧ thread.name = "idle" ∧
      Buffer.Kept (Bounded 24) 24 last board.name ∧ board.name = repeated 19 'x' ++ "é" ∧
      Thread.new thread.app thread.name .ready 0 = thread ∧
      Facts.board board.name "esp" "linux" 2 = board := by
  intro first last thread board
  obtain ⟨app, name, label, again, same⟩ :=
    names_kept (Bounded 24) first "idle" last "esp" "linux" .ready 0 2
  have cut : thread.app = repeated 23 'x' := by decide +kernel
  have short : thread.name = "idle" := name.whole.mpr (by decide)
  have wide : board.name = repeated 19 'x' ++ "é" := by decide +kernel
  exact ⟨inferInstance, app, cut, name, short, label, wide, again, same⟩

end DeviceShell
