import DeviceShell.Relay.Pipe

/-! A pipe in a fixed circle of cells. A call goes no further than the last cell, so what goes
round the circle takes two. -/

namespace DeviceShell.Relay

/-- The oldest of `pending` bytes is in the cell `head`; the others follow around the circle. -/
structure Circle (capacity : Nat) where
  cells : Vector UInt8 capacity := Vector.replicate capacity 0
  head : Nat := 0
  pending : Nat := 0
  head_lt : head < max 1 capacity := by omega
  pending_le : pending ≤ capacity := by omega

namespace Circle

variable {capacity : Nat}

/-- The cell a number of steps after another, in a circle that is not gone round twice. -/
def around (capacity start steps : Nat) : Nat :=
  if start + steps < capacity then start + steps else start + steps - capacity

theorem around_lt {start steps : Nat} (h : start < max 1 capacity) (hs : steps ≤ capacity) :
    around capacity start steps < max 1 capacity := by
  unfold around
  split <;> omega

theorem around_of_lt {start steps : Nat} (h : start + steps < capacity) :
    around capacity start steps = start + steps := if_pos h

theorem around_of_le {start steps : Nat} (h : capacity ≤ start + steps) :
    around capacity start steps = start + steps - capacity := if_neg (by omega)

def contents (c : Circle capacity) : Bytes :=
  (List.range c.pending).map fun i => c.cells[around capacity c.head i]?.getD 0

/-- Free cells in one piece from the first free cell on. -/
def freeRun (c : Circle capacity) : Nat :=
  if c.head + c.pending < capacity then capacity - (c.head + c.pending) else capacity - c.pending

/-- Filled cells in one piece from the oldest byte on. -/
def filledRun (c : Circle capacity) : Nat := min c.pending (capacity - c.head)

theorem freeRun_of_lt {c : Circle capacity} (h : c.head + c.pending < capacity) :
    c.freeRun = capacity - (c.head + c.pending) := if_pos h

theorem freeRun_of_le {c : Circle capacity} (h : capacity ≤ c.head + c.pending) :
    c.freeRun = capacity - c.pending := if_neg (by omega)

theorem freeRun_le (c : Circle capacity) : c.freeRun ≤ capacity - c.pending := by
  unfold freeRun
  split <;> omega

theorem filledRun_le (c : Circle capacity) : c.filledRun ≤ c.pending := Nat.min_le_left _ _

def store (cells : Vector UInt8 capacity) (start : Nat) : Bytes → Vector UInt8 capacity
  | [] => cells
  | b :: bs => store (cells.setIfInBounds start b) (start + 1) bs

def load (cells : Vector UInt8 capacity) (start count : Nat) : Bytes :=
  (List.range count).map fun i => cells[start + i]?.getD 0

/-- Queue as many bytes as there is room for in one piece, and say how many. -/
def writeRun (bytes : Bytes) (c : Circle capacity) : Nat × Circle capacity :=
  let count := min bytes.length c.freeRun
  (count,
    { cells := store c.cells (around capacity c.head c.pending) (bytes.take count)
      head := c.head
      pending := c.pending + count
      head_lt := c.head_lt
      pending_le := by have := c.freeRun_le; have := c.pending_le; omega })

/-- Take at most `room` of the bytes that lie in one piece. -/
def readRun (room : Nat) (c : Circle capacity) : Bytes × Circle capacity :=
  let count := min room c.filledRun
  (load c.cells c.head count,
    { cells := c.cells
      head := around capacity c.head count
      pending := c.pending - count
      head_lt := around_lt c.head_lt (by have := c.pending_le; have := c.filledRun_le; omega)
      pending_le := by have := c.pending_le; omega })

@[simp] theorem length_load (cells : Vector UInt8 capacity) (start count : Nat) :
    (load cells start count).length = count := by
  simp [load]

@[simp] theorem length_contents (c : Circle capacity) : c.contents.length = c.pending := by
  simp [contents]

/-- A stored byte is found in its cell, and the cells around keep theirs. -/
theorem getElem?_store (cells : Vector UInt8 capacity) (start : Nat) (bytes : Bytes) (j : Nat) :
    (store cells start bytes)[j]? =
      if start ≤ j ∧ j < capacity then (bytes[j - start]?).or cells[j]? else cells[j]? := by
  induction bytes generalizing cells start with
  | nil => simp [store]
  | cons b bs ih =>
    rw [store, ih]
    by_cases here : j = start
    · subst here
      have past : ¬ j + 1 ≤ j := by omega
      by_cases inside : j < capacity
      · simp [inside, past]
      · simp [inside]
    · have kept : (cells.setIfInBounds start b)[j]? = cells[j]? := by
        simp [Ne.symm here]
      by_cases after : start + 1 ≤ j
      · have index : j - start = j - (start + 1) + 1 := by omega
        rw [kept, index, List.getElem?_cons_succ]
        have before : start ≤ j := by omega
        simp only [after, before, true_and]
      · have before : ¬ start ≤ j := by omega
        simp only [kept, after, before, false_and, if_false]

/-- A cell that a pass writes to lies as far behind the first free one as its byte does. -/
theorem around_of_written {c : Circle capacity} {i : Nat} (old : c.pending ≤ i)
    (new : i < c.pending + c.freeRun) :
    around capacity c.head i = around capacity c.head c.pending + (i - c.pending) ∧
      around capacity c.head i < capacity := by
  have head_lt := c.head_lt
  by_cases straight : c.head + c.pending < capacity
  · rw [freeRun_of_lt straight] at new
    have cell : around capacity c.head i = c.head + i := around_of_lt (by omega)
    rw [around_of_lt straight, cell]
    omega
  · rw [freeRun_of_le (by omega)] at new
    have free : around capacity c.head c.pending = c.head + c.pending - capacity :=
      around_of_le (by omega)
    have cell : around capacity c.head i = c.head + i - capacity := around_of_le (by omega)
    rw [free, cell]
    omega

/-- A cell that is in use lies outside those that a pass writes to. -/
theorem around_of_kept {c : Circle capacity} {i : Nat} (old : i < c.pending)
    (behind : around capacity c.head c.pending ≤ around capacity c.head i) :
    c.freeRun ≤ around capacity c.head i - around capacity c.head c.pending := by
  have pending_le := c.pending_le
  by_cases straight : c.head + c.pending < capacity
  · have cell : around capacity c.head i = c.head + i := around_of_lt (by omega)
    rw [around_of_lt straight, cell] at behind
    omega
  · rw [freeRun_of_le (by omega)]
    have free : around capacity c.head c.pending = c.head + c.pending - capacity :=
      around_of_le (by omega)
    rw [free] at behind ⊢
    by_cases here : c.head + i < capacity
    · rw [around_of_lt here]
      omega
    · rw [around_of_le (by omega)] at behind ⊢
      omega

theorem contents_writeRun (bytes : Bytes) (c : Circle capacity) :
    (c.writeRun bytes).2.contents = c.contents ++ bytes.take (c.writeRun bytes).1 := by
  apply List.ext_getElem
  · simp only [writeRun, length_contents, List.length_append, List.length_take]
    omega
  · intro i hi hj
    have hi : i < c.pending + min bytes.length c.freeRun := by simpa [writeRun] using hi
    have stored := getElem?_store c.cells (around capacity c.head c.pending)
      (bytes.take (min bytes.length c.freeRun)) (around capacity c.head i)
    by_cases old : i < c.pending
    · rw [List.getElem_append_left (by rw [length_contents]; omega)]
      simp only [contents, writeRun, List.getElem_map, List.getElem_range, stored]
      split
      · rename_i h
        have beyond := around_of_kept old h.1
        rw [List.getElem?_eq_none (by rw [List.length_take]; omega), Option.none_or]
      · rfl
    · rw [List.getElem_append_right (by rw [length_contents]; omega)]
      simp only [contents, writeRun, List.getElem_map, List.getElem_range, stored]
      obtain ⟨place, inside⟩ := around_of_written (c := c) (i := i) (by omega) (by omega)
      rw [if_pos ⟨by omega, inside⟩]
      have index : around capacity c.head i - around capacity c.head c.pending = i - c.pending := by
        omega
      have within : i - c.pending < (bytes.take (min bytes.length c.freeRun)).length := by
        rw [List.length_take]
        omega
      rw [index, List.getElem?_eq_getElem within]
      simp

theorem contents_readRun (room : Nat) (c : Circle capacity) :
    (c.readRun room).1 ++ (c.readRun room).2.contents = c.contents := by
  have head_lt := c.head_lt
  have pending_le := c.pending_le
  have filled := c.filledRun_le
  apply List.ext_getElem
  · simp only [readRun, List.length_append, length_load, length_contents]
    omega
  · intro i hi hj
    have hj : i < c.pending := by simpa using hj
    by_cases taken : i < min room c.filledRun
    · rw [List.getElem_append_left (by simp only [readRun, length_load]; omega)]
      simp only [contents, readRun, load, List.getElem_map, List.getElem_range]
      have place : around capacity c.head i = c.head + i := by
        unfold around filledRun at *
        split <;> omega
      rw [place]
    · rw [List.getElem_append_right (by simp only [readRun, length_load]; omega)]
      simp only [contents, readRun, List.getElem_map, List.getElem_range, length_load]
      have place : around capacity (around capacity c.head (min room c.filledRun))
          (i - min room c.filledRun) = around capacity c.head i := by
        unfold around filledRun at *
        split <;> split <;> split <;> omega
      rw [place]

instance : Pipe (Circle capacity) where
  empty := {}
  contents := contents
  pending := pending
  tryWrite := writeRun
  tryRead := readRun

instance : Pipe.Lawful (Circle capacity) capacity where
  contents_empty := rfl
  pending_eq c := c.length_contents.symm
  length_contents_le c := Nat.le_trans (Nat.le_of_eq c.length_contents) c.pending_le
  tryWrite_le bytes c := Nat.min_le_left _ _
  tryWrite_pos bytes c given room := by
    have some := List.length_pos_iff.mpr given
    have free : c.pending < capacity := by simpa [Pipe.contents] using room
    simp only [Pipe.tryWrite, writeRun, freeRun]
    split <;> omega
  contents_tryWrite bytes c := contents_writeRun bytes c
  length_tryRead_le room c := by
    simp only [Pipe.tryRead, readRun, length_load]
    omega
  tryRead_ne_nil room c asked filled := by
    have head_lt := c.head_lt
    have pending_le := c.pending_le
    have some : 0 < c.pending := by simpa [Pipe.contents] using List.length_pos_iff.mpr filled
    apply List.ne_nil_of_length_pos
    simp only [Pipe.tryRead, readRun, length_load, filledRun]
    omega
  contents_tryRead room c := contents_readRun room c

end Circle

end DeviceShell.Relay
