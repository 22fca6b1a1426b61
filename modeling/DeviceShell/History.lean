/-! Lists that grow at their end. What is added costs the same however much there is already, and
whoever holds an earlier history keeps it as it was. -/

namespace DeviceShell

/-- What has happened so far, kept with the latest entry first. -/
structure History (α : Type) where
  latestFirst : List α := []
  deriving DecidableEq, Repr

namespace History

variable {α : Type}

def toList (h : History α) : List α := h.latestFirst.reverse

def size (h : History α) : Nat := h.latestFirst.length

def push (a : α) (h : History α) : History α := ⟨a :: h.latestFirst⟩

def append (as : List α) (h : History α) : History α := ⟨as.reverse ++ h.latestFirst⟩

@[simp] theorem toList_empty : ({} : History α).toList = [] := rfl

@[simp] theorem length_toList (h : History α) : h.toList.length = h.size := by
  simp [toList, size]

@[simp] theorem toList_push (a : α) (h : History α) : (h.push a).toList = h.toList ++ [a] := by
  simp [toList, push]

@[simp] theorem toList_append (as : List α) (h : History α) :
    (h.append as).toList = h.toList ++ as := by
  simp [toList, append]

theorem toList_inj {g h : History α} : g.toList = h.toList ↔ g = h := by
  cases g
  cases h
  simp [toList]

end History

end DeviceShell
