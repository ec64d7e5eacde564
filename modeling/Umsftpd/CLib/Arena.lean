import Umsftpd.CLib.CString

/-!
# An arena of cells addressed by reference

Structs that C code reaches through pointers live here: a reference is the number of the
allocation that made the cell, and two references are the same pointer exactly when they are equal.
Cells are never given back, so a reference stays good once it has been handed out.
-/

namespace Umsftpd.CLib

/-- The cells allocated so far, with the reference the next allocation gets. -/
structure Arena (α : Type) where
  next : Nat
  cell : Nat → α

namespace Arena

variable {α : Type}

/-- An arena without allocations; `default` fills the cells no reference leads to. -/
def empty [Inhabited α] : Arena α := ⟨0, fun _ => default⟩

/-- Allocate a cell holding `x`. -/
def alloc (a : Arena α) (x : α) : Nat × Arena α :=
  (a.next, ⟨a.next + 1, Function.update a.cell a.next x⟩)

/-- Change the cell behind `r`. -/
def modify (a : Arena α) (r : Nat) (f : α → α) : Arena α :=
  ⟨a.next, Function.update a.cell r (f (a.cell r))⟩

@[simp] theorem alloc_cell_next (a : Arena α) (x : α) : (a.alloc x).2.cell a.next = x := by
  simp [alloc]

theorem alloc_cell_of_lt {a : Arena α} (x : α) {r : Nat} (h : r < a.next) :
    (a.alloc x).2.cell r = a.cell r := by
  simp [alloc, Function.update_of_ne (Nat.ne_of_lt h)]

@[simp] theorem modify_cell_self (a : Arena α) (r : Nat) (f : α → α) :
    (a.modify r f).cell r = f (a.cell r) := by
  simp [modify]

theorem modify_cell_of_ne {a : Arena α} {r s : Nat} (f : α → α) (h : s ≠ r) :
    (a.modify r f).cell s = a.cell s := by
  simp [modify, Function.update_of_ne h]

theorem modify_modify (a : Arena α) (r : Nat) (f g : α → α) :
    (a.modify r f).modify r g = a.modify r fun x => g (f x) := by
  simp [modify]

end Arena

end Umsftpd.CLib
