import Mathlib

/-!
# C strings and the memory that holds them

A `char *` is seen in two ways. As a *value* it is the list of its characters, and every function
that only reads it is a function of that list. As *memory* it is a list of cells, where `none` is
the NUL byte, and a function that plants or removes terminators works on the cells. `toBuffer` and
`cstr` go between the two.

The alphabet is `Char` and the terminator is not in it, so a list is a string whatever it holds.
Lengths are naturals; what becomes of one that is kept in an `int` is said where it is.
-/

namespace Umsftpd.CLib

/-- A C string, as its characters. The terminating NUL is not one of them. -/
abbrev CStr := List Char

/-- Strings are compared character by character. -/
instance : LawfulBEq CStr := inferInstance

/-- The cells of a character array; `none` is the NUL byte. -/
abbrev Buffer := List (Option Char)

/-- The cells a string occupies, terminator included. -/
def toBuffer (s : CStr) : Buffer := s.map some ++ [none]

/-- The string found at the start of a buffer: everything before the first NUL. -/
def cstr : Buffer → CStr
  | some c :: rest => c :: cstr rest
  | _ => []

@[simp] theorem length_toBuffer (s : CStr) : (toBuffer s).length = s.length + 1 := by
  simp [toBuffer]

@[simp] theorem toBuffer_cons (c : Char) (s : CStr) :
    toBuffer (c :: s) = some c :: toBuffer s := rfl

/-- A NUL ends the string wherever the memory goes on. -/
theorem cstr_map_some_append (s : CStr) (rest : Buffer) :
    cstr (s.map some ++ none :: rest) = s := by
  induction s with
  | nil => rfl
  | cons c s ih => simpa [cstr] using ih

@[simp] theorem cstr_toBuffer (s : CStr) : cstr (toBuffer s) = s :=
  cstr_map_some_append s []

/-- A string that a NUL behind some cells ends has no more characters than there are cells. -/
theorem length_cstr_append_none (cells : Buffer) :
    (cstr (cells ++ [none])).length ≤ cells.length := by
  induction cells with
  | nil => exact Nat.le_refl 0
  | cons cell cells ih =>
    cases cell with
    | none => exact Nat.zero_le _
    | some c => exact Nat.succ_le_succ ih

theorem getElem?_toBuffer (s : CStr) (i : Nat) :
    (toBuffer s)[i]? = if i < s.length then s[i]?.map some
      else if i = s.length then some none else none := by
  unfold toBuffer
  split
  · next h => rw [List.getElem?_append_left (by simpa using h)]; simp
  · next h =>
    rw [List.getElem?_append_right (by simpa using h)]
    split
    · next h' => simp [h']
    · next h' =>
      rw [List.getElem?_eq_none]
      simp; omega

/-- The cell of a character in the middle of a string. -/
theorem getD_toBuffer_append (a : CStr) (c : Char) (b : CStr) :
    (toBuffer (a ++ c :: b)).getD a.length none = some c := by
  rw [List.getD_eq_getElem?_getD, getElem?_toBuffer, if_pos (by simp),
    List.getElem?_append_right (Nat.le_refl _)]
  simp

/-- Planting a NUL at `i` leaves the first `i` characters. -/
theorem cstr_set_toBuffer {s : CStr} {i : Nat} (h : i ≤ s.length) :
    cstr ((toBuffer s).set i none) = s.take i := by
  induction s generalizing i with
  | nil => obtain rfl : i = 0 := by simpa using h
           rfl
  | cons c s ih =>
    cases i with
    | zero => rfl
    | succ i => simpa [cstr] using ih (by simpa using h)

/-! ## Checked access

`none` is an access outside the array. -/

/-- Store `c` at index `i`. -/
def writeCell (b : Buffer) (i : Nat) (c : Option Char) : Option Buffer :=
  if i < b.length then some (b.set i c) else none

/-- `memcpy(b + i, src, …)`: store the cells of `src` from index `i` on. -/
def writeCells (b : Buffer) (i : Nat) (src : Buffer) : Option Buffer :=
  if i + src.length ≤ b.length then some (b.take i ++ src ++ b.drop (i + src.length)) else none

theorem writeCell_take {b : Buffer} {i : Nat} {c : Option Char} (h : i < b.length) :
    ∃ b', writeCell b i c = some b' ∧ b'.length = b.length ∧ b'.take (i + 1) = b.take i ++ [c] := by
  refine ⟨b.set i c, if_pos h, by simp, ?_⟩
  rw [List.take_add_one, List.take_set_of_le (Nat.le_refl i)]
  simp [h]

theorem writeCells_take {b : Buffer} {i : Nat} {src : Buffer} (h : i + src.length ≤ b.length) :
    ∃ b', writeCells b i src = some b' ∧ b'.length = b.length ∧
      b'.take (i + src.length) = b.take i ++ src := by
  refine ⟨_, if_pos h, by simp; omega, ?_⟩
  have hi : (b.take i).length = i := by simp; omega
  rw [List.take_append_of_le_length (by simp [hi]), List.take_of_length_le (by simp)]

/-! ## Comparing and searching -/

/-- `!strncmp(a, b, n)`. Two strings agree on `n` characters, or up to a common end before that. -/
def strncmpEq (a b : CStr) (n : Nat) : Bool := a.take n == b.take n

/-- `strcmp`: the lexicographic order of the characters. -/
def strcmp (a b : CStr) : Ordering := compare a b

instance : Std.TransCmp strcmp := inferInstanceAs (Std.TransCmp (@compare (List Char) _))
instance : Std.LawfulEqCmp strcmp := inferInstanceAs (Std.LawfulEqCmp (@compare (List Char) _))

theorem strcmp_eq_iff {a b : CStr} : strcmp a b = .eq ↔ a = b := Std.LawfulEqCmp.compare_eq_iff_eq

theorem strcmp_beq (a b : CStr) : (strcmp a b == .eq) = (a == b) := by
  rw [Bool.eq_iff_iff, beq_iff_eq, beq_iff_eq, strcmp_eq_iff]

/-- `strrchr(s, c) + 1`: what follows the last `c`, with `none` when there is no `c` to point at. -/
def afterLast (s : CStr) (c : Char) : Option CStr :=
  if c ∈ s then some (s.rtakeWhile (· != c)) else none

/-- The part after the last `c`, when the string is cut there. -/
theorem afterLast_append {c : Char} (a : CStr) {b : CStr} (hb : c ∉ b) :
    afterLast (a ++ c :: b) c = some b := by
  have hall : ∀ x ∈ b.reverse, (x != c) = true := by
    intro x hx
    have hne : x ≠ c := fun h => hb (h ▸ List.mem_reverse.mp hx)
    simpa using hne
  unfold afterLast List.rtakeWhile
  rw [if_pos (by simp), List.reverse_append, List.reverse_cons, List.append_assoc,
    List.takeWhile_append_of_pos hall]
  simp

end Umsftpd.CLib
