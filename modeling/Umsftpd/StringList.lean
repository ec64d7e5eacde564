import Umsftpd.CLib.Posix
import Umsftpd.CLib.Sorting

/-!
# String lists (`stringlist.c`)

A growing array of strings that is sorted when it is first searched. Insertion only appends and
clears the flag; the flag is a promise about the array, so it carries its proof.
-/

namespace Umsftpd

open CLib

/-- `struct stringlist_t`; `count` is the length of `strings`. -/
structure StringList where
  strings : List CStr
  sorted : Bool
  strings_sorted : sorted = true → strings.Pairwise fun a b => strcmp a b ≠ .gt

namespace StringList

def count (list : StringList) : Nat := list.strings.length

def empty : StringList := ⟨[], true, fun _ => List.Pairwise.nil⟩

/-- A list just after an insertion: the string at the end and the flag cleared. -/
def push (list : StringList) (string : CStr) : StringList :=
  ⟨list.strings ++ [string], false, fun h => absurd h (by simp)⟩

@[simp] theorem strings_push (list : StringList) (string : CStr) :
    (list.push string).strings = list.strings ++ [string] := rfl

end StringList

def stringlistNew : Exec (Option StringList) := do
  if !(← Exec.malloc) then
    return none
  return some StringList.empty

/-- `stringlist_insert`, on a list pointer that the code does not check. -/
def stringlistInsert (list : Option StringList) (string : CStr) :
    Exec (Bool × Option StringList) := do
  -- strdup(string)
  if !(← Exec.malloc) then
    return (false, list)
  let list ← Exec.checked list
  -- realloc(list->strings, …)
  if !(← Exec.malloc) then
    return (false, some list)
  return (true, some (list.push string))

variable (libc : LibC)

def stringlistCmp (str1 str2 : CStr) : Ordering := strcmp str1 str2

instance : Std.TransCmp stringlistCmp := inferInstanceAs (Std.TransCmp strcmp)
instance : Std.LawfulEqCmp stringlistCmp := inferInstanceAs (Std.LawfulEqCmp strcmp)

def stringlistSort (list : StringList) : StringList :=
  if list.count ≠ 0 then
    ⟨libc.qsort stringlistCmp list.strings, true, fun _ => libc.qsort_sorted stringlistCmp _⟩
  else list

/-- `stringlist_contains`, with the list as the search leaves it. -/
def stringlistContains (list : StringList) (string : CStr) : Bool × StringList :=
  if list.count = 0 then
    (false, list)
  else
    let list := if !list.sorted then stringlistSort libc list else list
    ((libc.bsearch (stringlistCmp string) list.strings).isSome, list)

/-! ## What a search does -/

@[simp] theorem stringlistNew_apply (os : Os) (tr : List SysCall) :
    stringlistNew os ⟨[], tr⟩ = some (some StringList.empty, ⟨[], tr⟩) := rfl

@[simp] theorem stringlistInsert_apply (list : StringList) (string : CStr) (os : Os)
    (tr : List SysCall) :
    stringlistInsert (some list) string os ⟨[], tr⟩ =
      some ((true, some (list.push string)), ⟨[], tr⟩) := rfl

theorem stringlistSort_perm (list : StringList) :
    (stringlistSort libc list).strings.Perm list.strings := by
  unfold stringlistSort
  split
  · exact libc.qsort_perm _ _
  · rfl

/-- The answer of a search is membership. -/
theorem stringlistContains_iff (list : StringList) (string : CStr) :
    (stringlistContains libc list string).1 = true ↔ string ∈ list.strings := by
  unfold stringlistContains
  by_cases hc : list.count = 0
  · have hnil : list.strings = [] := List.length_eq_zero_iff.mp hc
    simp [hc, hnil]
  · simp only [hc, if_false]
    cases hs : list.sorted
    · have hsorted : (stringlistSort libc list).strings.Pairwise
          fun a b => stringlistCmp a b ≠ .gt := by
        simp only [stringlistSort, ne_eq, hc, not_false_eq_true, if_true]
        exact libc.qsort_sorted stringlistCmp _
      simpa using (libc.bsearch_isSome_iff stringlistCmp hsorted string).trans
        (stringlistSort_perm libc list).mem_iff
    · simpa using libc.bsearch_isSome_iff stringlistCmp (list.strings_sorted hs) string

/-- The list as a search leaves it. -/
def stringlistSearched (list : StringList) : StringList :=
  if list.count ≠ 0 ∧ list.sorted = false then stringlistSort libc list else list

theorem stringlistContains_eq (list : StringList) (string : CStr) :
    stringlistContains libc list string =
      (decide (string ∈ list.strings), stringlistSearched libc list) := by
  have hfound : (stringlistContains libc list string).1 = decide (string ∈ list.strings) := by
    rw [Bool.eq_iff_iff, decide_eq_true_iff]
    exact stringlistContains_iff libc list string
  apply Prod.ext hfound
  unfold stringlistContains stringlistSearched
  by_cases hcount : list.count = 0
  · simp [hcount]
  · cases hsorted : list.sorted <;> simp [hcount]

theorem stringlistSearched_perm (list : StringList) :
    (stringlistSearched libc list).strings.Perm list.strings := by
  unfold stringlistSearched
  split
  · exact stringlistSort_perm libc list
  · exact List.Perm.refl _

/-- The second search finds a list in order. -/
theorem stringlistSearched_idem (list : StringList) :
    stringlistSearched libc (stringlistSearched libc list) = stringlistSearched libc list := by
  by_cases h : list.count ≠ 0 ∧ list.sorted = false
  · have hsorted : (stringlistSort libc list).sorted = true := by
      unfold stringlistSort
      rw [if_pos h.1]
    rw [show stringlistSearched libc list = stringlistSort libc list from if_pos h]
    exact if_neg (by simp [hsorted])
  · rw [show stringlistSearched libc list = list from if_neg h]
    exact if_neg h

end Umsftpd
