import Umsftpd.CLib.CString

/-!
# `qsort` and `bsearch`

The two library functions by their contract. `qsort` promises a permutation that is in order, and
nothing about elements that compare equal; `bsearch` promises an answer only on an array whose
elements below, at and above the key come in this order. `LibC.reference` is one implementation.
-/

namespace Umsftpd.CLib

/-- The array is split by the key as `bsearch` asks: first what the key is greater than, then what
it equals, then what it is less than. -/
def SplitBy {α : Type} (key : α → Ordering) (l : List α) : Prop :=
  l.Pairwise fun a b => (key b = .gt → key a = .gt) ∧ (key a = .lt → key b = .lt)

/-- The sorting and searching half of a C library. -/
structure LibC where
  qsort : {α : Type} → (α → α → Ordering) → List α → List α
  bsearch : {α : Type} → (α → Ordering) → List α → Option α
  qsort_perm : ∀ {α : Type} (cmp : α → α → Ordering) (l : List α), (qsort cmp l).Perm l
  qsort_sorted : ∀ {α : Type} (cmp : α → α → Ordering) [Std.TransCmp cmp] (l : List α),
    (qsort cmp l).Pairwise fun a b => cmp a b ≠ .gt
  bsearch_found : ∀ {α : Type} (key : α → Ordering) (l : List α) (a : α),
    bsearch key l = some a → a ∈ l ∧ key a = .eq
  bsearch_missing : ∀ {α : Type} (key : α → Ordering) (l : List α), SplitBy key l →
    bsearch key l = none → ∀ a ∈ l, key a ≠ .eq

namespace LibC

/-- Insertion sort and a linear search keep the contract. -/
def reference : LibC where
  qsort cmp l := l.insertionSort fun a b => cmp a b ≠ .gt
  bsearch key l := l.find? fun a => key a == .eq
  qsort_perm cmp l := List.perm_insertionSort _ l
  qsort_sorted cmp hcmp l := by
    have htotal : Std.Total fun a b => cmp a b ≠ .gt := ⟨fun a b => by
      rw [@Std.OrientedCmp.eq_swap _ cmp _ b a]
      cases cmp a b <;> simp⟩
    have htrans : IsTrans _ fun a b => cmp a b ≠ .gt := ⟨fun a b c hab hbc => by
      have h := @Std.TransCmp.isLE_trans _ cmp _ a b c
      simp only [Ordering.isLE_iff_ne_gt] at h
      exact h hab hbc⟩
    exact List.pairwise_insertionSort _ l
  bsearch_found key l a h := ⟨List.mem_of_find?_eq_some h, by simpa using List.find?_some h⟩
  bsearch_missing key l _ h := by simpa using h

variable (libc : LibC)

/-- Searching a sorted array finds exactly its members. -/
theorem bsearch_isSome_iff {α : Type} (cmp : α → α → Ordering) [Std.TransCmp cmp]
    [Std.LawfulEqCmp cmp] {l : List α} (hs : l.Pairwise fun a b => cmp a b ≠ .gt) (key : α) :
    (libc.bsearch (cmp key) l).isSome = true ↔ key ∈ l := by
  have hsplit : SplitBy (cmp key) l := by
    refine hs.imp fun {a b} hab => ⟨fun hb => ?_, fun ha => ?_⟩
    · exact Std.TransCmp.gt_of_gt_of_isGE hb (by
        rw [@Std.OrientedCmp.eq_swap _ cmp _ b a]
        cases h : cmp a b <;> simp_all)
    · exact Std.TransCmp.lt_of_lt_of_isLE ha (by simpa [Ordering.isLE_iff_ne_gt] using hab)
  constructor
  · intro h
    obtain ⟨a, ha⟩ := Option.isSome_iff_exists.mp h
    obtain ⟨hmem, heq⟩ := libc.bsearch_found _ _ _ ha
    rwa [Std.LawfulEqCmp.eq_of_compare heq]
  · intro hmem
    cases h : libc.bsearch (cmp key) l with
    | some a => rfl
    | none => exact absurd Std.ReflCmp.compare_self (libc.bsearch_missing _ _ hsplit h key hmem)

end LibC

end Umsftpd.CLib
