import Umsftpd.StringList
import Umsftpd.Systems.Runs

/-!
# String lists over their life

A list is a multiset with a membership test. Insertion adds one string and nothing else, sorting and
searching only permute, and the flag that spares a search the sorting is cleared by the one call
that may disturb the order. So a search answers membership after any calls, in any order.
-/

namespace Umsftpd

open CLib

/-- A call on a string list, with its answer. -/
inductive StringListCall where
  | insert (string : CStr) (ok : Bool)
  | sort
  | contains (string : CStr) (found : Bool)

/-- A call takes a list to what it leaves of it, whatever the allocations of an insertion come
to. -/
inductive StringListStep (libc : LibC) : StringList → List StringListCall → StringList → Prop
  | insert {list next : StringList} {string : CStr} {ok : Bool} {os : Os} {w w' : World}
      (hcall : stringlistInsert (some list) string os w = some ((ok, some next), w')) :
      StringListStep libc list [.insert string ok] next
  | sort (list : StringList) : StringListStep libc list [.sort] (stringlistSort libc list)
  | contains (list : StringList) (string : CStr) :
      StringListStep libc list [.contains string (stringlistContains libc list string).1]
        (stringlistContains libc list string).2

/-- The strings that were inserted successfully, in order. -/
def insertedBy (calls : List StringListCall) : List CStr :=
  calls.filterMap fun call => match call with
    | .insert string true => some string
    | _ => none

@[simp] theorem insertedBy_append (calls more : List StringListCall) :
    insertedBy (calls ++ more) = insertedBy calls ++ insertedBy more := List.filterMap_append

/-! ## One call -/

/-- An insertion returns. It adds the string, or it leaves the list as it is. -/
theorem stringlistInsert_always (list : StringList) (string : CStr) :
    (stringlistInsert (some list) string).Always fun result =>
      result = (true, some (list.push string)) ∨ result = (false, some list) := by
  unfold stringlistInsert
  apply Exec.Always.malloc
  rintro (_ | _)
  · exact .pure (.inr rfl)
  · apply Exec.Always.checked rfl
    apply Exec.Always.malloc
    rintro (_ | _)
    · exact .pure (.inr rfl)
    · exact .pure (.inl rfl)

/-- What a call does: the strings are those of before and what was inserted, and a search answers
membership. -/
theorem StringListStep.cases {libc : LibC} {list next : StringList} {calls : List StringListCall}
    (h : StringListStep libc list calls next) :
    ∃ call, calls = [call] ∧ next.strings.Perm (list.strings ++ insertedBy [call]) ∧
      ∀ string found, call = .contains string found → (found = true ↔ string ∈ list.strings) := by
  cases h with
  | @insert _ string ok _ _ _ hcall =>
    refine ⟨_, rfl, ?_, by simp⟩
    rcases (stringlistInsert_always list string).result hcall with heq | heq
    · obtain ⟨rfl, hnext⟩ := Prod.mk.inj heq
      obtain rfl := Option.some.inj hnext
      exact List.Perm.refl _
    · obtain ⟨rfl, hnext⟩ := Prod.mk.inj heq
      obtain rfl := Option.some.inj hnext
      show next.strings.Perm (next.strings ++ [])
      rw [List.append_nil]
  | sort =>
    refine ⟨_, rfl, ?_, by simp⟩
    show (stringlistSort libc list).strings.Perm (list.strings ++ [])
    rw [List.append_nil]
    exact stringlistSort_perm libc list
  | contains string =>
    refine ⟨_, rfl, ?_, fun string' found heq => ?_⟩
    · show (stringlistContains libc list string).2.strings.Perm (list.strings ++ [])
      rw [List.append_nil, stringlistContains_eq]
      exact stringlistSearched_perm libc list
    · obtain ⟨rfl, rfl⟩ := StringListCall.contains.inj heq
      exact stringlistContains_iff libc list string

/-! ## Runs -/

/-- What holds along a run: the list has the strings that were inserted, and every search so far was
answered by those inserted before it. -/
structure ListHistory (calls : List StringListCall) (list : StringList) : Prop where
  strings : list.strings.Perm (insertedBy calls)
  answers : ∀ before string found after, calls = before ++ .contains string found :: after →
    (found = true ↔ string ∈ insertedBy before)

theorem ListHistory.step {libc : LibC} {calls more : List StringListCall}
    {list next : StringList} (h : ListHistory calls list)
    (hstep : StringListStep libc list more next) : ListHistory (calls ++ more) next := by
  obtain ⟨call, rfl, hperm, hanswer⟩ := hstep.cases
  constructor
  · rw [insertedBy_append]
    exact hperm.trans (h.strings.append_right _)
  · intro before string found after heq
    rcases List.eq_nil_or_concat' after with rfl | ⟨after, last, rfl⟩
    · obtain ⟨rfl, hlast⟩ := List.append_inj' heq rfl
      rw [hanswer string found (List.head_eq_of_cons_eq hlast), h.strings.mem_iff]
    · rw [← List.cons_append, ← List.append_assoc] at heq
      exact h.answers before string found after (List.append_inj' heq rfl).1

/-- **Multiset.** After any calls on a new list the strings are in order if the flag says so, they
are those inserted successfully, as often as they were, and a search finds just these. -/
theorem stringList_multiset (libc : LibC) {os : Os} {w w' : World} {new list : StringList}
    {calls : List StringListCall} (hnew : stringlistNew os w = some (some new, w'))
    (hrun : Systems.Run (StringListStep libc) new calls list) :
    (list.sorted = true → list.strings.Pairwise fun a b => strcmp a b ≠ .gt) ∧
      (list.strings : Multiset CStr) = insertedBy calls ∧
      (∀ string, (stringlistContains libc list string).1 = true ↔ string ∈ insertedBy calls) ∧
      ∀ before string found after, calls = before ++ .contains string found :: after →
        (found = true ↔ string ∈ insertedBy before) := by
  have hempty : new = StringList.empty := by
    unfold stringlistNew at hnew
    rw [Exec.bind_apply, Exec.malloc_run, Option.bind_some] at hnew
    cases hmalloc : w.outcome 0 with
    | false => simp [hmalloc] at hnew
    | true =>
      simp only [hmalloc, Bool.not_true, Bool.false_eq_true, if_false, Exec.pure_apply] at hnew
      exact (Option.some.inj (Prod.mk.inj (Option.some.inj hnew)).1).symm
  have hstart : ListHistory [] new := by
    subst hempty
    exact ⟨List.Perm.refl _, by simp⟩
  have hhistory := hrun.preserves hstart fun _ _ _ _ h hstep => h.step hstep
  rw [List.nil_append] at hhistory
  refine ⟨list.strings_sorted, Quotient.sound hhistory.strings, fun string => ?_,
    hhistory.answers⟩
  rw [stringlistContains_iff, hhistory.strings.mem_iff]

/-- A string, a search, and a second string for which there is no memory. -/
theorem stringList_multiset_foo :
    ∃ found list, Systems.Run (StringListStep LibC.reference) StringList.empty
      [.insert "foo".toList true, .contains "bar".toList found, .insert "bar".toList false] list ∧
      found = false ∧ (stringlistContains LibC.reference list "foo".toList).1 = true ∧
      ¬(stringlistContains LibC.reference list "bar".toList).1 = true := by
  have hfoo : StringListStep LibC.reference StringList.empty [.insert "foo".toList true]
      (StringList.empty.push "foo".toList) :=
    .insert (stringlistInsert_apply StringList.empty "foo".toList Os.empty [])
  have hbar : ∀ list, StringListStep LibC.reference list [.insert "bar".toList false] list :=
    fun list => .insert (show stringlistInsert (some list) "bar".toList Os.empty ⟨[false], []⟩ =
      some ((false, some list), {}) from rfl)
  have hrun := ((Systems.Run.start.step hfoo).step (.contains _ "bar".toList)).step (hbar _)
  obtain ⟨-, -, hcontains, hanswers⟩ := stringList_multiset LibC.reference
    (stringlistNew_apply Os.empty []) hrun
  have hfound := hanswers [.insert "foo".toList true] "bar".toList _ _ rfl
  refine ⟨_, _, hrun, ?_, (hcontains _).mpr ?_, fun h => ?_⟩
  · rw [← Bool.not_eq_true, hfound]
    decide
  · decide
  · exact absurd ((hcontains _).mp h) (by decide)

end Umsftpd
