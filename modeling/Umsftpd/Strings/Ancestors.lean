import Umsftpd.Strings.Split

/-!
# Enumerating the ancestors of a path

A run of `path_split_mutable` is seen by a callback that notes its calls and answers each of them by
what it has noted so far. Whenever it stops, the buffer is as it was, and what it noted is a first
part of `splitCalls`, in which only the last call has the full path.
-/

namespace Umsftpd

open CLib Paths

/-- Whether to go on, by the calls so far and the arguments of this one. -/
abbrev PathSplitAnswer := List (CStr × Bool) → CStr → Bool → Bool

/-- The callback that answers so and notes its calls. -/
def notingCallback (answer : PathSplitAnswer) : PathSplitCallback Id (List (CStr × Bool)) :=
  fun part isFullPath calls => (answer calls part isFullPath, calls ++ [(part, isFullPath)])

/-- None of these calls was answered by a stop, but for one with the full path. -/
def NeverStops (answer : PathSplitAnswer) (calls : List (CStr × Bool)) : Prop :=
  ∀ before part after, calls = before ++ (part, false) :: after → answer before part false = true

/-! ## What is noted -/

/-- The calls that are made are the first ones, and if there are more the last of them was answered
by a stop. By induction on the calls to come. -/
theorem runCalls_noting (answer : PathSplitAnswer) (calls noted : List (CStr × Bool)) :
    ∃ made rest, calls = made ++ rest ∧
      runCalls (m := Id) (notingCallback answer) calls noted = noted ++ made ∧
      (rest ≠ [] → ∃ before part isFullPath, made = before ++ [(part, isFullPath)] ∧
        answer (noted ++ before) part isFullPath = false) := by
  induction calls generalizing noted with
  | nil => exact ⟨[], [], rfl, (List.append_nil noted).symm, fun h => absurd rfl h⟩
  | cons call calls ih =>
    obtain ⟨part, isFullPath⟩ := call
    cases hanswer : answer noted part isFullPath with
    | false =>
      refine ⟨[(part, isFullPath)], calls, rfl, ?_, fun _ => ⟨[], part, isFullPath, rfl, ?_⟩⟩
      · show (if answer noted part isFullPath then _ else _ : Id _) = _
        rw [hanswer]
        rfl
      · rwa [List.append_nil]
    | true =>
      obtain ⟨made, rest, rfl, hrun, hstop⟩ := ih (noted ++ [(part, isFullPath)])
      refine ⟨(part, isFullPath) :: made, rest, rfl, ?_, fun hrest => ?_⟩
      · show (if answer noted part isFullPath then _ else _ : Id _) = _
        rw [hanswer, if_pos rfl]
        exact hrun.trans (List.append_assoc _ _ _)
      · obtain ⟨before, part', isFullPath', rfl, hanswer'⟩ := hstop hrest
        rw [List.append_assoc] at hanswer'
        exact ⟨(part, isFullPath) :: before, part', isFullPath', rfl, hanswer'⟩

/-- Of the calls only the last has the full path. -/
theorem splitCalls_eq {path : CStr} (hpath : path ≠ []) :
    ∃ (parts : List CStr) (part : CStr),
      splitCalls path = parts.map (fun p => (p, false)) ++ [(part, true)] := by
  obtain ⟨start, c, rfl⟩ := (List.eq_nil_or_concat' path).resolve_left hpath
  have happend := splitCallsFrom_append [] start (List.cons_ne_nil c [])
  rw [splitCallsFrom, if_pos rfl] at happend
  exact ⟨_, _, happend⟩

/-- A call with the full path is the last. -/
theorem splitCalls_full {path : CStr} (hpath : path ≠ []) {before after : List (CStr × Bool)}
    {part : CStr} (h : splitCalls path = before ++ (part, true) :: after) : after = [] := by
  obtain ⟨parts, last, hsplit⟩ := splitCalls_eq hpath
  rcases List.eq_nil_or_concat' after with rfl | ⟨after, call, rfl⟩
  · rfl
  · rw [hsplit, ← List.cons_append, ← List.append_assoc] at h
    have hmem : (part, true) ∈ parts.map fun p => (p, false) := by
      rw [(List.append_inj' h rfl).1]
      simp
    simp at hmem

/-- There is one call with the full path. -/
theorem countP_splitCalls {path : CStr} (hpath : path ≠ []) :
    (splitCalls path).countP (·.2) = 1 := by
  obtain ⟨parts, last, hsplit⟩ := splitCalls_eq hpath
  rw [hsplit, List.countP_append, List.countP_map]
  simp

/-! ## The enumeration -/

/-- **Enumeration.** Whatever the callback answers, the buffer is as it was; a call with the full
path is the last, and there is one unless the callback stops before; and for a canonical path the
calls are those of its ancestors from the root down, until the callback stops. -/
theorem pathSplitMutable_enumerates {path : CStr} (hpath : path ≠ []) (answer : PathSplitAnswer) :
    ∃ calls : List (CStr × Bool),
      pathSplitMutable (m := Id) (toBuffer path) (notingCallback answer) [] =
        (toBuffer path, calls) ∧
      (∀ before part after, calls = before ++ (part, true) :: after → after = []) ∧
      (NeverStops answer calls → calls.countP (·.2) = 1) ∧
      ∀ cs, Canonical path cs → calls.map Prod.fst <+: cs.inits.map absPath ∧
        (NeverStops answer calls → calls.map Prod.fst = cs.inits.map absPath) := by
  obtain ⟨calls, rest, hsplit, hrun, hstop⟩ := runCalls_noting answer (splitCalls path) []
  -- a callback that stops early was answered by a stop before the full path
  have hall : NeverStops answer calls → rest = [] := by
    intro hnever
    by_contra hrest
    obtain ⟨before, part, isFullPath, rfl, hanswer⟩ := hstop hrest
    cases isFullPath with
    | false => exact Bool.false_ne_true (hanswer.symm.trans (hnever before part [] rfl))
    | true =>
      rw [List.append_assoc] at hsplit
      exact hrest (splitCalls_full hpath hsplit)
  refine ⟨calls, ?_, fun before part after heq => ?_, fun hnever => ?_, fun cs hcs => ?_⟩
  · rw [pathSplitMutable_eq, hrun]
    rfl
  · rw [heq, List.append_assoc, List.cons_append] at hsplit
    exact (List.append_eq_nil_iff.mp (splitCalls_full hpath hsplit)).1
  · rw [hall hnever, List.append_nil] at hsplit
    rw [← hsplit]
    exact countP_splitCalls hpath
  · have hparts : (calls ++ rest).map Prod.fst = cs.inits.map absPath := by
      rw [← hsplit, splitCalls_canonical hcs, List.map_map]
      rfl
    rw [List.map_append] at hparts
    refine ⟨⟨_, hparts⟩, fun hnever => ?_⟩
    rwa [hall hnever, List.map_nil, List.append_nil] at hparts

/-- The ancestors of a path with two names. -/
theorem pathSplitMutable_enumerates_foo_bar :
    ∃ calls : List (CStr × Bool),
      pathSplitMutable (m := Id) (toBuffer "/foo/bar/".toList)
        (notingCallback fun _ _ _ => true) [] = (toBuffer "/foo/bar/".toList, calls) ∧
      calls.map Prod.fst = ["/".toList, "/foo".toList, "/foo/bar".toList] := by
  have hnames : ValidName "foo".toList ∧ ValidName "bar".toList := by decide
  obtain ⟨calls, hrun, -, -, hcanonical⟩ := pathSplitMutable_enumerates
    (show "/foo/bar/".toList ≠ [] by decide) fun _ _ _ => true
  have hcs : Canonical "/foo/bar/".toList [⟨_, hnames.1⟩, ⟨_, hnames.2⟩] := .inr rfl
  exact ⟨calls, hrun, (hcanonical _ hcs).2 fun _ _ _ _ => rfl⟩

end Umsftpd
