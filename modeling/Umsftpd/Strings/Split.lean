import Umsftpd.Paths.Names
import Umsftpd.Strings

/-!
# What the path functions compute

`pathSplitMutable` plants a terminator, calls back and takes the terminator out again, so the
buffer a callback leaves behind is the one it was given, and a run is determined by the list of its
calls: `splitCalls` is that list, `runCalls` a run along it. For a canonical path the calls are the
paths of its ancestors.

The other functions here compare, cut and test strings; each gets the one equation the rest of the
development uses.
-/

namespace Umsftpd

open CLib Paths

/-! ## The calls of `path_split` -/

/-- The part of a path before a slash; before the first slash it is the slash itself. -/
def cutAt (done : CStr) : CStr := if done = [] then ['/'] else done

/-- The arguments of the callback when `done` has been read and `rest` is to come. -/
def splitCallsFrom : CStr → CStr → List (CStr × Bool)
  | _, [] => []
  | done, c :: rest =>
    let part := if c = '/' then cutAt done else done ++ [c]
    if rest = [] then [(part, true)]
    else if c = '/' then (part, false) :: splitCallsFrom (done ++ [c]) rest
    else splitCallsFrom (done ++ [c]) rest

def splitCalls (path : CStr) : List (CStr × Bool) := splitCallsFrom [] path

section Run

variable {m : Type → Type} [Monad m] {σ : Type}

/-- Make the calls one after the other until the callback stops them. -/
def runCalls (callback : PathSplitCallback m σ) : List (CStr × Bool) → σ → m σ
  | [], vctx => pure vctx
  | (part, isFullPath) :: calls, vctx => do
    let (doContinue, vctx) ← callback part isFullPath vctx
    if doContinue then runCalls callback calls vctx else pure vctx

variable [LawfulMonad m] (callback : PathSplitCallback m σ)

/-- A terminator planted over a slash and taken out again. -/
theorem set_restore {b : Buffer} {i : Nat} {c : Option Char} (h : b.getD i none = c)
    (hi : i < b.length) : (b.set i none).set i c = b := by
  rw [List.set_set, ← h, List.getD_eq_getElem _ _ hi, List.set_getElem_self]

omit [LawfulMonad m] in
theorem pathSplitStep_slash (done rest : CStr) (vctx : σ) :
    pathSplitStep callback (done ++ '/' :: rest).length done.length
        (toBuffer (done ++ '/' :: rest)) vctx =
      (do let r ← callback (cutAt done) (rest == []) vctx
          pure (r.1, toBuffer (done ++ '/' :: rest), r.2)) := by
  have hfull : (done.length == (done ++ '/' :: rest).length - 1) = (rest == []) := by
    cases rest <;> simp
  have hread : (toBuffer (done ++ '/' :: rest)).getD done.length none = some '/' :=
    getD_toBuffer_append done '/' rest
  unfold pathSplitStep
  simp only [hfull, hread, if_true]
  by_cases hd : done = []
  · subst hd
    have hlen : 1 < (toBuffer ('/' :: rest)).length := by simp
    have hcut : cstr ((toBuffer ('/' :: rest)).set 1 none) = ['/'] := by
      rw [cstr_set_toBuffer (by simp)]
      rfl
    simp only [List.nil_append, List.length_nil, if_true, hcut, set_restore rfl hlen, cutAt]
  · have hd' : done.length ≠ 0 := by simpa using hd
    have hlen : done.length < (toBuffer (done ++ '/' :: rest)).length := by simp
    have hcut : cstr ((toBuffer (done ++ '/' :: rest)).set done.length none) = done := by
      rw [cstr_set_toBuffer (by simp)]
      simp
    simp only [hd', if_false, hcut, set_restore hread hlen, cutAt, hd]

theorem pathSplitStep_other {c : Char} (hc : c ≠ '/') (done rest : CStr) (vctx : σ) :
    pathSplitStep callback (done ++ c :: rest).length done.length
        (toBuffer (done ++ c :: rest)) vctx =
      if rest = [] then
        (do let r ← callback (done ++ [c]) true vctx
            pure (true, toBuffer (done ++ c :: rest), r.2))
      else pure (true, toBuffer (done ++ c :: rest), vctx) := by
  have hfull : (done.length == (done ++ c :: rest).length - 1) = decide (rest = []) := by
    cases rest <;> simp
  have hread : (toBuffer (done ++ c :: rest)).getD done.length none = some c :=
    getD_toBuffer_append done c rest
  unfold pathSplitStep
  simp only [hfull, hread, Option.some.injEq, hc, if_false]
  by_cases hr : rest = []
  · subst hr
    simp
  · simp [hr]

/-- The loop from `done` on: the buffer stays as it was and the calls are those of
`splitCallsFrom`. By induction on what is left to read. -/
theorem pathSplitLoop_eq (done rest : CStr) (vctx : σ) :
    pathSplitLoop callback (done ++ rest).length rest.length done.length
        (toBuffer (done ++ rest)) vctx =
      (fun v => (toBuffer (done ++ rest), v)) <$> runCalls callback (splitCallsFrom done rest) vctx
    := by
  induction rest generalizing done vctx with
  | nil => simp [pathSplitLoop, splitCallsFrom, runCalls]
  | cons c rest ih =>
    have ih' : ∀ v, pathSplitLoop callback (done ++ c :: rest).length rest.length (done.length + 1)
        (toBuffer (done ++ c :: rest)) v =
        (fun v => (toBuffer (done ++ c :: rest), v)) <$>
          runCalls callback (splitCallsFrom (done ++ [c]) rest) v := by
      intro v
      have h := ih (done ++ [c]) v
      simpa only [List.append_assoc, List.singleton_append, List.length_append, List.length_cons,
        List.length_nil, Nat.zero_add] using h
    rw [List.length_cons, pathSplitLoop]
    by_cases hc : c = '/'
    · subst hc
      rw [pathSplitStep_slash]
      by_cases hr : rest = []
      · subst hr
        simp only [splitCallsFrom, runCalls, if_true, beq_self_eq_true, bind_assoc, pure_bind,
          List.length_nil, pathSplitLoop, map_bind]
        congr 1
        funext r
        split <;> simp
      · have hr' : (rest == []) = false := by simpa using hr
        simp only [splitCallsFrom, hr, hr', if_true, if_false, runCalls, bind_assoc, pure_bind,
          ih', map_bind]
        congr 1
        funext r
        split <;> simp
    · rw [pathSplitStep_other callback hc]
      by_cases hr : rest = []
      · subst hr
        simp only [splitCallsFrom, hc, if_true, if_false, runCalls, bind_assoc, pure_bind,
          List.length_nil, pathSplitLoop, map_bind]
        congr 1
        funext r
        split <;> simp
      · simp only [splitCallsFrom, hc, hr, if_false, pure_bind, if_true, ih']

theorem pathSplitMutable_eq (path : CStr) (vctx : σ) :
    pathSplitMutable (toBuffer path) callback vctx =
      (fun v => (toBuffer path, v)) <$> runCalls callback (splitCalls path) vctx := by
  unfold pathSplitMutable
  rw [cstr_toBuffer]
  exact pathSplitLoop_eq callback [] path vctx

/-- A split is its calls. -/
theorem pathSplit_eq (path : CStr) (vctx : σ) :
    pathSplit path callback vctx = runCalls callback (splitCalls path) vctx := by
  unfold pathSplit
  rw [pathSplitMutable_eq]
  simp

end Run

/-! ## The calls for a path -/

/-- The parts before the slashes of `rest`, when `done` has been read. -/
def innerParts : CStr → CStr → List CStr
  | _, [] => []
  | done, c :: rest =>
    if c = '/' then cutAt done :: innerParts (done ++ [c]) rest else innerParts (done ++ [c]) rest

/-- Only the last call has the full path. -/
theorem splitCallsFrom_append (done a : CStr) {b : CStr} (hb : b ≠ []) :
    splitCallsFrom done (a ++ b) =
      (innerParts done a).map (fun part => (part, false)) ++ splitCallsFrom (done ++ a) b := by
  induction a generalizing done with
  | nil => simp [innerParts]
  | cons c a ih =>
    have hne : a ++ b ≠ [] := by simp [hb]
    have ih' := ih (done ++ [c])
    rw [List.append_assoc, List.singleton_append] at ih'
    simp only [List.cons_append, splitCallsFrom, hne, if_false, innerParts, ih']
    split <;> simp

theorem innerParts_of_no_slash (done : CStr) {a : CStr} (ha : '/' ∉ a) :
    innerParts done a = [] := by
  induction a generalizing done with
  | nil => rfl
  | cons c a ih =>
    have hc : c ≠ '/' := fun h => ha (by simp [h])
    simp only [innerParts, hc, if_false]
    exact ih (done ++ [c]) fun h => ha (List.mem_cons_of_mem _ h)

theorem splitCallsFrom_of_no_slash (done : CStr) {a : CStr} (hne : a ≠ []) (ha : '/' ∉ a) :
    splitCallsFrom done a = [(done ++ a, true)] := by
  obtain ⟨b, c, rfl⟩ := (List.eq_nil_or_concat' a).resolve_left hne
  have hc : c ≠ '/' := fun h => ha (by simp [h])
  rw [splitCallsFrom_append done b (by simp), innerParts_of_no_slash done (by simp_all)]
  simp [splitCallsFrom, hc]

/-- What is read before a name is the path of the names before it. -/
theorem cutAt_pathOf (cs : List Name) : cutAt (pathOf cs) = absPath cs := by
  simp [cutAt, absPath, pathOf_eq_nil_iff]

/-- The calls below `pre`: one for each leading part of the names that follow, the last of them with
the full path. A slash at the end of the path makes no difference. -/
theorem splitCallsFrom_pathOf (pre cs : List Name) {tail : CStr} (ht : tail = [] ∨ tail = ['/'])
    (hne : cs ≠ [] ∨ tail = ['/']) :
    splitCallsFrom (pathOf pre) (pathOf cs ++ tail) =
      cs.inits.map fun ds => (absPath (pre ++ ds), decide (ds.length = cs.length)) := by
  induction cs generalizing pre with
  | nil =>
    obtain rfl : tail = ['/'] := hne.resolve_left (by simp)
    simp [splitCallsFrom, cutAt_pathOf]
  | cons n cs ih =>
    have hstep : splitCallsFrom (pathOf pre) (pathOf (n :: cs) ++ tail) =
        (absPath pre, false) :: splitCallsFrom (pathOf pre ++ ['/']) (n.val ++ (pathOf cs ++ tail))
        := by
      simp [splitCallsFrom, cutAt_pathOf, n.ne_nil]
    have hdone : pathOf pre ++ ['/'] ++ n.val = pathOf (pre ++ [n]) := by simp
    have hrest : splitCallsFrom (pathOf pre ++ ['/']) (n.val ++ (pathOf cs ++ tail)) =
        cs.inits.map fun ds =>
          (absPath (pre ++ [n] ++ ds), decide (ds.length = cs.length)) := by
      by_cases hr : pathOf cs ++ tail = []
      · obtain ⟨hcs, rfl⟩ := List.append_eq_nil_iff.mp hr
        obtain rfl := pathOf_eq_nil_iff.mp hcs
        rw [hr, List.append_nil, splitCallsFrom_of_no_slash _ n.ne_nil n.no_slash, hdone]
        simp [absPath]
      · rw [splitCallsFrom_append _ _ hr, innerParts_of_no_slash _ n.no_slash, hdone]
        have hne' : cs ≠ [] ∨ tail = ['/'] := by
          rcases ht with rfl | rfl
          · left
            rintro rfl
            simp at hr
          · right; rfl
        simpa using ih (pre ++ [n]) hne'
    rw [hstep, hrest, List.inits_cons, List.map_cons, List.map_map]
    congr 1
    · simp
    · apply List.map_congr_left
      intro ds _
      simp

/-- `path_split` on a canonical path visits its ancestors, from the root down. -/
theorem splitCalls_canonical {path : CStr} {cs : List Name} (h : Canonical path cs) :
    splitCalls path =
      cs.inits.map fun ds => (absPath ds, decide (ds.length = cs.length)) := by
  unfold splitCalls
  by_cases hcs : cs = []
  · subst hcs
    have hpath : path = pathOf [] ++ ['/'] := by rcases h with rfl | rfl <;> rfl
    rw [hpath]
    exact splitCallsFrom_pathOf [] [] (Or.inr rfl) (Or.inr rfl)
  · rcases h with rfl | rfl
    · rw [absPath_of_ne_nil hcs]
      simpa using splitCallsFrom_pathOf [] cs (Or.inl rfl) (Or.inl hcs)
    · exact splitCallsFrom_pathOf [] cs (Or.inr rfl) (Or.inl hcs)

/-! ## Comparing and cutting -/

/-- A path without the one slash at its end, if there is one. -/
def cutSlash (path : CStr) : CStr := if path.getLast? = some '/' then path.dropLast else path

/-- The length `pathcmp` compares. -/
def cutLen (path : CStr) : Nat :=
  if path.length ≠ 0 ∧ path[path.length - 1]? = some '/' then path.length - 1 else path.length

theorem cutLen_le (path : CStr) : cutLen path ≤ path.length := by
  unfold cutLen
  split <;> omega

theorem cutSlash_eq_take (path : CStr) : cutSlash path = path.take (cutLen path) := by
  unfold cutSlash cutLen
  rw [List.getLast?_eq_getElem?]
  by_cases h : path[path.length - 1]? = some '/'
  · have hlen : path.length ≠ 0 := by
      intro h0
      rw [List.length_eq_zero_iff.mp h0] at h
      simp at h
    rw [if_pos h, if_pos ⟨hlen, h⟩, List.dropLast_eq_take]
  · rw [if_neg h, if_neg (fun hc => h hc.2), List.take_length]

/-- `pathcmp` compares up to one slash at the end of either path. -/
theorem pathcmp_iff {path1 path2 : CStr} :
    pathcmp path1 path2 = true ↔ cutSlash path1 = cutSlash path2 := by
  have hdef : pathcmp path1 path2 =
      if cutLen path1 ≠ cutLen path2 then false
      else path1.take (cutLen path1) == path2.take (cutLen path1) := rfl
  rw [hdef, cutSlash_eq_take, cutSlash_eq_take]
  by_cases hlen : cutLen path1 = cutLen path2
  · simp [hlen]
  · simp only [ne_eq, hlen, not_false_eq_true, if_true, Bool.false_eq_true, false_iff]
    intro h
    have hl := congrArg List.length h
    rw [List.length_take_of_le (cutLen_le path1), List.length_take_of_le (cutLen_le path2)] at hl
    exact hlen hl

theorem cutSlash_of_truncated {path : CStr} (h : Truncated path) : cutSlash path = path := if_neg h

/-- A stored path is found under its own name and under its name with a slash. -/
theorem pathcmp_truncated {path1 path2 : CStr} (h : Truncated path1) :
    pathcmp path1 path2 = true ↔ path1 = cutSlash path2 := by
  rw [pathcmp_iff, cutSlash_of_truncated h]

theorem cutSlash_append_slash (path : CStr) : cutSlash (path ++ ['/']) = path := by
  simp [cutSlash]

theorem pathOf_truncated (cs : List Name) : Truncated (pathOf cs) := pathOf_getLast? cs

theorem cutSlash_canonical {path : CStr} {cs : List Name} (h : Canonical path cs) :
    cutSlash path = pathOf cs := by
  rcases h with rfl | rfl
  · by_cases hcs : cs = []
    · subst hcs
      rfl
    · rw [absPath_of_ne_nil hcs, cutSlash_of_truncated (pathOf_truncated cs)]
  · exact cutSlash_append_slash _

@[simp] theorem cutSlash_absPath (cs : List Name) : cutSlash (absPath cs) = pathOf cs :=
  cutSlash_canonical (canonical_absPath cs)

theorem truncateTrailingSlashLoop_le (path : CStr) (len : Nat) :
    truncateTrailingSlashLoop path len ≤ len := by
  induction len with
  | zero => exact Nat.le_refl 0
  | succ len ih =>
    unfold truncateTrailingSlashLoop
    split
    · exact Nat.le_succ_of_le ih
    · exact Nat.le_refl _

theorem truncateTrailingSlashLoop_last {path : CStr} {len n : Nat}
    (h : truncateTrailingSlashLoop path len = n + 1) : path[n]? ≠ some '/' := by
  induction len with
  | zero => simp [truncateTrailingSlashLoop] at h
  | succ len ih =>
    unfold truncateTrailingSlashLoop at h
    split at h
    · exact ih h
    · next hc =>
      obtain rfl : len = n := by simpa using h
      exact hc

theorem truncateTrailingSlash_truncated (path : CStr) : Truncated (truncateTrailingSlash path) := by
  unfold Truncated truncateTrailingSlash
  have hle := truncateTrailingSlashLoop_le path path.length
  cases hn : truncateTrailingSlashLoop path path.length with
  | zero => simp
  | succ n =>
    rw [hn] at hle
    rw [List.getLast?_take, if_neg (Nat.succ_ne_zero n)]
    have hlast := truncateTrailingSlashLoop_last hn
    rw [Nat.add_sub_cancel, List.getElem?_eq_getElem (by omega)] at *
    simpa using hlast

theorem truncateTrailingSlash_of_truncated {path : CStr} (h : Truncated path) :
    truncateTrailingSlash path = path := by
  unfold truncateTrailingSlash
  cases hlen : path.length with
  | zero => simp [List.length_eq_zero_iff.mp hlen]
  | succ n =>
    unfold Truncated at h
    rw [List.getLast?_eq_getElem?, hlen, Nat.add_sub_cancel] at h
    rw [truncateTrailingSlashLoop, if_neg h, ← hlen, List.take_length]

theorem truncateTrailingSlash_append_slash (path : CStr) :
    truncateTrailingSlash (path ++ ['/']) = truncateTrailingSlash path := by
  have hagree : ∀ len ≤ path.length,
      truncateTrailingSlashLoop (path ++ ['/']) len = truncateTrailingSlashLoop path len := by
    intro len hlen
    induction len with
    | zero => rfl
    | succ len ih =>
      rw [truncateTrailingSlashLoop, truncateTrailingSlashLoop,
        List.getElem?_append_left (by omega), ih (by omega)]
  unfold truncateTrailingSlash
  rw [List.length_append, List.length_singleton, truncateTrailingSlashLoop, if_pos (by simp),
    hagree _ (Nat.le_refl _),
    List.take_append_of_le_length (truncateTrailingSlashLoop_le path path.length)]

theorem truncateTrailingSlash_canonical {path : CStr} {cs : List Name} (h : Canonical path cs) :
    truncateTrailingSlash path = pathOf cs := by
  rcases h with rfl | rfl
  · by_cases hcs : cs = []
    · subst hcs
      rfl
    · rw [absPath_of_ne_nil hcs, truncateTrailingSlash_of_truncated (pathOf_truncated cs)]
  · rw [truncateTrailingSlash_append_slash,
      truncateTrailingSlash_of_truncated (pathOf_truncated cs)]

@[simp] theorem constBasename_pathOf (cs : List Name) (n : Name) :
    constBasename (pathOf (cs ++ [n])) = some n.val := by
  unfold constBasename
  rw [pathOf_append, pathOf_cons, pathOf_nil, List.append_nil]
  exact afterLast_append _ n.no_slash

theorem Paths.Canonical.isAbsolutePath {path : CStr} {cs : List Name} (h : Canonical path cs) :
    isAbsolutePath path = true := by
  rcases h with rfl | rfl <;> cases cs <;> simp [Umsftpd.isAbsolutePath]

/-- The path of a working directory is that of the root or absolute. -/
theorem isAbsolutePath_pathOf (cs : List Name) :
    pathOf cs = [] ∨ isAbsolutePath (pathOf cs) = true := by
  cases cs with
  | nil => exact Or.inl rfl
  | cons n cs => exact Or.inr rfl

end Umsftpd
