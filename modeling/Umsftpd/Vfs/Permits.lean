import Umsftpd.Vfs.OpenNode

/-!
# What the policy permits

Which paths pass the tests of `vfs_open_node`, in terms of the flags that are in effect, the names
of the path and what the system says about the parts of the real path.
-/

namespace Umsftpd

open CLib Paths

/-! ## Hidden names -/

/-- A component that starts with a dot. -/
def Paths.Name.isHidden (n : Name) : Bool := n.val.head? == some '.'

/-- Within a component nothing is hidden. -/
theorem pathContainsHiddenLoop_append {a : CStr} (ha : '/' ∉ a) (rest : CStr) :
    pathContainsHiddenLoop false (a ++ rest) = pathContainsHiddenLoop false rest := by
  induction a with
  | nil => rfl
  | cons c a ih =>
    have hc : c ≠ '/' := fun h => ha (by simp [h])
    rw [List.cons_append, pathContainsHiddenLoop, if_neg hc, if_neg (by simp)]
    exact ih fun h => ha (List.mem_cons_of_mem _ h)

theorem pathContainsHiddenLoop_pathOf (seenSlash : Bool) (cs : List Name) :
    pathContainsHiddenLoop seenSlash (pathOf cs) = cs.any Name.isHidden := by
  induction cs generalizing seenSlash with
  | nil => cases seenSlash <;> rfl
  | cons n cs ih =>
    obtain ⟨c, a, hca⟩ := List.exists_cons_of_ne_nil n.ne_nil
    have hslash := n.no_slash
    rw [hca] at hslash
    have hc : c ≠ '/' := fun h => hslash (by simp [h])
    have ha : '/' ∉ a := fun h => hslash (List.mem_cons_of_mem _ h)
    rw [pathOf_cons, pathContainsHiddenLoop, if_pos rfl, hca, List.cons_append,
      pathContainsHiddenLoop, if_neg hc, List.any_cons, Name.isHidden, hca, List.head?_cons]
    by_cases hdot : c = '.'
    · simp [hdot]
    · rw [if_neg (by simp [hdot]), pathContainsHiddenLoop_append ha, ih]
      simp [hdot]

/-- A sanitised path is hidden when one of its names is. -/
theorem pathContainsHidden_absPath (cs : List Name) :
    pathContainsHidden (absPath cs) = cs.any Name.isHidden := by
  unfold pathContainsHidden
  by_cases h : cs = []
  · subst h
    rfl
  · rw [absPath_of_ne_nil h, pathContainsHiddenLoop_pathOf]

/-! ## The policy -/

/-- The three tests that refuse a path: everything is filtered, a hidden name is, or the real path
is not free of symlinks. -/
structure Vfs.Permits (vfs : Vfs) (os : Os) (cs : List Name) : Prop where
  notFiltered : hasFlag (vfs.flagsAt cs) vfsInodeFlagFilterAll = false
  notHidden : hasFlag (vfs.flagsAt cs) vfsInodeFlagFilterHidden = false ∨
    cs.any Name.isHidden = false
  noSymlinks : ∀ mountpoint, vfs.mountAt cs = some mountpoint →
    hasFlag (vfs.flagsAt cs) vfsInodeFlagAllowSymlinks = false →
    ScanClean os (vfs.realPathAt mountpoint cs)

/-- The policy refuses a path exactly when one of the tests fails; what is neither an inode nor
mounted is not there, whatever the policy says about symlinks. -/
theorem openExit_refused (vfs : Vfs) (os : Os) (cs : List Name) :
    (vfs.openExit os cs).refusedByPolicy = false ↔ vfs.Permits os cs := by
  have hhidden := pathContainsHidden_absPath cs
  unfold Vfs.openExit
  rw [hhidden]
  cases hall : hasFlag (vfs.flagsAt cs) vfsInodeFlagFilterAll with
  | true =>
    simp only [if_true]
    apply iff_of_false (by simp [OpenNodeExit.refusedByPolicy])
    intro h
    simpa [hall] using h.notFiltered
  | false =>
    simp only [Bool.false_eq_true, if_false]
    cases hhid : hasFlag (vfs.flagsAt cs) vfsInodeFlagFilterHidden && cs.any Name.isHidden with
    | true =>
      simp only [if_true]
      obtain ⟨hflag, hany⟩ := (Bool.and_eq_true _ _).mp hhid
      apply iff_of_false (by simp [OpenNodeExit.refusedByPolicy])
      intro h
      rcases h.notHidden with h | h
      · simp [hflag] at h
      · simp [hany] at h
    | false =>
      have hnot : hasFlag (vfs.flagsAt cs) vfsInodeFlagFilterHidden = false ∨
          cs.any Name.isHidden = false := Bool.and_eq_false_iff.mp hhid
      simp only [Bool.false_eq_true, if_false]
      rcases Option.eq_none_or_eq_some (vfs.mountAt cs) with hmount | ⟨mp, hmount⟩
      · simp only [hmount]
        refine iff_of_true (by split <;> rfl) ⟨hall, hnot, by simp [hmount]⟩
      · simp only [hmount]
        cases hallow : hasFlag (vfs.flagsAt cs) vfsInodeFlagAllowSymlinks with
        | true =>
          simp only [if_true]
          exact iff_of_true rfl ⟨hall, hnot, by simp [hallow]⟩
        | false =>
          simp only [Bool.false_eq_true, if_false]
          have hclean := scanParts_clean os (splitParts (vfs.realPathAt mp cs))
          have hpermits : vfs.Permits os cs ↔ ScanClean os (vfs.realPathAt mp cs) := by
            refine ⟨fun h => h.noSymlinks mp hmount hallow, fun h => ⟨hall, hnot, ?_⟩⟩
            intro mp' hmp' _
            obtain rfl : mp = mp' := Option.some.inj (hmount.symm.trans hmp')
            exact h
          rw [hpermits, ScanClean, ← hclean]
          generalize scanParts os (splitParts (vfs.realPathAt mp cs)) = symlink
          cases symlink.criticalError <;> cases symlink.containsSymlink <;>
            simp [OpenNodeExit.refusedByPolicy]

/-- A path opens when the policy permits it and there is an inode or a mountpoint for it. -/
theorem openExit_ok (vfs : Vfs) (os : Os) (cs : List Name) :
    (vfs.openExit os cs).code = .ok ↔
      vfs.Permits os cs ∧ (vfs.nodeAt cs ≠ none ∨ vfs.mountAt cs ≠ none) := by
  rw [← openExit_refused]
  unfold Vfs.openExit
  cases hall : hasFlag (vfs.flagsAt cs) vfsInodeFlagFilterAll with
  | true => simp [OpenNodeExit.code, OpenNodeExit.refusedByPolicy]
  | false =>
    cases hhid : hasFlag (vfs.flagsAt cs) vfsInodeFlagFilterHidden &&
        pathContainsHidden (absPath cs) with
    | true => simp [OpenNodeExit.code, OpenNodeExit.refusedByPolicy]
    | false =>
      simp only [Bool.false_eq_true, if_false]
      rcases Option.eq_none_or_eq_some (vfs.mountAt cs) with hmount | ⟨mp, hmount⟩
      · rcases Option.eq_none_or_eq_some (vfs.nodeAt cs) with hnode | ⟨r, hnode⟩ <;>
          simp [hmount, hnode, OpenNodeExit.code, OpenNodeExit.refusedByPolicy]
      · simp only [hmount]
        generalize scanParts os (splitParts (vfs.realPathAt mp cs)) = symlink
        cases hasFlag (vfs.flagsAt cs) vfsInodeFlagAllowSymlinks <;>
          cases symlink.criticalError <;> cases symlink.containsSymlink <;>
          simp [OpenNodeExit.code, OpenNodeExit.refusedByPolicy]

/-! ## What is refused unasked -/

/-- The error for names that are refused before the system is asked. -/
def Vfs.refusal (vfs : Vfs) (cs : List Name) : Option VfsError :=
  if hasFlag (vfs.flagsAt cs) vfsInodeFlagFilterAll then some .noSuchFileOrDirectory
  else if hasFlag (vfs.flagsAt cs) vfsInodeFlagFilterHidden && pathContainsHidden (absPath cs) then
    some .permissionDenied
  else if (vfs.mountAt cs).isNone && (vfs.nodeAt cs).isNone then some .noSuchFileOrDirectory
  else none

/-- These are refused with this error whatever the system holds ... -/
theorem openExit_refusal {vfs : Vfs} {cs : List Name} {code : VfsError}
    (h : vfs.refusal cs = some code) (os : Os) :
    (vfs.openExit os cs).code = code ∧ (vfs.openExit os cs).handle = none := by
  unfold Vfs.refusal at h
  unfold Vfs.openExit
  cases hall : hasFlag (vfs.flagsAt cs) vfsInodeFlagFilterAll with
  | true =>
    rw [hall] at h
    exact ⟨Option.some.inj h, rfl⟩
  | false =>
    cases hhid : hasFlag (vfs.flagsAt cs) vfsInodeFlagFilterHidden &&
        pathContainsHidden (absPath cs) with
    | true =>
      rw [hall, hhid] at h
      exact ⟨Option.some.inj h, rfl⟩
    | false =>
      rw [hall, hhid] at h
      cases hmount : vfs.mountAt cs with
      | some mountpoint =>
        rw [hmount] at h
        exact absurd h (by simp)
      | none =>
        cases hnode : vfs.nodeAt cs with
        | some r =>
          rw [hmount, hnode] at h
          exact absurd h (by simp)
        | none =>
          rw [hmount, hnode] at h
          exact ⟨Option.some.inj h, rfl⟩

/-- ... and all others open on a system without files. -/
theorem openExit_unrefused {vfs : Vfs} {cs : List Name} (h : vfs.refusal cs = none) :
    ∃ handle, vfs.openExit Os.empty cs = .opened handle := by
  unfold Vfs.refusal at h
  split_ifs at h with hall hhidden hthere
  apply OpenNodeExit.code_eq_ok.mp
  rw [openExit_ok]
  refine ⟨⟨by simpa using hall, ?_, fun mountpoint _ _ => ?_⟩, ?_⟩
  · rw [pathContainsHidden_absPath] at hhidden
    grind
  · intro part hpart
    have hmissing : ∀ part, isMissing Os.empty part = true := fun _ => rfl
    exact absurd (List.mem_takeWhile_imp hpart) (by simp [hmissing])
  · grind

/-- Nothing goes wrong there. -/
theorem openExit_empty (vfs : Vfs) (cs : List Name) :
    (vfs.openExit Os.empty cs).code ≠ .outOfHandles ∧
      (vfs.openExit Os.empty cs).code ≠ .internalError := by
  cases hrefusal : vfs.refusal cs with
  | none =>
    obtain ⟨handle, hopen⟩ := openExit_unrefused hrefusal
    rw [hopen]
    exact ⟨nofun, nofun⟩
  | some code =>
    rw [(openExit_refusal hrefusal Os.empty).1]
    unfold Vfs.refusal at hrefusal
    split_ifs at hrefusal <;> obtain rfl := Option.some.inj hrefusal <;> exact ⟨nofun, nofun⟩

end Umsftpd
