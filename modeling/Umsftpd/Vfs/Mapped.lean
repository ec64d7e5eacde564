import Umsftpd.Vfs.Policy
import Umsftpd.Vfs.WorkingDirectory

/-!
# Mapped paths

What becomes of the real path of a node. A directory that is only virtual has none, and not every
caller of `vfs_open_node` looks at that before it hands the path to the system. And where there is
one, the target of the mountpoint was stored without its trailing slashes, that of the root as the
empty string.
-/

namespace Umsftpd

open CLib Paths

/-! ## Stored targets -/

/-- Every target is absolute or that of the root, which is stored as the empty string. -/
def Vfs.TargetsAbsolute (vfs : Vfs) : Prop :=
  ∀ r ∈ vfs.inode.data, ∀ target, (vfs.deref r).targetPath = some target →
    target = [] ∨ isAbsolutePath target = true

theorem isAbsolutePath_truncateTrailingSlash {path : CStr} (h : isAbsolutePath path = true) :
    truncateTrailingSlash path = [] ∨ isAbsolutePath (truncateTrailingSlash path) = true := by
  unfold truncateTrailingSlash
  cases path with
  | nil => exact absurd h (by simp [isAbsolutePath])
  | cons c path =>
    cases truncateTrailingSlashLoop (c :: path) (c :: path).length with
    | zero => exact Or.inl rfl
    | succ n => exact Or.inr h

/-- The step of a walk: the new inode has no target, or that of the declaration. -/
theorem VfsInodeAddingCtx.targetsAbsolute_visit {ctx ctx' : VfsInodeAddingCtx}
    {call : CStr × Bool} (hwf : ctx.WellFormed)
    (hleaf : ∀ t, ctx.leafTargetPath = some t → isAbsolutePath t = true)
    (htargets : ctx.vfs.TargetsAbsolute) (h : ctx.visit call = some ctx') :
    ctx'.vfs.TargetsAbsolute := by
  rcases visit_cases h with ⟨r, -, rfl⟩ | ⟨vfs, r, -, rfl, hcreated⟩
  · exact htargets
  · intro r' hr' target htarget
    rw [hcreated.data_eq, List.mem_append, List.mem_singleton] at hr'
    rcases hr' with hold | rfl
    · have hinfo := hcreated.info_old (hwf.vfs.data_lt r' hold)
      exact htargets r' hold target ((congrArg NodeInfo.targetPath hinfo).symm.trans htarget)
    · rw [hcreated.deref_new] at htarget
      obtain ⟨t, ht, rfl⟩ := Option.map_eq_some_iff.mp htarget
      apply isAbsolutePath_truncateTrailingSlash
      split at ht
      · exact hleaf t ht
      · exact absurd ht (by simp)

theorem VfsInodeAddingCtx.leafTargetPath_visit {ctx ctx' : VfsInodeAddingCtx}
    {call : CStr × Bool} (h : ctx.visit call = some ctx') :
    ctx'.leafTargetPath = ctx.leafTargetPath := by
  rcases visit_cases h with ⟨r, -, rfl⟩ | ⟨vfs, r, -, rfl, -⟩ <;> rfl

theorem Vfs.TargetsAbsolute.add {d : Declaration} {vfs vfs' : Vfs} {os : Os} {w : World}
    {ok : Bool} (htargets : vfs.TargetsAbsolute) (hwf : vfs.WellFormed)
    (h : d.add vfs os {} = some ((ok, vfs'), w)) : vfs'.TargetsAbsolute := by
  by_cases haccepted : d.Accepted vfs
  · have hadd := Declaration.add_accepted haccepted os []
    obtain ⟨ctx, hwalk, heq⟩ := Option.map_eq_some_iff.mp (hadd.symm.trans h)
    obtain rfl : ctx.vfs = vfs' := by simpa using congrArg (·.1.2) heq
    have hinv := VfsInodeAddingCtx.walk_induction
      (P := fun ctx => ctx.WellFormed ∧ ctx.leafTargetPath = d.targetPath ∧
        ctx.vfs.TargetsAbsolute) ?_ hwalk ⟨⟨hwf, nofun⟩, rfl, htargets⟩
    · exact hinv.2.2
    · rintro ctx ctx' call - ⟨hctx, hleaf, habs⟩ hvisit
      have hlegal : ∀ t, ctx.leafTargetPath = some t → isAbsolutePath t = true := by
        rw [hleaf]
        exact haccepted.target_legal
      exact ⟨hctx.visit hvisit,
        (VfsInodeAddingCtx.leafTargetPath_visit hvisit).trans hleaf,
        VfsInodeAddingCtx.targetsAbsolute_visit hctx hlegal habs hvisit⟩
  · obtain ⟨code, msg, hrejected⟩ := Declaration.add_rejected haccepted os {}
    obtain rfl : vfsSetError vfs code msg = vfs' := by
      simpa using congrArg (Option.map (·.1.2)) (hrejected.symm.trans h)
    exact htargets

theorem Reachable.targetsAbsolute {vfs : Vfs} (h : Reachable vfs) : vfs.TargetsAbsolute := by
  induction h with
  | init baseFlags => exact fun r hr => absurd hr List.not_mem_nil
  | @step vfs vfs' hreach hstep ih =>
    rcases hstep.cases with
      ⟨d, os, ok, w, hadd⟩ | ⟨libc, rfl⟩ | ⟨cs', hmoved⟩ | hsame
    · exact ih.add hreach.valid.table hadd
    · intro r hr target htarget
      rw [vfsFreezeInodes_deref] at htarget
      exact ih r ((mem_vfsFreezeInodes_data libc vfs).mp hr) target htarget
    · rw [hmoved.rest]
      exact ih
    · intro r hr target htarget
      rw [hsame.inode] at hr
      exact ih r hr target ((congrArg NodeInfo.targetPath (hsame.info r)).symm.trans htarget)

/-- The real path is empty for the mountpoint itself with the root as its target, and absolute
otherwise. -/
theorem isAbsolutePath_realPath {target : CStr} (pre suf : List Name)
    (htarget : target = [] ∨ isAbsolutePath target = true) :
    isAbsolutePath (realPath target pre suf) = true ↔ ¬(target = [] ∧ suf = [] ∧ pre ≠ []) := by
  unfold realPath
  rcases htarget with rfl | habs
  · split
    · next h => simp [h, isAbsolutePath]
    · next h => simpa [isAbsolutePath] using h
  · have hne : target ≠ [] := by
      rintro rfl
      simp [isAbsolutePath] at habs
    obtain ⟨c, rest, rfl⟩ := List.exists_cons_of_ne_nil hne
    refine iff_of_true ?_ (by simp)
    split <;> exact habs

/-- A sanitised path is a stored one only for the same names, and never that of the root. -/
theorem absPath_eq_pathOf_iff (cs ds : List Name) :
    absPath cs = pathOf ds ↔ cs = ds ∧ ds ≠ [] := by
  constructor
  · intro h
    have hne : cs ≠ [] := by
      rintro rfl
      exact pathOf_getLast? ds (by rw [← h]; rfl)
    rw [absPath_of_ne_nil hne] at h
    obtain rfl := pathOf_injective h
    exact ⟨rfl, hne⟩
  · rintro ⟨rfl, hne⟩
    exact absPath_of_ne_nil hne

/-- **Mapped paths are usable.** When a client's path opens below a mountpoint, the mapped path is
not empty and starts with a slash, if and only if it is not the mountpoint itself with the root as
its target. -/
theorem vfsOpenNode_mapped_iff {vfs : Vfs} (hreach : Reachable vfs)
    (hfrozen : vfs.inode.frozen = true) {path : CStr} {os : Os} {vfs' : Vfs} {exit : OpenNodeExit}
    {handle : VfsHandle} (hrun : (vfsOpenNode vfs (some path)).eval os = some (vfs', exit))
    (hok : exit.code = .ok) (hhandle : exit.handle = some handle) {p : CStr}
    (hsan : (sanitizePath vfs.cwd.path path).eval os = some (some p)) {lookup : VfsLookupResult}
    (hlookup : (vfsLookup vfs p).2 = some lookup) {mountpoint : InodeRef}
    (hmount : lookup.mountpoint = some mountpoint) :
    (∃ m, handle.mappedPath = some m ∧ m ≠ [] ∧ isAbsolutePath m = true) ↔
      ¬((vfs.deref mountpoint).targetPath = some [] ∧
        p = (vfs.deref mountpoint).virtualPath) := by
  obtain ⟨-, -, rfl⟩ := vfsOpenNode_eval_opened hreach hfrozen hrun hok
  have hopened := OpenNodeExit.handle_eq_some.mp hhandle
  obtain ⟨-, rfl⟩ := sanitizePath_eval_iff.mp hsan
  generalize resolve vfs.cwd.path path = cs at hopened hlookup
  rw [vfsLookup_canonical hfrozen (canonical_absPath cs)] at hlookup
  obtain rfl := Option.some.inj hlookup
  have hmount' : vfs.mountAt cs = some mountpoint := hmount
  obtain ⟨pre, ⟨suf, rfl⟩, hat, htarget⟩ := Vfs.mountAt_some hmount'
  obtain ⟨target, htarget⟩ := Option.isSome_iff_exists.mp htarget
  obtain ⟨hmem, hpath⟩ := Vfs.nodeAt_some hat
  have hmapped : handle.mappedPath = some (realPath target pre suf) := by
    rw [Vfs.openExit_opened hopened, hmount', Option.map_some, Vfs.realPathAt,
      mapped_absPath hpath htarget]
  have hsame : absPath (pre ++ suf) = pathOf pre ↔ suf = [] ∧ pre ≠ [] := by
    rw [absPath_eq_pathOf_iff, List.append_right_eq_self]
  have habs := isAbsolutePath_realPath pre suf (hreach.targetsAbsolute mountpoint hmem target
    htarget)
  rw [htarget, hpath, hsame, Option.some_inj, ← habs]
  constructor
  · rintro ⟨m, hm, -, h⟩
    obtain rfl : realPath target pre suf = m := Option.some.inj (hmapped.symm.trans hm)
    exact h
  · intro h
    refine ⟨_, hmapped, ?_, h⟩
    intro hnil
    simp [hnil, isAbsolutePath] at h

/-- The mountpoint itself with the root as its target. -/
theorem vfsOpenNode_mapped_root :
    ∃ vfs vfs' handle, configured [⟨"/a".toList, some "/".toList, 0, 0⟩] = some vfs ∧
      (vfsOpenNode vfs (some "/a".toList)).eval Os.empty = some (vfs', .opened handle) ∧
      (∃ lookup mountpoint, (vfsLookup vfs "/a".toList).2 = some lookup ∧
        lookup.mountpoint = some mountpoint) ∧
      handle.mappedPath = some [] := by
  have hrun : ((configured [⟨"/a".toList, some "/".toList, 0, 0⟩]).bind fun vfs =>
      ((vfsOpenNode vfs (some "/a".toList)).eval Os.empty).bind fun r =>
        r.2.handle.bind fun handle => (vfsLookup vfs "/a".toList).2.bind fun lookup =>
          lookup.mountpoint.map fun _ => handle.mappedPath) = some (some []) := by
    decide
  obtain ⟨vfs, hvfs, h⟩ := Option.bind_eq_some_iff.mp hrun
  obtain ⟨⟨vfs', exit⟩, hopen, h⟩ := Option.bind_eq_some_iff.mp h
  obtain ⟨handle, hhandle, h⟩ := Option.bind_eq_some_iff.mp h
  obtain ⟨lookup, hlookup, h⟩ := Option.bind_eq_some_iff.mp h
  obtain ⟨mountpoint, hmount, hmapped⟩ := Option.map_eq_some_iff.mp h
  obtain rfl : exit = .opened handle := OpenNodeExit.handle_eq_some.mp hhandle
  exact ⟨vfs, vfs', handle, hvfs, hopen, ⟨lookup, mountpoint, hlookup, hmount⟩, hmapped⟩

/-- Below a mountpoint with the root as its target the mapped path is usable. -/
theorem vfsOpenNode_mapped_iff_below :
    ∃ vfs vfs' handle m, configured [⟨"/a".toList, some "//".toList, 0, 0⟩] = some vfs ∧
      (vfsOpenNode vfs (some "/a/b".toList)).eval Os.empty = some (vfs', .opened handle) ∧
      handle.mappedPath = some m ∧ m ≠ [] ∧ isAbsolutePath m = true := by
  have hrun : ((configured [⟨"/a".toList, some "//".toList, 0, 0⟩]).bind fun vfs =>
      ((vfsOpenNode vfs (some "/a/b".toList)).eval Os.empty).bind fun r =>
        r.2.handle.bind fun _ =>
          ((sanitizePath vfs.cwd.path "/a/b".toList).eval Os.empty).bind fun p => p.bind fun p =>
            (vfsLookup vfs p).2.bind fun lookup => lookup.mountpoint.map fun mountpoint =>
              decide (p = (vfs.deref mountpoint).virtualPath)) = some false := by
    decide
  obtain ⟨vfs, hvfs, h⟩ := Option.bind_eq_some_iff.mp hrun
  obtain ⟨⟨vfs', exit⟩, hopen, h⟩ := Option.bind_eq_some_iff.mp h
  obtain ⟨handle, hhandle, h⟩ := Option.bind_eq_some_iff.mp h
  obtain ⟨sanitized, hsan, h⟩ := Option.bind_eq_some_iff.mp h
  obtain ⟨p, rfl, h'⟩ := Option.bind_eq_some_iff.mp h
  obtain ⟨lookup, hlookup, h⟩ := Option.bind_eq_some_iff.mp h'
  obtain ⟨mountpoint, hmount, hne⟩ := Option.map_eq_some_iff.mp h
  obtain ⟨hreach, hfrozen⟩ := reachable_configured hvfs
  obtain rfl : exit = .opened handle := OpenNodeExit.handle_eq_some.mp hhandle
  obtain ⟨m, hm⟩ := (vfsOpenNode_mapped_iff hreach hfrozen hopen rfl rfl hsan hlookup hmount).mpr
    fun hbad => of_decide_eq_false hne hbad.2
  exact ⟨vfs, vfs', handle, m, hvfs, hopen, hm⟩

/-! ## Calls with a path -/

/-- The path a call hands over, when it is one that opens a file or asks for its status. -/
def CLib.SysCall.handed : SysCall → Option (Option CStr)
  | .stat path | .opendir path | .fopen path _ => some path
  | .lstat _ | .closedir | .fclose | .free => none

/-- The call does not hand over the `NULL` pointer. -/
def CLib.SysCall.NonNull (c : SysCall) : Prop := c.handed ≠ some none

theorem CLib.SysCall.handed_of_passive {c : SysCall} (h : c.isPassive = true) :
    c.handed = none := by
  cases c <;> first | rfl | exact absurd h (by simp [SysCall.isPassive])

theorem CLib.SysCall.nonNull_of_passive {c : SysCall} (h : c.isPassive = true) : c.NonNull := by
  unfold SysCall.NonNull
  rw [SysCall.handed_of_passive h]
  simp

/-- Nothing refuses the path: it is that of an inode, and neither this one nor one above it has a
target. -/
structure OpensUnmapped (p : CStr) (lookup : VfsLookupResult) : Prop where
  inode : lookup.inode ≠ none
  mountpoint : lookup.mountpoint = none
  notFiltered : hasFlag lookup.flags vfsInodeFlagFilterAll = false
  notHidden : hasFlag lookup.flags vfsInodeFlagFilterHidden = false ∨ pathContainsHidden p = false

/-- A handle without a mapped path is given for these paths only. -/
theorem openExit_unmapped (vfs : Vfs) (os : Os) (cs : List Name) :
    (∃ handle, vfs.openExit os cs = .opened handle ∧ handle.mappedPath = none) ↔
      OpensUnmapped (absPath cs) (vfs.lookupAt cs) := by
  constructor
  · rintro ⟨handle, hexit, hmapped⟩
    have hok : (vfs.openExit os cs).code = .ok := by rw [hexit, OpenNodeExit.code]
    obtain ⟨hpermits, hthere⟩ := (openExit_ok vfs os cs).mp hok
    rw [Vfs.openExit_opened hexit] at hmapped
    have hmount : vfs.mountAt cs = none := Option.map_eq_none_iff.mp hmapped
    refine ⟨hthere.resolve_right (absurd hmount), hmount, hpermits.notFiltered, ?_⟩
    rw [pathContainsHidden_absPath]
    exact hpermits.notHidden
  · intro h
    have hmount : vfs.mountAt cs = none := h.mountpoint
    have hpermits : vfs.Permits os cs := by
      refine ⟨h.notFiltered, ?_, by simp [hmount]⟩
      rw [← pathContainsHidden_absPath]
      exact h.notHidden
    obtain ⟨handle, hexit⟩ :=
      OpenNodeExit.code_eq_ok.mp ((openExit_ok vfs os cs).mpr ⟨hpermits, Or.inl h.inode⟩)
    refine ⟨handle, hexit, ?_⟩
    rw [Vfs.openExit_opened hexit, hmount]
    rfl

/-- Without an inode a node is mapped. -/
theorem openExit_mapped {vfs : Vfs} {os : Os} {cs : List Name} {handle : VfsHandle}
    (h : vfs.openExit os cs = .opened handle) (hinode : handle.inode = none) :
    handle.mappedPath.isSome = true := by
  cases hmapped : handle.mappedPath with
  | some m => rfl
  | none =>
    have hunmapped := (openExit_unmapped vfs os cs).mp ⟨handle, h, hmapped⟩
    rw [Vfs.openExit_opened h] at hinode
    exact absurd hinode hunmapped.inode

theorem nonNull_stat {path : Option CStr} (h : path.isSome = true) :
    (SysCall.stat path).NonNull := by
  obtain ⟨m, rfl⟩ := Option.isSome_iff_exists.mp h
  exact fun h => absurd (Option.some.inj h) (by simp)

/-- The last name of a path; the root has none. -/
def lastName (cs : List Name) : CStr := cs.getLast?.elim [] Name.val

@[simp] theorem lastName_concat (cs : List Name) (n : Name) : lastName (cs ++ [n]) = n.val := by
  simp [lastName]

/-- `const_basename` of a sanitised path is its last name. -/
theorem constBasename_absPath (cs : List Name) :
    constBasename (absPath cs) = some (lastName cs) := by
  induction cs using List.reverseRecOn with
  | nil => rfl
  | append_singleton cs n _ =>
    rw [absPath_of_ne_nil (by simp), constBasename_pathOf, lastName_concat]

/-- What `vfs_stat` answers for the names of a path, and what it leaves in the buffer. -/
def Vfs.statAnswer (vfs : Vfs) (os : Os) (cs : List Name) (before : VfsDirent) :
    VfsError × VfsDirent :=
  match vfs.openExit os cs with
  | .opened handle =>
    if handle.inode.isSome then (.ok, vfsStatVirtualDirectory (lastName cs) handle.flags)
    else match os.stat handle.mappedPath with
      | .error errno => (vfsErrnoToVfsError errno, before)
      | .ok statbuf =>
        (.ok, vfsStatStatbuf statbuf { before with filename := filenameOf (lastName cs) }
          handle.flags)
  | exit => (exit.code, before)

/-- An exit that closes the handle first hands over nothing. -/
theorem close_passive {α : Type} {P : SysCall → Prop} (hP : ∀ c, c.isPassive = true → P c)
    (handle : VfsHandle) (a : α) (os : Os) :
    ∃ b, Exec.Gives (do vfsCloseHandle handle; return a) os P b :=
  ⟨a, (Exec.Gives.close handle a os).mono hP⟩

section Calls

variable {vfs : Vfs} (hfrozen : vfs.inode.frozen = true) (hready : vfs.Ready) {path : CStr}
  (hsan : Sanitizable vfs.cwd.path path) (os : Os)
include hfrozen hready hsan

theorem vfsStat_gives (before : VfsDirent) :
    Exec.Gives (vfsStat vfs (some path) before) os (·.NonNull)
      (vfs, vfs.statAnswer os (resolve vfs.cwd.path path) before) := by
  have hpassive : ∀ c : SysCall, c.isPassive = true → c.NonNull :=
    fun _ => SysCall.nonNull_of_passive
  have hnode := (vfsOpenNode_gives hfrozen hready hsan os).mono hpassive
  generalize resolve vfs.cwd.path path = cs at hnode ⊢
  unfold vfsStat Vfs.statAnswer
  generalize hexit : vfs.openExit os cs = exit at hnode
  apply hnode.bind
  cases exit with
  | opened handle =>
    have hpath : handle.virtualPath = absPath cs := by
      rw [Vfs.openExit_opened hexit]
      rfl
    have hbasename : Exec.Gives (Exec.checked (constBasename handle.virtualPath)) os (·.NonNull)
        (lastName cs) := by
      rw [hpath, constBasename_absPath]
      exact .of_apply fun _ => rfl
    dsimp only
    split
    · exact hbasename.bind ((Exec.Gives.close _ _ os).mono hpassive)
    · next hinode =>
      have hmapped := openExit_mapped hexit (by simpa using hinode)
      refine Exec.Gives.bind (.call _ (nonNull_stat hmapped)) ?_
      cases os.stat handle.mappedPath with
      | error errno => exact (Exec.Gives.close _ _ os).mono hpassive
      | ok statbuf => exact hbasename.bind ((Exec.Gives.close _ _ os).mono hpassive)
  | _ => exact .pure _

theorem vfsChdir_nonNull : ∃ r, Exec.Gives (vfsChdir vfs (some path)) os (·.NonNull) r := by
  have hpassive : ∀ c : SysCall, c.isPassive = true → c.NonNull :=
    fun _ => SysCall.nonNull_of_passive
  have hnode := (vfsOpenNode_gives hfrozen hready hsan os).mono hpassive
  generalize hexit : vfs.openExit os (resolve vfs.cwd.path path) = exit at hnode
  unfold vfsChdir
  apply hnode.exists_bind
  cases exit with
  | opened handle =>
    have hpath : handle.virtualPath = absPath (resolve vfs.cwd.path path) := by
      rw [Vfs.openExit_opened hexit]
      rfl
    have hmove : ∃ r, Exec.Gives (do
        let moved ← vfsSetCwd vfs handle.virtualPath
        vfsCloseHandle handle
        return (moved.2, if moved.1 then VfsError.ok else VfsError.internalError))
        os (·.NonNull) r := by
      rw [hpath]
      exact Exec.Gives.exists_bind (.of_apply (vfsSetCwd_apply vfs _ os))
        (close_passive hpassive _ _ os)
    by_cases hinode : handle.inode.isSome
    · simp only [hinode, if_true]
      exact hmove
    · simp only [hinode]
      have hmapped := openExit_mapped hexit (by simpa using hinode)
      refine Exec.Gives.exists_bind (.call _ (nonNull_stat hmapped)) ?_
      cases os.stat handle.mappedPath with
      | error errno => exact close_passive hpassive _ _ os
      | ok statbuf =>
        by_cases hdir : (!statbuf.isDir) = true
        · simp only [hdir, if_true]
          exact close_passive hpassive _ _ os
        · simp only [hdir]
          exact hmove
  | _ => exact ⟨_, .pure _⟩

/-- Where a node that is opened is handed over and nothing else is, `NULL` is handed over exactly
for the paths that open unmapped. -/
theorem vfsOpenNode_bind_nonNull {β : Type} {f : Vfs × OpenNodeExit → Exec β}
    (hopened : ∀ handle, vfs.openExit os (resolve vfs.cwd.path path) = .opened handle →
      ∃ c, c.handed = some handle.mappedPath ∧ Exec.Makes (f (vfs, .opened handle)) os
        (fun c => c.isPassive = true ∨ c.handed = some handle.mappedPath) c)
    (hrefused : ∀ exit : OpenNodeExit, exit.handle = none →
      ∃ r, Exec.Gives (f (vfs, exit)) os (·.isPassive) r) :
    ∃ r w, (vfsOpenNode vfs (some path) >>= f) os {} = some (r, w) ∧
      ((∀ c ∈ w.calls, c.NonNull) ↔
        ¬OpensUnmapped (absPath (resolve vfs.cwd.path path))
          (vfs.lookupAt (resolve vfs.cwd.path path))) := by
  have hnode := vfsOpenNode_gives hfrozen hready hsan os
  rw [← openExit_unmapped vfs os]
  generalize vfs.openExit os (resolve vfs.cwd.path path) = exit at hnode hopened ⊢
  cases hhandle : exit.handle with
  | some handle =>
    obtain rfl := OpenNodeExit.handle_eq_some.mp hhandle
    obtain ⟨c, hc, hmakes⟩ := hopened handle rfl
    obtain ⟨r, w, hrun, hmem, hcalls⟩ :=
      (Exec.Makes.bind (hnode.mono fun _ => Or.inl) hmakes).run
    refine ⟨r, w, hrun, ?_⟩
    constructor
    · rintro h ⟨handle', hexit, hnull⟩
      obtain rfl := OpenNodeExit.opened.inj hexit
      exact h c hmem (by rw [hc, hnull])
    · intro h c' hc'
      rcases hcalls c' hc' with hpassive | hhanded
      · exact SysCall.nonNull_of_passive hpassive
      · intro hnull
        exact h ⟨handle, rfl, Option.some.inj (hhanded.symm.trans hnull)⟩
  | none =>
    obtain ⟨r, hgives⟩ := hnode.exists_bind (hrefused exit hhandle)
    obtain ⟨w, hrun, hcalls⟩ := hgives.run
    refine ⟨r, w, hrun, iff_of_true (fun c hc => SysCall.nonNull_of_passive (hcalls c hc)) ?_⟩
    rintro ⟨handle, rfl, -⟩
    exact absurd hhandle (by simp [OpenNodeExit.handle])

/-- `vfs_opendir` hands over what `vfs_open_node` found, `NULL` or not, and comes back where that
does not kill the program. -/
theorem vfsOpendir_nonNull
    (hmapped : OpensUnmapped (absPath (resolve vfs.cwd.path path))
      (vfs.lookupAt (resolve vfs.cwd.path path)) → os.opendirNull = true) :
    ∃ r w, vfsOpendir vfs (some path) os {} = some (r, w) ∧
      ((∀ c ∈ w.calls, c.NonNull) ↔
        ¬OpensUnmapped (absPath (resolve vfs.cwd.path path))
          (vfs.lookupAt (resolve vfs.cwd.path path))) := by
  apply vfsOpenNode_bind_nonNull hfrozen hready hsan
  · intro handle hexit
    have hpath : handle.mappedPath = none → os.opendirNull = true :=
      fun hnone => hmapped ((openExit_unmapped vfs os _).mp ⟨handle, hexit, hnone⟩)
    exact ⟨.opendir handle.mappedPath, rfl, .opendir hpath (Or.inr rfl) ⟨_, .pure _⟩⟩
  · intro exit hnone
    cases exit with
    | opened handle => exact absurd hnone (by simp [OpenNodeExit.handle])
    | _ => exact ⟨_, .pure _⟩

/-- And so does `vfs_open`, which asks for the status first. -/
theorem vfsOpen_nonNull (mode : VfsFilemode) :
    ∃ r w, vfsOpen vfs (some path) mode os {} = some (r, w) ∧
      ((∀ c ∈ w.calls, c.NonNull) ↔
        ¬OpensUnmapped (absPath (resolve vfs.cwd.path path))
          (vfs.lookupAt (resolve vfs.cwd.path path))) := by
  apply vfsOpenNode_bind_nonNull hfrozen hready hsan
  · intro handle _
    refine ⟨.stat handle.mappedPath, rfl, .call (Or.inr rfl) ?_⟩
    dsimp only
    split
    · exact close_passive (fun _ => Or.inl) _ _ os
    · split
      · exact close_passive (fun _ => Or.inl) _ _ os
      · refine Exec.Gives.exists_bind (.call _ (Or.inr rfl)) ?_
        split
        · exact close_passive (fun _ => Or.inl) _ _ os
        · exact ⟨_, .pure _⟩
  · intro exit hnone
    cases exit with
    | opened handle => exact absurd hnone (by simp [OpenNodeExit.handle])
    | _ => exact ⟨_, .pure _⟩

end Calls

/-- Where a path is not sanitised, the call that opens it as a node hands over nothing. -/
theorem vfsOpenNode_bind_unsanitized {vfs : Vfs} {path : CStr} {os : Os} {β : Type}
    {f : Vfs × OpenNodeExit → Exec β} (hsan : ¬Sanitizable vfs.cwd.path path)
    (hrefused : ∀ vfs' exit, exit.handle = none → ∃ r, f (vfs', exit) = pure r) {r : β} {w : World}
    (hrun : (vfsOpenNode vfs (some path) >>= f) os {} = some (r, w)) :
    ∀ c ∈ w.calls, c.NonNull := by
  rw [Exec.bind_apply] at hrun
  obtain ⟨⟨⟨vfs', exit⟩, w1⟩, hopen, hrest⟩ := Option.bind_eq_some_iff.mp hrun
  have hnode := vfsOpenNode_ifReturns vfs (some path) os {} _ _ hopen
  have hcode : exit.code ≠ .ok := by
    rw [Ne, hnode.opens]
    rintro ⟨_, ⟨⟩, hopens⟩
    exact hsan hopens.sanitizable
  have hnone : exit.handle = none := by
    cases exit with
    | opened handle => exact absurd rfl hcode
    | _ => rfl
  obtain ⟨b, hpure⟩ := hrefused vfs' exit hnone
  dsimp only at hrest
  rw [hpure] at hrest
  obtain ⟨-, rfl⟩ := Prod.mk.inj (Option.some.inj hrest)
  obtain ⟨calls, hcalls, hpassive⟩ := hnode.passed.calls
  obtain rfl : w1.calls = calls := hcalls
  exact fun c hc => SysCall.nonNull_of_passive (hpassive c hc)

/-- **Missing mappings.** `vfs_stat` and `vfs_chdir` never hand the `NULL` pointer to the system.
`vfs_opendir` and `vfs_open` do so for a path that opens without being mapped, and only for
these; where the program does not survive `opendir(NULL)`, it is `vfs_opendir` that does not come
back from them. A path that is not sanitised opens nothing. -/
theorem vfsCalls_nonNull_iff {vfs : Vfs} (hreach : Reachable vfs)
    (hfrozen : vfs.inode.frozen = true) (path : CStr) (mode : VfsFilemode) (before : VfsDirent)
    (os : Os) :
    (∀ p, (sanitizePath vfs.cwd.path path).eval os = some (some p) → ∃ lookup,
      vfsLookup vfs p = (vfs, some lookup) ∧
      (∃ r w, vfsStat vfs (some path) before os {} = some (r, w) ∧ ∀ c ∈ w.calls, c.NonNull) ∧
      (∃ r w, vfsChdir vfs (some path) os {} = some (r, w) ∧ ∀ c ∈ w.calls, c.NonNull) ∧
      ((∃ r w, vfsOpendir vfs (some path) os {} = some (r, w) ∧ ∀ c ∈ w.calls, c.NonNull) ↔
        ¬OpensUnmapped p lookup) ∧
      (os.opendirNull = true → ∃ r w, vfsOpendir vfs (some path) os {} = some (r, w) ∧
        ((∀ c ∈ w.calls, c.NonNull) ↔ ¬OpensUnmapped p lookup)) ∧
      ∃ r w, vfsOpen vfs (some path) mode os {} = some (r, w) ∧
        ((∀ c ∈ w.calls, c.NonNull) ↔ ¬OpensUnmapped p lookup)) ∧
    ((∀ p, (sanitizePath vfs.cwd.path path).eval os ≠ some (some p)) →
      (∀ r w, vfsStat vfs (some path) before os {} = some (r, w) → ∀ c ∈ w.calls, c.NonNull) ∧
      (∀ r w, vfsChdir vfs (some path) os {} = some (r, w) → ∀ c ∈ w.calls, c.NonNull) ∧
      (∀ r w, vfsOpendir vfs (some path) os {} = some (r, w) → ∀ c ∈ w.calls, c.NonNull) ∧
      ∀ r w, vfsOpen vfs (some path) mode os {} = some (r, w) → ∀ c ∈ w.calls, c.NonNull) := by
  have hready := hreach.valid.ready
  refine ⟨fun p hp => ?_, fun hno => ?_⟩
  swap
  · have hsan : ¬Sanitizable vfs.cwd.path path :=
      fun hsan => hno _ (sanitizePath_eval_iff.mpr ⟨hsan, rfl⟩)
    refine ⟨fun r w hrun => vfsOpenNode_bind_unsanitized hsan ?_ hrun,
      fun r w hrun => vfsOpenNode_bind_unsanitized hsan ?_ hrun,
      fun r w hrun => vfsOpenNode_bind_unsanitized hsan ?_ hrun,
      fun r w hrun => vfsOpenNode_bind_unsanitized hsan ?_ hrun⟩
    all_goals
      intro vfs' exit hnone
      cases exit with
      | opened handle => exact absurd hnone (by simp [OpenNodeExit.handle])
      | _ => exact ⟨_, rfl⟩
  obtain ⟨hsan, rfl⟩ := sanitizePath_eval_iff.mp hp
  refine ⟨vfs.lookupAt (resolve vfs.cwd.path path),
    vfsLookup_canonical hfrozen (canonical_absPath _),
    ⟨_, (vfsStat_gives hfrozen hready hsan os before).run⟩, ?_, ?_,
    fun hnull => vfsOpendir_nonNull hfrozen hready hsan os fun _ => hnull,
    vfsOpen_nonNull hfrozen hready hsan os mode⟩
  · obtain ⟨r, hchdir⟩ := vfsChdir_nonNull hfrozen hready hsan os
    exact ⟨r, hchdir.run⟩
  · constructor
    · rintro ⟨r, w, hrun, hcalls⟩ hunmapped
      -- the run has survived `opendir(NULL)`, and this is among its calls
      obtain ⟨handle, hexit, -⟩ := (openExit_unmapped vfs os _).mpr hunmapped
      obtain ⟨hpermits, hthere⟩ := (openExit_ok vfs os _).mp (by rw [hexit]; rfl)
      have hopens : NodeOpens vfs os {} path :=
        ⟨hready.handles, hsan, hfrozen, hpermits, hthere, rfl, rfl, fun _ => rfl⟩
      have hnull := vfsOpendir_mapped hrun path rfl hopens hunmapped.mountpoint
      obtain ⟨r', w', hrun', hiff⟩ := vfsOpendir_nonNull hfrozen hready hsan os fun _ => hnull
      obtain ⟨-, rfl⟩ := Prod.mk.inj (Option.some.inj (hrun.symm.trans hrun'))
      exact hiff.mp hcalls hunmapped
    · intro hmapped
      obtain ⟨r, w, hrun, hiff⟩ :=
        vfsOpendir_nonNull hfrozen hready hsan os fun hunmapped => absurd hunmapped hmapped
      exact ⟨r, w, hrun, hiff.mpr hmapped⟩

/-- A directory that is only virtual opens with the `NULL` pointer, and the program dies of it or,
on a system that survives it, makes that call. -/
theorem vfsOpendir_null :
    ∃ vfs r w, configured [⟨"/a".toList, none, 0, 0⟩] = some vfs ∧
      vfsOpendir vfs (some "/a".toList) Os.empty {} = none ∧
      vfsOpendir vfs (some "/a".toList) { Os.empty with opendirNull := true } {} = some (r, w) ∧
      ¬∀ c ∈ w.calls, c.NonNull := by
  have hrun : ((configured [⟨"/a".toList, none, 0, 0⟩]).bind fun vfs =>
      (vfsOpendir vfs (some "/a".toList) { Os.empty with opendirNull := true } {}).map
        fun r => (r.2.calls, (vfsOpendir vfs (some "/a".toList) Os.empty {}).isNone)) =
      some ([.opendir none], true) := by
    decide
  obtain ⟨vfs, hvfs, h⟩ := Option.bind_eq_some_iff.mp hrun
  obtain ⟨⟨r, w⟩, hopen, heq⟩ := Option.map_eq_some_iff.mp h
  obtain ⟨hcalls, hdies⟩ := Prod.mk.inj heq
  have hcalls : w.calls = [.opendir none] := hcalls
  refine ⟨vfs, r, w, hvfs, Option.isNone_iff_eq_none.mp hdies, hopen, fun hnonNull => ?_⟩
  exact hnonNull (.opendir none) (by rw [hcalls]; exact List.mem_cons_self) rfl

/-- Below a mountpoint the pointer is there. -/
theorem vfsCalls_nonNull_iff_mounted :
    ∃ vfs r w, configured [⟨"/a".toList, some "/srv".toList, 0, 0⟩] = some vfs ∧
      vfsOpendir vfs (some "/a/x".toList) Os.empty {} = some (r, w) ∧
      ∀ c ∈ w.calls, c.NonNull := by
  have hrun : ((configured [⟨"/a".toList, some "/srv".toList, 0, 0⟩]).bind fun vfs =>
      ((sanitizePath vfs.cwd.path "/a/x".toList).eval Os.empty).bind fun p => p.bind fun p =>
        (vfsLookup vfs p).2.map fun lookup => lookup.mountpoint.isSome) = some true := by
    decide
  obtain ⟨vfs, hvfs, h⟩ := Option.bind_eq_some_iff.mp hrun
  obtain ⟨hreach, hfrozen⟩ := reachable_configured hvfs
  obtain ⟨sanitized, hsan, h⟩ := Option.bind_eq_some_iff.mp h
  obtain ⟨p, rfl, hmounted⟩ := Option.bind_eq_some_iff.mp h
  obtain ⟨lookup, hlookup, -, -, hiff, -⟩ :=
    (vfsCalls_nonNull_iff hreach hfrozen "/a/x".toList .read {} Os.empty).1 p hsan
  rw [hlookup] at hmounted
  obtain hmounted : lookup.mountpoint.isSome = true := Option.some.inj hmounted
  obtain ⟨r, w, hopen, hcalls⟩ := hiff.mpr fun hunmapped => by
    rw [hunmapped.mountpoint] at hmounted
    exact absurd hmounted (by simp)
  exact ⟨vfs, r, w, hvfs, hopen, hcalls⟩

end Umsftpd
