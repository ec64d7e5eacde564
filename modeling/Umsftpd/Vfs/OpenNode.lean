import Umsftpd.Strings.Resolve
import Umsftpd.Vfs.Lookup
import Umsftpd.Vfs.Nodes

/-!
# What opening a node gives

`vfs_open_node` sanitises, looks up, filters, maps and scans. On a frozen file system each of these
steps has an equation on the names of the path, and together they are `Vfs.openExit`: the exit that
is taken as a function of the names alone (`vfsOpenNode_gives`).
-/

namespace Umsftpd

open CLib Paths

/-! ## Mapping -/

/-- `vfs_map_path` when there is a mountpoint and memory: the target, and what follows the path of
the mountpoint. -/
def VfsInode.mapped (mountpoint : VfsInode) (virtualPath : CStr) : CStr :=
  let target := mountpoint.targetPath.getD []
  if virtualPath.length > mountpoint.vlen then
    target ++ ['/'] ++ virtualPath.drop (mountpoint.vlen + 1)
  else target

/-- The real path of the names `suf` below the mountpoint at `pre`. Below the root a slash follows
the target even when there are no names. -/
def realPath (target : CStr) (pre suf : List Name) : CStr :=
  if suf = [] ∧ pre ≠ [] then target else target ++ ['/'] ++ joinNames suf

theorem mapped_absPath {mountpoint : VfsInode} {pre : List Name} {target : CStr}
    (hpath : mountpoint.virtualPath = pathOf pre) (htarget : mountpoint.targetPath = some target)
    (suf : List Name) : mountpoint.mapped (absPath (pre ++ suf)) = realPath target pre suf := by
  unfold VfsInode.mapped realPath
  rw [mountpoint.vlen_eq, hpath, htarget, Option.getD_some]
  by_cases hpre : pre = []
  · subst hpre
    have hlong : (absPath ([] ++ suf)).length > (pathOf []).length :=
      List.length_pos_of_ne_nil (absPath_ne_nil _)
    rw [if_pos hlong, if_neg (by simp), List.nil_append, pathOf_nil, List.length_nil, Nat.zero_add]
    by_cases hsuf : suf = []
    · subst hsuf
      rfl
    · rw [absPath_of_ne_nil hsuf, pathOf_drop_one]
  · rw [absPath_of_ne_nil (by simp [hpre]), pathOf_append]
    by_cases hsuf : suf = []
    · subst hsuf
      simp [hpre]
    · have hlong : (pathOf pre ++ pathOf suf).length > (pathOf pre).length := by
        rw [List.length_append]
        have hpos := List.length_pos_of_ne_nil (fun h => hsuf (pathOf_eq_nil_iff.mp h))
        omega
      rw [if_pos hlong, if_neg (by simp [hsuf]), List.drop_append, Nat.add_sub_cancel_left,
        List.drop_eq_nil_of_le (Nat.le_succ _), List.nil_append, pathOf_drop_one]

/-- Mapping allocates once. -/
theorem vfsMapPath_eq {vfs : Vfs} {lookup : VfsLookupResult} {mp : InodeRef} {pre : List Name}
    {target : CStr} (hmount : lookup.mountpoint = some mp)
    (hpath : (vfs.deref mp).virtualPath = pathOf pre)
    (htarget : (vfs.deref mp).targetPath = some target) (suf : List Name) :
    vfsMapPath vfs (some lookup) (some (absPath (pre ++ suf))) = do
      if !(← Exec.malloc) then
        return (vfsSetError vfs .outOfMemory
          "vfs_map_path() could not allocate memory for mapped path".toList, none)
      return (vfs, some ((vfs.deref mp).mapped (absPath (pre ++ suf)))) := by
  have habs : isAbsolutePath (absPath (pre ++ suf)) = true :=
    (canonical_absPath _).isAbsolutePath
  have hvlen : (vfs.deref mp).vlen = (pathOf pre).length := by
    rw [(vfs.deref mp).vlen_eq, hpath]
  have htlen : (vfs.deref mp).tlen = target.length :=
    (vfs.deref mp).tlen_eq target (Option.mem_def.mpr htarget)
  have hlong : ¬(absPath (pre ++ suf)).length < (vfs.deref mp).vlen := by
    rw [hvlen]
    by_cases h : pre ++ suf = []
    · obtain ⟨rfl, rfl⟩ := List.append_eq_nil_iff.mp h
      simp
    · rw [absPath_of_ne_nil h, pathOf_append, List.length_append]
      omega
  unfold vfsMapPath VfsInode.mapped
  simp only [habs, hmount, Option.map_some, hlong, htarget, Bool.not_true, Bool.false_eq_true,
    if_false, Option.getD_some]
  by_cases hgt : (absPath (pre ++ suf)).length > (vfs.deref mp).vlen
  · have hsuffix : ((absPath (pre ++ suf)).drop ((vfs.deref mp).vlen + 1)).take
        ((absPath (pre ++ suf)).length - (vfs.deref mp).vlen - 1) =
        (absPath (pre ++ suf)).drop ((vfs.deref mp).vlen + 1) := by
      apply List.take_of_length_le
      rw [List.length_drop]
      omega
    simp only [hgt, if_true, htlen, hsuffix, Exec.checked_some_bind, List.take_length]
  · simp only [hgt, if_false, Exec.checked_some_bind]

theorem vfsMapPath_apply {vfs : Vfs} {lookup : VfsLookupResult} {mp : InodeRef} {pre : List Name}
    {target : CStr} (hmount : lookup.mountpoint = some mp)
    (hpath : (vfs.deref mp).virtualPath = pathOf pre)
    (htarget : (vfs.deref mp).targetPath = some target) (suf : List Name) (os : Os)
    (tr : List SysCall) :
    vfsMapPath vfs (some lookup) (some (absPath (pre ++ suf))) os ⟨[], tr⟩ =
      some ((vfs, some ((vfs.deref mp).mapped (absPath (pre ++ suf)))), ⟨[], tr⟩) := by
  rw [vfsMapPath_eq hmount hpath htarget]
  exact Exec.malloc_guard _ _ os tr

/-! ## Scanning for symlinks -/

/-- The flags `path_contains_symlink` comes back with, for the parts of the path. -/
def scanParts (os : Os) : List CStr → SymlinkCheckResponse
  | [] => {}
  | part :: parts =>
    match os.lstat part with
    | .error errno =>
      if errno = Errno.ENOENT then { fileNotFound := true } else { criticalError := true }
    | .ok statbuf => if statbuf.isLnk then { containsSymlink := true } else scanParts os parts

/-- The parts of a path that `path_split` enumerates. -/
def splitParts (path : CStr) : List CStr := (splitCalls path).map Prod.fst

theorem runCalls_pathContainsSymlinkCallback (calls : List (CStr × Bool)) (os : Os) :
    Exec.Gives (runCalls pathContainsSymlinkCallback calls {}) os (·.isPassive)
      (scanParts os (calls.map Prod.fst)) := by
  induction calls with
  | nil => exact .pure _
  | cons call calls ih =>
    rw [runCalls, pathContainsSymlinkCallback, List.map_cons, scanParts, bind_assoc]
    refine Exec.Gives.bind (.call _ rfl) ?_
    dsimp only
    cases os.lstat call.1 with
    | error errno =>
      by_cases hno : errno = Errno.ENOENT
      · simp only [hno, if_true]
        exact .pure _
      · simp only [hno, if_false]
        exact .pure _
    | ok statbuf =>
      cases hlnk : statbuf.isLnk with
      | true =>
        simp only [hlnk, if_true]
        exact .pure _
      | false =>
        simp only [hlnk, Bool.false_eq_true, if_false]
        exact ih

theorem pathContainsSymlink_gives (path : CStr) (os : Os) :
    Exec.Gives (pathContainsSymlink path) os (·.isPassive) (scanParts os (splitParts path)) := by
  unfold pathContainsSymlink
  rw [pathSplit_eq]
  exact runCalls_pathContainsSymlinkCallback _ os

/-- Nothing is there under this path. -/
def isMissing (os : Os) (path : CStr) : Bool :=
  match os.lstat path with
  | .error errno => errno == Errno.ENOENT
  | .ok _ => false

/-- What is there under this path can be looked at and is no symlink. -/
def isPlain (os : Os) (path : CStr) : Bool :=
  match os.lstat path with
  | .error _ => false
  | .ok statbuf => !statbuf.isLnk

/-- From the shortest part to the longest, no symlink and no error comes before the first part that
is missing. -/
def ScanClean (os : Os) (path : CStr) : Prop :=
  ∀ part ∈ (splitParts path).takeWhile (fun part => !isMissing os part), isPlain os part = true

theorem scanParts_clean (os : Os) (parts : List CStr) :
    ((scanParts os parts).criticalError = false ∧ (scanParts os parts).containsSymlink = false) ↔
      ∀ part ∈ parts.takeWhile (fun part => !isMissing os part), isPlain os part = true := by
  induction parts with
  | nil => simp [scanParts]
  | cons part parts ih =>
    rw [scanParts, List.takeWhile_cons]
    cases hstat : os.lstat part with
    | error errno =>
      by_cases hno : errno = Errno.ENOENT
      · simp [isMissing, hstat, hno]
      · simp [isMissing, isPlain, hstat, hno]
    | ok statbuf =>
      cases hlnk : statbuf.isLnk
      · simpa [isMissing, isPlain, hstat, hlnk] using ih
      · simp [isMissing, isPlain, hstat, hlnk]

/-! ## The exit that is taken -/

namespace OpenNodeExit

/-- A handle is left by the last exit only. -/
theorem handle_eq_some {exit : OpenNodeExit} {handle : VfsHandle} :
    exit.handle = some handle ↔ exit = .opened handle := by
  cases exit <;> simp [OpenNodeExit.handle]

theorem code_eq_ok {exit : OpenNodeExit} : exit.code = .ok ↔ ∃ handle, exit = .opened handle := by
  cases exit <;> simp [code]

end OpenNodeExit

namespace Vfs

/-- The handle for a path before it is mapped. -/
def nodeHandle (vfs : Vfs) (cs : List Name) : VfsHandle :=
  { virtualPath := absPath cs, inode := vfs.nodeAt cs, flags := vfs.flagsAt cs }

/-- The real path of a path below a mountpoint. -/
def realPathAt (vfs : Vfs) (mountpoint : InodeRef) (cs : List Name) : CStr :=
  (vfs.deref mountpoint).mapped (absPath cs)

/-- The exit `vfs_open_node` takes on a frozen file system for the names of the sanitised path. -/
def openExit (vfs : Vfs) (os : Os) (cs : List Name) : OpenNodeExit :=
  if hasFlag (vfs.flagsAt cs) vfsInodeFlagFilterAll then .filterAll
  else if hasFlag (vfs.flagsAt cs) vfsInodeFlagFilterHidden && pathContainsHidden (absPath cs) then
    .filterHidden
  else match vfs.mountAt cs with
    | none => if (vfs.nodeAt cs).isNone then .notMounted else .opened (vfs.nodeHandle cs)
    | some mountpoint =>
      let mapped := vfs.realPathAt mountpoint cs
      let handle := { vfs.nodeHandle cs with mappedPath := some mapped }
      if hasFlag (vfs.flagsAt cs) vfsInodeFlagAllowSymlinks then .opened handle
      else if (scanParts os (splitParts mapped)).criticalError then .symlinkUnchecked
      else if (scanParts os (splitParts mapped)).containsSymlink then .symlinkFound
      else .opened handle

/-- The handle of a node that is opened. -/
theorem openExit_opened {vfs : Vfs} {os : Os} {cs : List Name} {handle : VfsHandle}
    (h : vfs.openExit os cs = .opened handle) :
    handle = { vfs.nodeHandle cs with
      mappedPath := (vfs.mountAt cs).map fun mountpoint => vfs.realPathAt mountpoint cs } := by
  unfold openExit at h
  cases hmount : vfs.mountAt cs with
  | none =>
    rw [hmount] at h
    grind [nodeHandle]
  | some mountpoint =>
    rw [hmount] at h
    grind [nodeHandle]

/-- What serving needs: the working directory is the path of names, and there are handles left. -/
structure Ready (vfs : Vfs) : Prop where
  cwd : ∃ base, vfs.cwd.path = pathOf base
  handles : vfs.handles.currentCount < vfs.handles.maxCount

end Vfs

/-- Mapping gives the real path below a mountpoint ... -/
theorem vfsMapPath_eval {vfs : Vfs} {cs : List Name} {mountpoint : InodeRef}
    (hmount : vfs.mountAt cs = some mountpoint) (os : Os) :
    (vfsMapPath vfs (some (vfs.lookupAt cs)) (some (absPath cs))).eval os =
      some (vfs, some (vfs.realPathAt mountpoint cs)) := by
  obtain ⟨pre, ⟨suf, rfl⟩, hat, htarget⟩ := Vfs.mountAt_some hmount
  obtain ⟨target, htarget⟩ := Option.isSome_iff_exists.mp htarget
  have hmount' : (vfs.lookupAt (pre ++ suf)).mountpoint = some mountpoint := hmount
  have hrun : vfsMapPath vfs (some (vfs.lookupAt (pre ++ suf))) (some (absPath (pre ++ suf)))
      os {} = _ := vfsMapPath_apply hmount' (Vfs.nodeAt_some hat).2 htarget suf os []
  rw [Exec.eval, hrun]
  rfl

/-- ... and where it gives one, there is a mountpoint. -/
theorem vfsMapPath_mounted {vfs vfs' : Vfs} {cs : List Name} {os : Os} {m : CStr}
    (h : (vfsMapPath vfs (some (vfs.lookupAt cs)) (some (absPath cs))).eval os =
      some (vfs', some m)) :
    ∃ mountpoint, vfs.mountAt cs = some mountpoint ∧ m = vfs.realPathAt mountpoint cs := by
  rcases Option.eq_none_or_eq_some (vfs.mountAt cs) with hmount | ⟨mountpoint, hmount⟩
  · have habs : isAbsolutePath (absPath cs) = true := (canonical_absPath cs).isAbsolutePath
    have hmount' : (vfs.lookupAt cs).mountpoint = none := hmount
    simp [vfsMapPath, habs, hmount', Exec.eval] at h
  · rw [vfsMapPath_eval hmount] at h
    obtain ⟨-, hm⟩ := Prod.mk.inj (Option.some.inj h)
    exact ⟨mountpoint, hmount, (Option.some.inj hm).symm⟩

/-- Below a working directory every path whose length an `int` holds is sanitised to the path of its
names. -/
theorem Vfs.Ready.sanitizable {vfs : Vfs} (h : vfs.Ready) {path : CStr}
    (hlength : (joinedPath vfs.cwd.path path).length + 1 < 2 ^ 31) :
    Sanitizable vfs.cwd.path path := by
  obtain ⟨base, hbase⟩ := h.cwd
  apply Sanitizable.of_length _ hlength
  rw [hbase]
  exact .inr (isAbsolutePath_pathOf base)

theorem vfsCloseHandle_gives (handle : VfsHandle) (os : Os) :
    Exec.Gives (vfsCloseHandle handle) os (·.isPassive) () := by
  unfold vfsCloseHandle
  cases handle.type with
  | dirHandle =>
    cases handle.dir with
    | none => exact .call _ rfl
    | some dir => exact Exec.Gives.bind (.call _ rfl) (.call _ rfl)
  | fileHandle =>
    cases handle.file with
    | none => exact .call _ rfl
    | some file => exact Exec.Gives.bind (.call _ rfl) (.call _ rfl)

/-- An exit that closes the handle first. -/
theorem CLib.Exec.Gives.close {α : Type} (handle : VfsHandle) (a : α) (os : Os) :
    Exec.Gives (do vfsCloseHandle handle; return a) os (·.isPassive) a :=
  (vfsCloseHandle_gives handle os).bind (.pure a)

/-- **Opening a node.** On a frozen file system the path is resolved to its names, and these decide
the exit; nothing of the file system changes and nothing is opened. -/
theorem vfsOpenNode_gives {vfs : Vfs} (hfrozen : vfs.inode.frozen = true) (hready : vfs.Ready)
    {path : CStr} (hpath : Sanitizable vfs.cwd.path path) (os : Os) :
    Exec.Gives (vfsOpenNode vfs (some path)) os (·.isPassive)
      (vfs, vfs.openExit os (resolve vfs.cwd.path path)) := by
  have hsan : Exec.Gives (sanitizePath vfs.cwd.path path) os (·.isPassive)
      (some (absPath (resolve vfs.cwd.path path))) := .of_apply (sanitizePath_apply hpath os)
  generalize resolve vfs.cwd.path path = cs at hsan ⊢
  have hlookup := vfsLookup_canonical hfrozen (canonical_absPath cs)
  have hroom : ¬vfs.handles.currentCount ≥ vfs.handles.maxCount := Nat.not_le.mpr hready.handles
  unfold vfsOpenNode Vfs.openExit
  simp only [hroom, if_false]
  apply Exec.Gives.malloc_guard
  apply hsan.bind
  simp only [hlookup]
  show Exec.Gives (if hasFlag (vfs.flagsAt cs) vfsInodeFlagFilterAll then _ else _) os _ _
  by_cases hall : hasFlag (vfs.flagsAt cs) vfsInodeFlagFilterAll = true
  · simp only [hall, if_true]
    exact .close _ _ os
  simp only [hall, Vfs.lookupAt]
  by_cases hhid : (hasFlag (vfs.flagsAt cs) vfsInodeFlagFilterHidden &&
      pathContainsHidden (absPath cs)) = true
  · simp only [hhid, if_true]
    exact .close _ _ os
  simp only [hhid]
  rcases Option.eq_none_or_eq_some (vfs.mountAt cs) with hmount | ⟨mp, hmount⟩
  · rcases Option.eq_none_or_eq_some (vfs.nodeAt cs) with hnode | ⟨r, hnode⟩
    · simp only [hmount, hnode, Option.isNone_none, Bool.and_self, if_true]
      exact .close _ _ os
    · simp only [hmount, hnode, Option.isNone_none, Option.isNone_some, Bool.false_and,
        Bool.false_eq_true, if_false, if_true, Vfs.nodeHandle]
      exact .pure _
  · obtain ⟨pre, ⟨suf, rfl⟩, hat, htarget⟩ := Vfs.mountAt_some hmount
    obtain ⟨target, htarget⟩ := Option.isSome_iff_exists.mp htarget
    have hmount' : (vfs.lookupAt (pre ++ suf)).mountpoint = some mp := hmount
    have hmap := vfsMapPath_apply hmount' (Vfs.nodeAt_some hat).2 htarget suf os
    rw [Vfs.lookupAt, hmount] at hmap
    simp only [hmount, Option.isNone_some, Bool.and_false, Bool.false_eq_true, if_false]
    apply Exec.Gives.bind (.of_apply hmap)
    show Exec.Gives (if hasFlag (vfs.flagsAt (pre ++ suf)) vfsInodeFlagAllowSymlinks then _
      else _) os _ _
    by_cases hallow : hasFlag (vfs.flagsAt (pre ++ suf)) vfsInodeFlagAllowSymlinks = true
    · simp only [hallow, if_true]
      exact .pure _
    · simp only [hallow]
      apply (pathContainsSymlink_gives (vfs.realPathAt mp (pre ++ suf)) os).bind
      generalize scanParts os (splitParts (vfs.realPathAt mp (pre ++ suf))) = symlink
      cases symlink.criticalError with
      | true => exact .close _ _ os
      | false =>
        cases symlink.containsSymlink with
        | true => exact .close _ _ os
        | false => exact .pure _

end Umsftpd
