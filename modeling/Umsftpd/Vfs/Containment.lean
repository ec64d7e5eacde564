import Umsftpd.Vfs.Reachable

/-!
# Containment

No path a client can name leads out of the target of its mountpoint.
-/

namespace Umsftpd

open CLib Paths

section

variable {vfs : Vfs} (hreach : Reachable vfs) (hfrozen : vfs.inode.frozen = true) {path : CStr}
  {os : Os}
include hreach hfrozen

/-- Opening a frozen file system takes the exit of the names of the path. -/
theorem vfsOpenNode_eval (hsan : Sanitizable vfs.cwd.path path) :
    (vfsOpenNode vfs (some path)).eval os =
      some (vfs, vfs.openExit os (resolve vfs.cwd.path path)) :=
  (vfsOpenNode_gives hfrozen hreach.valid.ready hsan os).eval

/-- Only a path that can be sanitised opens. -/
theorem vfsOpenNode_eval_opened {vfs' : Vfs} {exit : OpenNodeExit}
    (hrun : (vfsOpenNode vfs (some path)).eval os = some (vfs', exit)) (hok : exit.code = .ok) :
    Sanitizable vfs.cwd.path path ∧ vfs' = vfs ∧
      exit = vfs.openExit os (resolve vfs.cwd.path path) := by
  obtain ⟨⟨r, w'⟩, hcall, hr⟩ := Option.map_eq_some_iff.mp hrun
  obtain rfl : r = (vfs', exit) := hr
  obtain ⟨_, ⟨⟩, hopens⟩ :=
    ((vfsOpenNode_ifReturns vfs (some path) os {}).result hcall).opens.mp hok
  rw [vfsOpenNode_eval hreach hfrozen hopens.sanitizable] at hrun
  obtain ⟨hvfs, hexit⟩ := Prod.mk.inj (Option.some.inj hrun)
  exact ⟨hopens.sanitizable, hvfs.symm, hexit.symm⟩

end

/-- The real path is the target itself or the target with the names below the mountpoint. -/
theorem realPath_cases (target : CStr) (pre suf : List Name) :
    (realPath target pre suf = target ∧ suf = []) ∨
      realPath target pre suf = target ++ ['/'] ++ joinNames suf := by
  unfold realPath
  split
  · next h => exact Or.inl ⟨rfl, h.1⟩
  · exact Or.inr rfl

/-- **Containment.** When a client's path opens with a mapped path, this is the target of the
mountpoint, or the target, a slash and the names of the sanitised path below the mountpoint. -/
theorem vfsOpenNode_contained {vfs : Vfs} (hreach : Reachable vfs)
    (hfrozen : vfs.inode.frozen = true) {path : CStr} {os : Os} {vfs' : Vfs} {exit : OpenNodeExit}
    {handle : VfsHandle} {m : CStr}
    (hrun : (vfsOpenNode vfs (some path)).eval os = some (vfs', exit)) (hok : exit.code = .ok)
    (hhandle : exit.handle = some handle) (hmapped : handle.mappedPath = some m) :
    ∃ p lookup mountpoint target pre suf,
      (sanitizePath vfs.cwd.path path).eval os = some (some p) ∧
      vfsLookup vfs p = (vfs, some lookup) ∧
      lookup.mountpoint = some mountpoint ∧ (vfs.deref mountpoint).targetPath = some target ∧
      p = absPath (pre ++ suf) ∧ (vfs.deref mountpoint).virtualPath = pathOf pre ∧
      ((m = target ∧ suf = []) ∨ m = target ++ ['/'] ++ joinNames suf) := by
  obtain ⟨hsanitizable, rfl, rfl⟩ := vfsOpenNode_eval_opened hreach hfrozen hrun hok
  have hopened := OpenNodeExit.handle_eq_some.mp hhandle
  have hsan : (sanitizePath vfs'.cwd.path path).eval os =
      some (some (absPath (resolve vfs'.cwd.path path))) :=
    sanitizePath_eval_iff.mpr ⟨hsanitizable, rfl⟩
  generalize resolve vfs'.cwd.path path = cs at hopened hsan
  rw [Vfs.openExit_opened hopened] at hmapped
  obtain ⟨mountpoint, hmount, hm⟩ := Option.map_eq_some_iff.mp hmapped
  obtain ⟨pre, ⟨suf, rfl⟩, hat, htarget⟩ := Vfs.mountAt_some hmount
  obtain ⟨target, htarget⟩ := Option.isSome_iff_exists.mp htarget
  have hpath := (Vfs.nodeAt_some hat).2
  refine ⟨_, vfs'.lookupAt (pre ++ suf), mountpoint, target, pre, suf, hsan,
    vfsLookup_canonical hfrozen (canonical_absPath _), hmount, htarget, rfl, hpath, ?_⟩
  rw [← hm, Vfs.realPathAt, mapped_absPath hpath htarget]
  exact realPath_cases target pre suf

theorem vfsOpenNode_contained_dotdot :
    ∃ vfs vfs' handle mountpoint target pre suf,
      configured [⟨"/a".toList, some "/srv/".toList, 0, 0⟩] = some vfs ∧
      (vfsOpenNode vfs (some "x//../../a/./b".toList)).eval Os.empty =
        some (vfs', .opened handle) ∧
      handle.mappedPath = some "/srv/b".toList ∧
      (vfs.deref mountpoint).virtualPath = pathOf pre ∧
      (("/srv/b".toList = target ∧ suf = []) ∨
        "/srv/b".toList = target ++ ['/'] ++ joinNames suf) := by
  have hopens : ((configured [⟨"/a".toList, some "/srv/".toList, 0, 0⟩]).bind fun vfs =>
      ((vfsOpenNode vfs (some "x//../../a/./b".toList)).eval Os.empty).bind fun r =>
        r.2.handle.bind VfsHandle.mappedPath) = some "/srv/b".toList := by
    decide
  obtain ⟨vfs, hvfs, h⟩ := Option.bind_eq_some_iff.mp hopens
  obtain ⟨⟨vfs', exit⟩, hrun, h'⟩ := Option.bind_eq_some_iff.mp h
  obtain ⟨handle, hhandle, hmapped⟩ := Option.bind_eq_some_iff.mp h'
  obtain ⟨hreach, hfrozen⟩ := reachable_configured hvfs
  have hexit : exit = .opened handle := OpenNodeExit.handle_eq_some.mp hhandle
  obtain ⟨-, -, mountpoint, target, pre, suf, -, -, -, -, -, hpath, hm⟩ :=
    vfsOpenNode_contained hreach hfrozen hrun (OpenNodeExit.code_eq_ok.mpr ⟨handle, hexit⟩)
      hhandle hmapped
  exact ⟨vfs, vfs', handle, mountpoint, target, pre, suf, hvfs, hexit ▸ hrun, hmapped, hpath, hm⟩

end Umsftpd
