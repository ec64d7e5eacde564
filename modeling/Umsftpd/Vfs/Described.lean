import Umsftpd.Vfs.Listing
import Umsftpd.Vfs.Mapped

/-!
# What describes a node

`vfs_stat` fills in the whole entry where it succeeds, so what was in the buffer of its caller is
never seen: the answer depends on the node alone.
-/

namespace Umsftpd

open CLib Paths

/-- The entry of a node that opens. -/
def Vfs.describe (vfs : Vfs) (os : Os) (cs : List Name) : Except VfsError VfsDirent :=
  if (vfs.nodeAt cs).isSome then .ok (vfsStatVirtualDirectory (lastName cs) (vfs.flagsAt cs))
  else
    match os.stat (vfs.openHandle cs).mappedPath with
    | .error errno => .error (vfsErrnoToVfsError errno)
    | .ok statbuf =>
      .ok (vfsStatStatbuf statbuf { filename := filenameOf (lastName cs) } (vfs.flagsAt cs))

/-- The code and the buffer as one answer. -/
def statAnswerOf (code : VfsError) (dirent : VfsDirent) : Except VfsError VfsDirent :=
  if code = .ok then .ok dirent else .error code

/-- What comes of `vfs_stat`. -/
structure StatRun (vfs : Vfs) (os : Os) (w : World) (path : CStr)
    (r : Vfs × VfsError × VfsDirent) : Prop where
  resorted : vfs.Resorted r.1
  described : NodeOpens vfs os w path →
    statAnswerOf r.2.1 r.2.2 = vfs.describe os (vfs.resolved path)
  refused : ¬NodeOpens vfs os w path → r.2.1 ≠ .ok

theorem vfsStat_returns_of {vfs : Vfs} {path : CStr} {os : Os} {w : World}
    (h : Exec.Returns (vfsOpenNode vfs (some path)) os w fun r w' =>
      NodeRun vfs os w (some path) r.1 r.2 w') (before : VfsDirent) :
    Exec.Returns (vfsStat vfs (some path) before) os w fun r _ => StatRun vfs os w path r := by
  unfold vfsStat
  apply h.bind
  rintro ⟨vfs', exit⟩ w1 (hnode : NodeRun vfs os w (some path) vfs' exit w1)
  cases exit with
  | opened node =>
    obtain ⟨rfl, -, p, hp, hopens, rfl⟩ := NodeRun.node hnode
    obtain rfl := Option.some.inj hp
    have hbasename : constBasename (vfs'.openHandle (vfs'.resolved path)).virtualPath =
        some (lastName (vfs'.resolved path)) := constBasename_absPath _
    -- an exit that closes the handle and answers as the node is described
    have hclose : ∀ {code : VfsError} {dirent : VfsDirent} {w2 : World},
        statAnswerOf code dirent = vfs'.describe os (vfs'.resolved path) →
        Exec.Returns (do
          vfsCloseHandle (vfs'.openHandle (vfs'.resolved path))
          return (vfs', code, dirent)) os w2 fun r _ => StatRun vfs' os w path r := by
      intro code dirent w2 hanswer
      apply Exec.Returns.close
      intro w' _
      exact ⟨.refl _, fun _ => hanswer, fun hno => absurd hopens hno⟩
    dsimp only
    rw [hbasename, Exec.checked_some_bind]
    by_cases hinode : (vfs'.openHandle (vfs'.resolved path)).inode.isSome = true
    · rw [if_pos hinode]
      apply hclose
      have hat : (vfs'.nodeAt (vfs'.resolved path)).isSome = true := hinode
      unfold Vfs.describe
      rw [if_pos hat]
      rfl
    · rw [if_neg hinode]
      apply Exec.Returns.call
      have hat : ¬(vfs'.nodeAt (vfs'.resolved path)).isSome = true := hinode
      cases hstat : os.stat (vfs'.openHandle (vfs'.resolved path)).mappedPath with
      | error errno =>
        apply hclose
        unfold Vfs.describe statAnswerOf
        rw [if_neg hat, hstat, if_neg (vfsErrnoToVfsError_ne errno).1]
      | ok statbuf =>
        dsimp only
        rw [Exec.checked_some_bind]
        apply hclose
        unfold Vfs.describe statAnswerOf
        rw [if_neg hat, hstat, if_pos rfl]
        exact congrArg Except.ok (vfsStatStatbuf_congr _ _ rfl)
  | _ =>
    have hno : ¬NodeOpens vfs os w path := by
      intro hopens
      exact absurd (hnode.opens.mpr ⟨path, rfl, hopens⟩) (by simp [OpenNodeExit.code])
    exact .pure ⟨hnode.resorted, fun h => absurd h hno, fun _ => by simp [OpenNodeExit.code]⟩

theorem vfsStat_returns {vfs : Vfs} {path : CStr} (h : vfs.Takes (some path)) (before : VfsDirent)
    (os : Os) (w : World) :
    Exec.Returns (vfsStat vfs (some path) before) os w fun r _ => StatRun vfs os w path r :=
  vfsStat_returns_of (vfsOpenNode_returns h os w) before

theorem vfsStat_ifReturns (vfs : Vfs) (path : CStr) (before : VfsDirent) (os : Os) (w : World) :
    Exec.IfReturns (vfsStat vfs (some path) before) os w fun r _ => StatRun vfs os w path r := by
  apply Exec.IfReturns.of_returns
  intro r w' hrun
  refine vfsStat_returns_of ?_ before
  unfold vfsStat at hrun
  exact (vfsOpenNode_ifReturns vfs (some path) os w).of_bind hrun

end Umsftpd
