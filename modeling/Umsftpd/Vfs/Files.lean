import Umsftpd.CLib.Stdio
import Umsftpd.Vfs.Outcomes

/-!
# Reading and writing files (`vfs.c`)

`vfs_read` and `vfs_write` hand the buffer of the caller on to the stream of the handle, and `errno`
tells whether that went well.
-/

namespace Umsftpd

open CLib Paths

/-! ## Handles -/

/-- The file handle of a node. -/
def Vfs.openFile (vfs : Vfs) (cs : List Name) (mode : VfsFilemode) : VfsHandle :=
  { vfs.openHandle cs with
    file := some ⟨(vfs.openHandle cs).mappedPath, modeStringMapping mode⟩ }

@[simp] theorem Vfs.openFile_file (vfs : Vfs) (cs : List Name) (mode : VfsFilemode) :
    (vfs.openFile cs mode).file =
      some ⟨(vfs.openHandle cs).mappedPath, modeStringMapping mode⟩ := rfl

/-- A success comes with the handle of the node, and nothing else has changed. -/
theorem vfsOpen_given (vfs : Vfs) (path : Option CStr) (mode : VfsFilemode) :
    Exec.Yields (vfsOpen vfs path mode) fun r => r.2.1 = .ok → r.1 = vfs ∧
      ∃ p, path = some p ∧ r.2.2 = some (vfs.openFile (vfs.resolved p) mode) := by
  have hnode : Exec.Yields (vfsOpenNode vfs path) fun r => ∀ handle, r.2 = .opened handle →
      r.1 = vfs ∧ ∃ p, path = some p ∧ handle = vfs.openHandle (vfs.resolved p) := by
    intro os w r w' hrun
    exact ((vfsOpenNode_ifReturns vfs path os w).result hrun).opened
  unfold vfsOpen
  refine Exec.Yields.bind hnode ?_
  rintro ⟨vfs', exit⟩ hexit
  cases exit with
  | opened handle =>
    obtain ⟨rfl, p, rfl, rfl⟩ : vfs' = vfs ∧ ∃ p, path = some p ∧
        handle = vfs.openHandle (vfs.resolved p) := hexit handle rfl
    -- an exit that closes the handle is no success
    have hclose : ∀ {code : VfsError} (handle : VfsHandle), code ≠ .ok →
        Exec.Yields (do vfsCloseHandle handle; return (vfs', code, some handle)) fun r =>
          r.2.1 = .ok → r.1 = vfs' ∧
            ∃ p', some p = some p' ∧ r.2.2 = some (vfs'.openFile (vfs'.resolved p') mode) :=
      fun handle hcode => (Exec.Always.close handle fun hok => absurd hok hcode).yields
    refine Exec.Yields.bind (.trivial _) fun answer _ => ?_
    dsimp only
    split
    · next errorCode hrefusal =>
      have hrefused : statRefusal mode answer = some errorCode := hrefusal
      exact hclose _ (statRefusal_ne hrefused).1
    · split
      · exact hclose _ (by simp)
      refine Exec.Yields.bind (.trivial _) fun opened _ => ?_
      cases opened with
      | error errno => exact hclose _ (vfsErrnoToVfsError_ne errno).1
      | ok _ => exact .pure fun _ => ⟨rfl, p, rfl, rfl⟩
  | _ => exact .pure fun hok => absurd hok (by simp [OpenNodeExit.code])

/-- What it takes for the file of a path to open. -/
structure PathOpens (vfs : Vfs) (os : Os) (w : World) (path : CStr) (mode : VfsFilemode) :
    Prop where
  node : NodeOpens vfs os w path
  file : FileOpens os (vfs.openHandle (vfs.resolved path)) mode

/-- What comes of opening a file, for a caller that only looks at the handle after a success. -/
structure FileRun (vfs : Vfs) (os : Os) (w : World) (path : CStr) (mode : VfsFilemode)
    (r : Vfs × VfsError × Option VfsHandle) : Prop where
  resorted : vfs.Resorted r.1
  opened : PathOpens vfs os w path mode →
    r = (vfs, .ok, some (vfs.openFile (vfs.resolved path) mode))
  refused : ¬PathOpens vfs os w path mode → r.2.1 ≠ .ok

theorem OpenRun.file {vfs : Vfs} {os : Os} {w w' : World} {path : CStr} {mode : VfsFilemode}
    {r : Vfs × VfsError × Option VfsHandle} (hopen : OpenRun vfs os w (some path) mode r w')
    (hrun : vfsOpen vfs (some path) mode os w = some (r, w')) : FileRun vfs os w path mode r := by
  obtain ⟨vfs', code, handle⟩ := r
  have hiff : code = .ok ↔ PathOpens vfs os w path mode := by
    rw [hopen.ok_iff]
    constructor
    · rintro ⟨_, ⟨⟩, hnode, hfile⟩
      exact ⟨hnode, hfile⟩
    · intro h
      exact ⟨path, rfl, h.node, h.file⟩
  refine ⟨hopen.outcome.resorted, fun h => ?_, fun hno hok => hno (hiff.mp hok)⟩
  obtain ⟨hvfs, p, hp, hhandle⟩ := vfsOpen_given vfs (some path) mode os w _ w' hrun (hiff.mpr h)
  obtain rfl := Option.some.inj hp
  exact Prod.ext hvfs (Prod.ext (hiff.mpr h) hhandle)

theorem vfsOpen_file (vfs : Vfs) (path : CStr) (mode : VfsFilemode) (os : Os) (w : World) :
    Exec.IfReturns (vfsOpen vfs (some path) mode) os w fun r _ => FileRun vfs os w path mode r :=
  fun _ _ hrun => ((vfsOpen_ifReturns vfs (some path) mode os w).result hrun).file hrun

/-! ## Reading and writing -/

/-- `vfs_read`, on a handle whose stream still gives `stream`. No cells stand for a `*length` that
is left as it was. -/
def vfsRead (handle : VfsHandle) (stream : Stream (Option Char)) (length : Nat) :
    Option (VfsError × Option Buffer × Stream (Option Char)) :=
  if handle.type ≠ .fileHandle then some (.internalError, none, stream)
  else do
    let _ ← handle.file
    let (cells, freadErrno, stream) := fread length stream
    return (if freadErrno = none then .ok else .ioError, some cells, stream)

/-- `vfs_write`, on a handle whose stream takes `taking`, with what is written. -/
def vfsWrite (handle : VfsHandle) (taking : Taking) (text : CStr) :
    Option (VfsError × Option CStr) :=
  if handle.type ≠ .fileHandle then some (.internalError, none)
  else do
    let _ ← handle.file
    let (written, fwriteErrno) := fwrite taking text
    return (if fwriteErrno = none then .ok else .ioError, some written)

theorem vfsRead_file {handle : VfsHandle} {file : File} (htype : handle.type = .fileHandle)
    (hfile : handle.file = some file) (stream : Stream (Option Char)) (length : Nat) :
    vfsRead handle stream length =
      some (if (fread length stream).2.1 = none then .ok else .ioError,
        some (fread length stream).1, (fread length stream).2.2) := by
  unfold vfsRead
  rw [if_neg (by simp [htype]), hfile]
  rfl

/-- A read that stores something leaves less. -/
theorem vfsRead_length_lt {handle : VfsHandle} {stream stream' : Stream (Option Char)}
    {length : Nat} {code : VfsError} {cells : Buffer}
    (h : vfsRead handle stream length = some (code, some cells, stream')) (hcells : cells ≠ []) :
    stream'.length < stream.length := by
  unfold vfsRead at h
  split at h
  · exact absurd h (by simp)
  · obtain ⟨file, -, hread⟩ := Option.bind_eq_some_iff.mp h
    obtain ⟨-, rfl, rfl⟩ : _ ∧ (fread length stream).1 = cells ∧
        (fread length stream).2.2 = stream' := by simpa using hread
    exact length_fread_lt hcells

theorem vfsWrite_file {handle : VfsHandle} {file : File} (htype : handle.type = .fileHandle)
    (hfile : handle.file = some file) (taking : Taking) (text : CStr) :
    vfsWrite handle taking text =
      some (if (fwrite taking text).2 = none then .ok else .ioError,
        some (fwrite taking text).1) := by
  unfold vfsWrite
  rw [if_neg (by simp [htype]), hfile]
  rfl

end Umsftpd
