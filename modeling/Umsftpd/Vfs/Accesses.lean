import Umsftpd.Vfs.Accounts
import Umsftpd.Vfs.Visibility

/-!
# Which files are opened

No call of the interface but `vfs_open` makes an `fopen`, and that makes one only for the real path
of a node that the policy permits, and to write only where the node is not read-only. Where every
mountpoint but some is read-only, and nothing else takes that back, only these are written to.
-/

namespace Umsftpd

open CLib Paths

/-! ## Calls of `fopen` -/

/-- An `fopen` for the names `cs`: permitted by the policy, and to write only what may be
written. -/
structure Vfs.Accesses (vfs : Vfs) (os : Os) (cs : List Name) (mode : VfsFilemode)
    (path : Option CStr) (modeString : CStr) : Prop where
  permits : vfs.Permits os cs
  reaches : ReachesFopen os (vfs.openHandle cs) mode
  path_eq : path = (vfs.openHandle cs).mappedPath
  mode_eq : modeString = modeStringMapping mode

theorem CLib.SysCall.NoFopen.of_quiet {c : SysCall} (h : c.isQuiet = true) : c.NoFopen := by
  rintro q m rfl
  exact absurd h (by simp [SysCall.isQuiet])

section Calls

variable (os : Os)

/-- Nothing is opened for reading or writing. -/
abbrev NoFopens {α : Type} (x : Exec α) : Prop := Exec.Only SysCall.NoFopen x os

theorem NoFopens.of_quiet {α : Type} {x : Exec α} (h : Quiet os x) : NoFopens os x :=
  h.mono fun _ _ hcalls c hc => .of_quiet (hcalls c hc)

theorem vfsCloseHandle_noFopens (handle : VfsHandle) : NoFopens os (vfsCloseHandle handle) := by
  unfold vfsCloseHandle
  have hrelease : ∀ c : SysCall, c.NoFopen →
      NoFopens os (do Exec.release c; Exec.release .free) := by
    intro c hc
    exact .call hc (.last fun q m => by simp)
  cases handle.type with
  | dirHandle =>
    cases handle.dir with
    | none => exact .last fun q m => by simp
    | some dir => exact hrelease _ fun q m => by simp
  | fileHandle =>
    cases handle.file with
    | none => exact .last fun q m => by simp
    | some file => exact hrelease _ fun q m => by simp

theorem vfsOpendir_noFopens (vfs : Vfs) (path : Option CStr) :
    NoFopens os (vfsOpendir vfs path) := by
  apply (NoFopens.of_quiet os (vfsOpenNode_quiet os vfs path)).bind
  rintro ⟨vfs', exit⟩
  cases exit with
  | opened handle => exact .opendir (fun q m => by simp) (.pure _)
  | _ => exact .pure _

theorem vfsOpen_accesses (vfs : Vfs) (path : CStr) (mode : VfsFilemode) :
    Exec.Traces (vfsOpen vfs (some path) mode) os fun _ calls => ∀ q m, .fopen q m ∈ calls →
      vfs.Accesses os (vfs.resolved path) mode q m := by
  intro w r w' hrun
  obtain ⟨calls, hcalls, hfopens⟩ :=
    ((vfsOpen_ifReturns vfs (some path) mode os w).result hrun).fopens
  refine ⟨calls, hcalls, fun q m hmem => ?_⟩
  obtain ⟨p, hp, hopens, hreaches, hq, hm⟩ := (hfopens q m).mp hmem
  obtain rfl := Option.some.inj hp
  exact ⟨hopens.permits, hreaches, hq, hm⟩

end Calls

/-! ## What stays as it is -/

section Resorted

variable {vfs vfs' : Vfs} (h : vfs.Resorted vfs')
include h

theorem Vfs.Resorted.flagsAt (cs : List Name) : vfs'.flagsAt cs = vfs.flagsAt cs := by
  unfold Vfs.flagsAt
  rw [h.inode, show vfs'.nodeAt = vfs.nodeAt from funext h.nodeAt]
  simp only [h.declaration]

theorem Vfs.Resorted.openHandle (cs : List Name) : vfs'.openHandle cs = vfs.openHandle cs := by
  have hmount : vfs'.mountAt cs = vfs.mountAt cs := by
    unfold Vfs.mountAt
    rw [show vfs'.nodeAt = vfs.nodeAt from funext h.nodeAt]
    simp only [h.targetPath]
  unfold Vfs.openHandle Vfs.nodeHandle
  rw [h.nodeAt, h.flagsAt, hmount]
  simp only [h.realPathAt]

/-- The same files are opened. -/
theorem Vfs.Resorted.accesses {os : Os} {cs : List Name} {mode : VfsFilemode}
    {path : Option CStr} {modeString : CStr} (haccess : vfs'.Accesses os cs mode path modeString) :
    vfs.Accesses os cs mode path modeString := by
  obtain ⟨hpermits, hreaches, hpath, hmode⟩ := haccess
  rw [← openExit_refused, h.openExit, openExit_refused] at hpermits
  rw [h.openHandle] at hreaches hpath
  exact ⟨hpermits, hreaches, hpath, hmode⟩

end Resorted

/-! ## Where writing is possible -/

/-- A flag that is not set from the start and that no node sets is nowhere. -/
theorem Vfs.flagsAt_lacks {vfs : Vfs} {i : Nat} (hi : i < 32)
    (hbase : hasFlag vfs.inode.baseFlags (BitVec.twoPow 32 i) = false)
    (hset : ∀ cs r, vfs.nodeAt cs = some r →
      hasFlag (vfs.deref r).flagsSet (BitVec.twoPow 32 i) = false) (cs : List Name) :
    hasFlag (vfs.flagsAt cs) (BitVec.twoPow 32 i) = false := by
  have hgathered := PathTree.inherit_rel (t := vfs.nodeAt)
    (fun flags s => applyFlags flags (vfs.deref s).declaration) (fun (_ : Unit) _ => ())
    (R := fun flags _ => hasFlag flags (BitVec.twoPow 32 i) = false) (g := vfs.inode.baseFlags)
    (d := ()) ?_ hbase cs
  · exact hgathered
  · intro p s flags _ hat hflag
    have hnode : hasFlag (vfs.deref s).declaration.flagsSet (BitVec.twoPow 32 i) = false :=
      hset p s hat
    rw [hasFlag_applyFlags _ _ hi, hflag, hnode]
    rfl

section Writing

variable {vfs : Vfs}

/-- The inode is mounted and what is below it may be written. -/
def Vfs.MountedWritable (vfs : Vfs) (r : InodeRef) : Prop :=
  (vfs.deref r).targetPath.isSome = true ∧
    (hasFlag (vfs.deref r).flagsSet vfsInodeFlagReadOnly = false ∨
      hasFlag (vfs.deref r).flagsReset vfsInodeFlagReadOnly = true)

/-- The only inodes that take the flag back are mounted. -/
def Vfs.ResetsMounted (vfs : Vfs) : Prop :=
  ∀ cs r, vfs.nodeAt cs = some r →
    hasFlag (vfs.deref r).flagsReset vfsInodeFlagReadOnly = true →
    (vfs.deref r).targetPath.isSome = true

/-- If only mounted inodes take the flag back, then what is not read-only is below an inode that is
mounted and writable. -/
theorem Vfs.mountAt_writable (hreset : vfs.ResetsMounted) {cs : List Name} {r : InodeRef}
    (hmount : vfs.mountAt cs = some r)
    (hflag : hasFlag (vfs.flagsAt cs) vfsInodeFlagReadOnly = false) : vfs.MountedWritable r := by
  have hbit : vfsInodeFlagReadOnly = BitVec.twoPow 32 0 := rfl
  have hgathered := PathTree.inherit_rel (t := vfs.nodeAt)
    (fun flags s => applyFlags flags (vfs.deref s).declaration)
    (fun mountpoint s => if (vfs.deref s).targetPath.isSome then some s else mountpoint)
    (R := fun flags mountpoint => ∀ r, mountpoint = some r →
      hasFlag flags vfsInodeFlagReadOnly = false → vfs.MountedWritable r)
    (g := vfs.inode.baseFlags) (d := none) ?_ (fun _ h => absurd h (by simp)) cs
  · exact hgathered r hmount hflag
  · intro p s flags mountpoint hat hbefore r hmount hflag
    rw [hbit, hasFlag_applyFlags _ _ (by decide), ← hbit] at hflag
    have hcases : (hasFlag flags vfsInodeFlagReadOnly = false ∧
          hasFlag (vfs.deref s).flagsSet vfsInodeFlagReadOnly = false) ∨
        hasFlag (vfs.deref s).flagsReset vfsInodeFlagReadOnly = true := by
      have hbits : ((hasFlag flags vfsInodeFlagReadOnly ||
          hasFlag (vfs.deref s).flagsSet vfsInodeFlagReadOnly) &&
            !hasFlag (vfs.deref s).flagsReset vfsInodeFlagReadOnly) = false := hflag
      grind
    split at hmount
    · next htarget =>
      obtain rfl := Option.some.inj hmount
      exact ⟨htarget, hcases.imp And.right id⟩
    · next htarget =>
      rcases hcases with ⟨hflags, -⟩ | hresets
      · exact hbefore r hmount hflags
      · exact absurd (hreset p s hat hresets) htarget

/-- A real path that is opened is below the target of a mountpoint; and to write it only below one
that is writable, if only mounted inodes take the flag back. -/
theorem Vfs.Accesses.mounted {os : Os} {cs : List Name} {mode : VfsFilemode} {q modeString : CStr}
    (h : vfs.Accesses os cs mode (some q) modeString) :
    ∃ pre rest r target, cs = pre ++ rest ∧ vfs.nodeAt pre = some r ∧
      (vfs.deref r).targetPath = some target ∧ q = realPath target pre rest ∧
      (vfs.ResetsMounted → mode ≠ .read → vfs.MountedWritable r) := by
  obtain ⟨r, hmount, hq⟩ := Option.map_eq_some_iff.mp h.path_eq.symm
  obtain ⟨pre, ⟨rest, rfl⟩, hat, hsome⟩ := Vfs.mountAt_some hmount
  obtain ⟨target, htarget⟩ := Option.isSome_iff_exists.mp hsome
  refine ⟨pre, rest, r, target, rfl, hat, htarget, ?_, fun hreset hmode => ?_⟩
  · rw [← hq, Vfs.realPathAt, mapped_absPath (Vfs.nodeAt_some hat).2 htarget]
  · exact Vfs.mountAt_writable hreset hmount (h.reaches.writable.resolve_right hmode)

end Writing

end Umsftpd
