import Umsftpd.Vfs.Outcomes

/-!
# Reachable file systems

The states a file system goes through under any calls of its interface, in any order, as long as
allocations succeed. `Vfs.Valid` is what all of them satisfy. Serving a client only ever reorders
the names of children (`Vfs.Resorted`) and moves the working directory.
-/

namespace Umsftpd

open CLib Paths

/-! ## Steps -/

/-- One call that returns. -/
inductive VfsStep : Vfs → Vfs → Prop
  | addInode {vfs vfs' : Vfs} (d : Declaration) (os : Os) (ok : Bool)
      (h : (d.add vfs).eval os = some (ok, vfs')) : VfsStep vfs vfs'
  | freeze (libc : LibC) (vfs : Vfs) : VfsStep vfs (vfsFreezeInodes libc vfs)
  | chdir {vfs vfs' : Vfs} (path : Option CStr) (os : Os) (code : VfsError)
      (h : (vfsChdir vfs path).eval os = some (vfs', code)) : VfsStep vfs vfs'
  | opendir {vfs vfs' : Vfs} (path : Option CStr) (os : Os) (code : VfsError)
      (handle : Option VfsHandle)
      (h : (vfsOpendir vfs path).eval os = some (vfs', code, handle)) : VfsStep vfs vfs'
  | open {vfs vfs' : Vfs} (path : Option CStr) (mode : VfsFilemode) (os : Os) (code : VfsError)
      (handle : Option VfsHandle)
      (h : (vfsOpen vfs path mode).eval os = some (vfs', code, handle)) : VfsStep vfs vfs'
  | stat {vfs vfs' : Vfs} (path : Option CStr) (before after : VfsDirent) (os : Os)
      (code : VfsError)
      (h : (vfsStat vfs path before).eval os = some (vfs', code, after)) : VfsStep vfs vfs'
  | readdir {vfs vfs' : Vfs} (libc : LibC) (handle handle' : VfsHandle) (before after : VfsDirent)
      (code : VfsError) (hinode : ∀ r, handle.inode = some r → r ∈ vfs.inode.data)
      (h : vfsReaddir libc vfs handle before = some (code, vfs', handle', after)) :
      VfsStep vfs vfs'

/-- The states after `vfs_init` and any calls. -/
inductive Reachable : Vfs → Prop
  | init (baseFlags : Flags) : Reachable (initialVfs baseFlags)
  | step {vfs vfs' : Vfs} (hreach : Reachable vfs) (hstep : VfsStep vfs vfs') : Reachable vfs'

/-- The invariant of all states. -/
structure Vfs.Valid (vfs : Vfs) : Prop where
  table : vfs.WellFormed
  ready : vfs.Ready

/-! ## What a step does -/

/-- What a call can do to the file system: add to the table, freeze it, move the working directory
or reorder names. -/
theorem VfsStep.cases {vfs vfs' : Vfs} (h : VfsStep vfs vfs') :
    (∃ d os ok w, Declaration.add d vfs os {} = some ((ok, vfs'), w)) ∨
      (∃ libc, vfs' = vfsFreezeInodes libc vfs) ∨ (∃ cs, vfs.Moved vfs' cs) ∨
        vfs.Resorted vfs' := by
  cases h with
  | addInode d os ok hrun =>
    obtain ⟨⟨r, w⟩, hadd, rfl⟩ := Option.map_eq_some_iff.mp hrun
    exact Or.inl ⟨d, os, ok, w, hadd⟩
  | freeze libc => exact Or.inr (Or.inl ⟨libc, rfl⟩)
  | chdir path os code hrun =>
    have hchdir := (vfsChdir_yields vfs path).eval hrun
    right; right
    by_cases hok : code = .ok
    · obtain ⟨p, -, -, hmoved⟩ := hchdir.moved hok
      exact Or.inl ⟨_, hmoved⟩
    · exact Or.inr (hchdir.kept hok)
  | opendir path os code handle hrun =>
    exact Or.inr (Or.inr (Or.inr ((vfsOpendir_yields vfs path).eval hrun).resorted))
  | «open» path mode os code handle hrun =>
    exact Or.inr (Or.inr (Or.inr ((vfsOpen_yields vfs path mode).eval hrun).resorted))
  | stat path before after os code hrun =>
    exact Or.inr (Or.inr (Or.inr ((vfsStat_yields vfs path before).eval hrun)))
  | readdir libc handle handle' before after code hinode hrun =>
    exact Or.inr (Or.inr (Or.inr (vfsReaddir_resorted libc hrun)))

/-! ## The invariant -/

theorem Vfs.SameSettings.ready {vfs vfs' : Vfs} (h : vfs.SameSettings vfs') (hready : vfs.Ready) :
    vfs'.Ready := by
  refine ⟨?_, ?_⟩
  · rw [h.cwd]
    exact hready.cwd
  · rw [h.handles]
    exact hready.handles

theorem Vfs.Ready.freeze {vfs : Vfs} (h : vfs.Ready) (libc : LibC) :
    (vfsFreezeInodes libc vfs).Ready := by
  refine ⟨?_, ?_⟩
  · rw [vfsFreezeInodes_cwd]
    exact h.cwd
  · rw [vfsFreezeInodes_handles]
    exact h.handles

theorem Vfs.Moved.ready {vfs vfs' : Vfs} {cs : List Name} (h : vfs.Moved vfs' cs)
    (hready : vfs.Ready) : vfs'.Ready := by
  refine ⟨⟨cs, h.cwd.path⟩, ?_⟩
  rw [h.rest]
  exact hready.handles

theorem Vfs.Resorted.valid {vfs vfs' : Vfs} (h : vfs.Resorted vfs') (hvalid : vfs.Valid) :
    vfs'.Valid :=
  ⟨h.wellFormed hvalid.table, h.ready hvalid.ready⟩

theorem Vfs.Moved.valid {vfs vfs' : Vfs} {cs : List Name} (h : vfs.Moved vfs' cs)
    (hvalid : vfs.Valid) : vfs'.Valid := by
  refine ⟨?_, h.ready hvalid.ready⟩
  obtain ⟨hlt, hnodup, hparent, hsubdirs⟩ := hvalid.table
  rw [h.rest]
  exact ⟨hlt, hnodup, hparent, hsubdirs⟩

theorem initialVfs_valid (baseFlags : Flags) : (initialVfs baseFlags).Valid :=
  ⟨initialVfs_wellFormed baseFlags, ⟨⟨[], rfl⟩, Nat.zero_lt_succ 9⟩⟩

/-- The step: every call keeps the invariant. -/
theorem Vfs.Valid.step {vfs vfs' : Vfs} (h : vfs.Valid) (hstep : VfsStep vfs vfs') :
    vfs'.Valid := by
  rcases hstep.cases with ⟨d, os, ok, w, hadd⟩ | ⟨libc, rfl⟩ | ⟨cs, hmoved⟩ | hsame
  · exact ⟨h.table.add hadd, (Vfs.SameSettings.add hadd).ready h.ready⟩
  · exact ⟨h.table.freeze libc, h.ready.freeze libc⟩
  · exact hmoved.valid h
  · exact hsame.valid h

/-- The run: every reachable file system is valid. -/
theorem Reachable.valid {vfs : Vfs} (h : Reachable vfs) : vfs.Valid := by
  induction h with
  | init baseFlags => exact initialVfs_valid baseFlags
  | step _ hstep ih => exact ih.step hstep

/-- A list of declarations is a list of steps. -/
theorem Reachable.addAll {ds : List Declaration} {vfs vfs' : Vfs} {oks : List Bool} {os : Os}
    (h : Reachable vfs) (hrun : (Umsftpd.addAll ds vfs).eval os = some (oks, vfs')) :
    Reachable vfs' := by
  obtain ⟨⟨r, w⟩, hall, rfl⟩ := Option.map_eq_some_iff.mp hrun
  refine addAll_induction (P := Reachable) ?_ hall h
  intro d vfs vfs' ok hreach hadd
  exact hreach.step (.addInode d os ok (by rw [Exec.eval, hadd]; rfl))

/-- A file system configured by a list of declarations and frozen. -/
def configured (ds : List Declaration) : Option Vfs :=
  ((addAll ds (initialVfs 0)).eval Os.empty).map fun r => vfsFreezeInodes LibC.reference r.2

theorem reachable_configured {ds : List Declaration} {vfs : Vfs} (h : configured ds = some vfs) :
    Reachable vfs ∧ vfs.inode.frozen = true := by
  obtain ⟨⟨oks, vfs'⟩, hrun, rfl⟩ := Option.map_eq_some_iff.mp h
  exact ⟨((Reachable.init 0).addAll hrun).step (.freeze _ _), rfl⟩

end Umsftpd
