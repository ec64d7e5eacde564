import Umsftpd.Vfs.Adding

/-!
# Lists of calls

A file system is configured by calls of `vfs_add_inode` on what `vfs_init` gives. `addAll` makes
the calls of a list; a property that each call preserves holds after all of them.
-/

namespace Umsftpd

open CLib

/-- What `vfs_init` gives, with base flags set by its caller. -/
def initialVfs (baseFlags : Flags) : Vfs :=
  { handles := { maxCount := 10 }
    inode := { baseFlags := baseFlags }
    cwd := { allocedSize := 2, length := 1, path := [] } }

theorem vfsInit_apply (os : Os) (tr : List SysCall) :
    vfsInit os ⟨[], tr⟩ = some (some (initialVfs 0), ⟨[], tr⟩) := rfl

theorem initialVfs_wellFormed (baseFlags : Flags) : (initialVfs baseFlags).WellFormed where
  data_lt := by simp [initialVfs]
  data_nodup := List.nodup_nil
  parent_mem := by simp [initialVfs]
  subdirs := by simp [initialVfs]

/-! ## One call -/

/-- A call that returns was refused and left an error, or was accepted and walked. -/
theorem Declaration.add_cases {d : Declaration} {vfs vfs' : Vfs} {ok : Bool} {os : Os}
    {tr : List SysCall} {w : World} (h : d.add vfs os ⟨[], tr⟩ = some ((ok, vfs'), w)) :
    w = ⟨[], tr⟩ ∧
    ((ok = false ∧ ¬d.Accepted vfs ∧ ∃ code msg, vfs' = vfsSetError vfs code msg) ∨
     (ok = true ∧ d.Accepted vfs ∧
      ∃ ctx', (d.ctx vfs).walk (splitCalls d.virtualPath) = some ctx' ∧ vfs' = ctx'.vfs)) := by
  by_cases hacc : d.Accepted vfs
  · rw [add_accepted hacc] at h
    obtain ⟨ctx', hwalk, heq⟩ := Option.map_eq_some_iff.mp h
    obtain ⟨⟨rfl, rfl⟩, rfl⟩ : (true = ok ∧ ctx'.vfs = vfs') ∧ (⟨[], tr⟩ : World) = w := by
      simpa using heq
    exact ⟨rfl, Or.inr ⟨rfl, hacc, ctx', hwalk, rfl⟩⟩
  · obtain ⟨code, msg, hrej⟩ := add_rejected hacc os ⟨[], tr⟩
    rw [hrej] at h
    obtain ⟨⟨rfl, rfl⟩, rfl⟩ : (false = ok ∧ vfsSetError vfs code msg = vfs') ∧
        (⟨[], tr⟩ : World) = w := by
      simpa using h
    exact ⟨rfl, Or.inl ⟨rfl, hacc, code, msg, rfl⟩⟩

/-- A refused call leaves the inodes and the names of their children as they were. -/
theorem Declaration.add_refused {d : Declaration} {vfs vfs' : Vfs} {os : Os} {tr : List SysCall}
    {w : World} (h : d.add vfs os ⟨[], tr⟩ = some ((false, vfs'), w)) :
    vfs'.inode = vfs.inode ∧ vfs'.heap = vfs.heap := by
  rcases (add_cases h).2 with ⟨-, -, code, msg, rfl⟩ | ⟨hok, -⟩
  · exact ⟨rfl, rfl⟩
  · exact absurd hok (by simp)

theorem Vfs.WellFormed.setError {vfs : Vfs} (h : vfs.WellFormed) (code : VfsInternalError)
    (msg : CStr) : (vfsSetError vfs code msg).WellFormed :=
  ⟨h.data_lt, h.data_nodup, h.parent_mem, h.subdirs⟩

theorem Declaration.wellFormed_ctx {d : Declaration} {vfs : Vfs} (h : vfs.WellFormed) :
    (d.ctx vfs).WellFormed := ⟨h, by simp [ctx]⟩

theorem Vfs.WellFormed.add {d : Declaration} {vfs vfs' : Vfs} {ok : Bool} {os : Os}
    {tr : List SysCall} {w : World} (hwf : vfs.WellFormed)
    (h : d.add vfs os ⟨[], tr⟩ = some ((ok, vfs'), w)) : vfs'.WellFormed := by
  rcases (d.add_cases h).2 with ⟨-, -, code, msg, rfl⟩ | ⟨-, -, ctx', hwalk, rfl⟩
  · exact hwf.setError code msg
  · have hctx : ctx'.WellFormed := VfsInodeAddingCtx.walk_induction
      (fun c c' call _ hc hvisit => hc.visit hvisit) hwalk (d.wellFormed_ctx hwf)
    exact hctx.vfs

theorem Vfs.SameSettings.add {d : Declaration} {vfs vfs' : Vfs} {ok : Bool} {os : Os}
    {tr : List SysCall} {w : World} (h : d.add vfs os ⟨[], tr⟩ = some ((ok, vfs'), w)) :
    vfs.SameSettings vfs' := by
  rcases (d.add_cases h).2 with ⟨-, -, code, msg, rfl⟩ | ⟨-, -, ctx', hwalk, rfl⟩
  · exact ⟨rfl, rfl, rfl, rfl⟩
  · exact VfsInodeAddingCtx.sameSettings_walk hwalk

/-! ## Lists of calls -/

/-- Make the calls of a list, and collect the answers. -/
def addAll : List Declaration → Vfs → Exec (List Bool × Vfs)
  | [], vfs => pure ([], vfs)
  | d :: ds, vfs => do
    let (ok, vfs) ← d.add vfs
    let (oks, vfs) ← addAll ds vfs
    return (ok :: oks, vfs)

theorem addAll_cons_apply {d : Declaration} {vfs vfs1 : Vfs} {ok : Bool} {os : Os}
    {tr : List SysCall} {w : World} (h : d.add vfs os ⟨[], tr⟩ = some ((ok, vfs1), w))
    (ds : List Declaration) :
    addAll (d :: ds) vfs os ⟨[], tr⟩ =
      (addAll ds vfs1 os ⟨[], tr⟩).map fun r => ((ok :: r.1.1, r.1.2), r.2) := by
  obtain ⟨rfl, -⟩ := d.add_cases h
  rw [addAll, Exec.bind_apply, h, Option.bind_some, Exec.bind_apply]
  exact Option.map_eq_bind.symm

/-- A list of calls that returns is a call that returns and then the rest. -/
theorem addAll_cons_eq {d : Declaration} {ds : List Declaration} {vfs vfs' : Vfs}
    {oks : List Bool} {os : Os} {tr : List SysCall} {w : World}
    (h : addAll (d :: ds) vfs os ⟨[], tr⟩ = some ((oks, vfs'), w)) :
    ∃ ok vfs1 oks', d.add vfs os ⟨[], tr⟩ = some ((ok, vfs1), ⟨[], tr⟩) ∧
      addAll ds vfs1 os ⟨[], tr⟩ = some ((oks', vfs'), w) ∧ oks = ok :: oks' := by
  have h' := h
  rw [addAll, Exec.bind_apply] at h'
  obtain ⟨⟨⟨ok, vfs1⟩, w1⟩, hadd, -⟩ := Option.bind_eq_some_iff.mp h'
  obtain ⟨rfl, -⟩ := d.add_cases hadd
  rw [addAll_cons_apply hadd] at h
  obtain ⟨⟨⟨oks', vfs2⟩, w2⟩, hrest, heq⟩ := Option.map_eq_some_iff.mp h
  obtain ⟨⟨rfl, rfl⟩, rfl⟩ : (ok :: oks' = oks ∧ vfs2 = vfs') ∧ w2 = w := by simpa using heq
  exact ⟨ok, vfs1, oks', hadd, hrest, rfl⟩

/-- What each call that returns preserves holds after all of them. -/
theorem addAll_induction {P : Vfs → Prop} {os : Os} {tr : List SysCall}
    (hstep : ∀ (d : Declaration) vfs vfs' ok, P vfs →
      d.add vfs os ⟨[], tr⟩ = some ((ok, vfs'), ⟨[], tr⟩) → P vfs')
    {ds : List Declaration} {vfs vfs' : Vfs} {oks : List Bool} {w : World}
    (h : addAll ds vfs os ⟨[], tr⟩ = some ((oks, vfs'), w)) (hP : P vfs) : P vfs' := by
  induction ds generalizing vfs oks with
  | nil =>
    obtain ⟨⟨-, rfl⟩, -⟩ : (oks = [] ∧ vfs' = vfs) ∧ w = ⟨[], tr⟩ := by
      simpa [addAll, eq_comm] using h
    exact hP
  | cons d ds ih =>
    obtain ⟨ok, vfs1, oks', hadd, hrest, -⟩ := addAll_cons_eq h
    exact ih hrest (hstep d vfs vfs1 ok hP hadd)

theorem Vfs.WellFormed.addAll {ds : List Declaration} {vfs vfs' : Vfs} {oks : List Bool} {os : Os}
    {tr : List SysCall} {w : World} (hwf : vfs.WellFormed)
    (h : Umsftpd.addAll ds vfs os ⟨[], tr⟩ = some ((oks, vfs'), w)) : vfs'.WellFormed :=
  addAll_induction (fun _ _ _ _ hwf hadd => hwf.add hadd) h hwf

theorem Vfs.SameSettings.addAll {ds : List Declaration} {vfs vfs' : Vfs} {oks : List Bool} {os : Os}
    {tr : List SysCall} {w : World}
    (h : Umsftpd.addAll ds vfs os ⟨[], tr⟩ = some ((oks, vfs'), w)) : vfs.SameSettings vfs' :=
  addAll_induction (P := fun v => vfs.SameSettings v)
    (fun _ _ _ _ hsame hadd => hsame.trans (Vfs.SameSettings.add hadd)) h
    (Vfs.SameSettings.refl vfs)

end Umsftpd
