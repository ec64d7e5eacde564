import Umsftpd.CLib.Traces
import Umsftpd.Systems.Ledgers
import Umsftpd.Vfs.Outcomes

/-!
# Directories and files that are open

Which streams the calls of the interface open and close. A directory or file that is opened is put
into the handle that is given out, and `vfs_close_handle` closes what is in it; no other call leaves
anything open.
-/

namespace Umsftpd

open CLib Systems

/-! ## The ledgers -/

/-- A kind of stream. -/
inductive StreamKind where
  | dir | file
  deriving DecidableEq

/-- What a call opens or closes. -/
def streamEntry (os : Os) : SysCall → Option (Entry StreamKind)
  | .opendir path => if (os.opendir path).toOption.isSome then some (.acquire .dir) else none
  | .fopen path mode => if (os.fopen path mode).toOption.isSome then some (.acquire .file) else none
  | .closedir => some (.release .dir)
  | .fclose => some (.release .file)
  | _ => none

/-- The streams in a handle, which `vfs_close_handle` closes. -/
def VfsHandle.streams (handle : VfsHandle) : List StreamKind :=
  match handle.type with
  | .dirHandle => if handle.dir.isSome then [.dir] else []
  | .fileHandle => if handle.file.isSome then [.file] else []

/-- With `held` open, the calls leave open what is in `left`. -/
def Leaves (os : Os) (held : List StreamKind) (calls : List SysCall) (left : List StreamKind) :
    Prop :=
  settle (streamEntry os) calls held = some left

/-- The call neither opens nor closes a stream. -/
def CLib.SysCall.isQuiet : SysCall → Bool
  | .lstat _ | .stat _ | .free => true
  | _ => false

theorem leaves_of_quiet {os : Os} {calls : List SysCall}
    (h : ∀ c ∈ calls, c.isQuiet = true) (held : List StreamKind) : Leaves os held calls held := by
  apply settle_of_none
  intro c hc
  have hquiet := h c hc
  cases c <;> first | rfl | exact absurd hquiet (by simp [SysCall.isQuiet])

theorem Leaves.append {os : Os} {calls more : List SysCall} {held between left : List StreamKind}
    (h : Leaves os held calls between) (hmore : Leaves os between more left) :
    Leaves os held (calls ++ more) left := by
  unfold Leaves at h ⊢
  rw [settle_append, h]
  exact hmore

/-! ## Calls -/

section Calls

variable (os : Os)

/-- Closing a handle closes what is in it. -/
theorem vfsCloseHandle_traces (handle : VfsHandle) :
    Exec.Traces (vfsCloseHandle handle) os fun _ calls => Leaves os handle.streams calls [] := by
  unfold vfsCloseHandle VfsHandle.streams
  cases handle.type with
  | dirHandle =>
    cases handle.dir with
    | none => exact .last rfl
    | some dir => exact .call (.last rfl)
  | fileHandle =>
    cases handle.file with
    | none => exact .last rfl
    | some file => exact .call (.last rfl)

/-- Close a handle and return. -/
theorem traces_close {α : Type} {handle : VfsHandle} {a : α} {R : α → List SysCall → Prop}
    (h : ∀ calls, Leaves os handle.streams calls [] → R a calls) :
    Exec.Traces (do vfsCloseHandle handle; return a) os R := by
  apply (vfsCloseHandle_traces os handle).bind
  intro _ calls hcalls
  refine .pure ?_
  rw [List.append_nil]
  exact h calls hcalls

/-- The calls that open and close nothing. -/
abbrev Quiet {α : Type} (x : Exec α) : Prop := Exec.Only (fun c => c.isQuiet = true) x os

/-- A handle without streams is closed quietly. -/
theorem quiet_close {α : Type} {handle : VfsHandle} (h : handle.type = .fileHandle)
    (hfile : handle.file = none) (a : α) : Quiet os (do vfsCloseHandle handle; return a) := by
  unfold vfsCloseHandle
  rw [h, hfile]
  exact .call rfl (.pure a)

theorem pathContainsSymlink_quiet (path : CStr) : Quiet os (pathContainsSymlink path) := by
  unfold pathContainsSymlink
  rw [pathSplit_eq]
  generalize splitCalls path = calls
  generalize ({} : SymlinkCheckResponse) = ctx
  induction calls generalizing ctx with
  | nil => exact .pure _
  | cons call calls ih =>
    rw [runCalls, pathContainsSymlinkCallback, bind_assoc]
    refine .call rfl ?_
    rw [pure_bind]
    exact .ite (fun _ => ih _) fun _ => .pure _

theorem sanitizePath_quiet (cwd path : CStr) : Quiet os (sanitizePath cwd path) := by
  have habs : ∀ path, Quiet os (sanitizeAbsolutePath path) := by
    intro path
    unfold sanitizeAbsolutePath
    refine .ite (fun _ => .pure _) fun _ => .checked fun size _ => ?_
    apply Exec.Only.malloc
    intro ok
    split
    · exact .pure _
    · exact .checked fun a _ => .pure _
  exact .ite (fun _ => .checked fun _ _ => habs _) fun _ => habs _

theorem vfsMapPath_quiet (vfs : Vfs) (lookup : Option VfsLookupResult)
    (virtualPath : Option CStr) : Quiet os (vfsMapPath vfs lookup virtualPath) := by
  unfold vfsMapPath
  split
  · exact .pure _
  · exact .pure _
  refine .ite (fun _ => .pure _) fun _ => ?_
  split
  · exact .pure _
  refine .ite (fun _ => .pure _) fun _ => .ite (fun _ => ?_) fun _ => ?_
  · exact .malloc fun ok => .ite (fun _ => .pure _) fun _ => .checked fun a _ => .pure _
  · exact .malloc fun ok => .ite (fun _ => .pure _) fun _ => .checked fun a _ => .pure _

/-- Opening a node opens no stream yet. -/
theorem vfsOpenNode_quiet (vfs : Vfs) (path : Option CStr) : Quiet os (vfsOpenNode vfs path) := by
  have hclose : ∀ {handle : VfsHandle} (r : Vfs × OpenNodeExit), handle.type = .fileHandle →
      handle.file = none → Quiet os (do vfsCloseHandle handle; return r) :=
    fun r h hfile => quiet_close os h hfile r
  unfold vfsOpenNode
  cases path with
  | none => exact .pure _
  | some path =>
    refine .ite (fun _ => .pure _) fun _ => ?_
    refine .malloc fun ok => .ite (fun _ => .pure _) fun _ => ?_
    apply (sanitizePath_quiet os _ _).bind
    intro sanitized
    cases sanitized with
    | none => exact hclose _ rfl rfl
    | some virtualPath =>
      dsimp only
      split
      · exact hclose _ rfl rfl
      refine .ite (fun _ => hclose _ rfl rfl) fun _ => .ite (fun _ => hclose _ rfl rfl) fun _ => ?_
      refine .ite (fun _ => hclose _ rfl rfl) fun _ => .ite (fun _ => .pure _) fun _ => ?_
      apply (vfsMapPath_quiet os _ _ _).bind
      rintro ⟨vfs', mapped⟩
      cases mapped with
      | none => exact hclose _ rfl rfl
      | some mappedPath =>
        refine .ite (fun _ => .pure _) fun _ => ?_
        apply (pathContainsSymlink_quiet os _).bind
        intro symlink
        refine .ite (fun _ => hclose _ rfl rfl) fun _ => ?_
        exact .ite (fun _ => hclose _ rfl rfl) fun _ => .pure _

/-- There is no stream in the node that is opened. -/
def EmptyNode (exit : OpenNodeExit) : Prop :=
  ∀ handle, exit = .opened handle → handle.type = .fileHandle ∧ handle.file = none

theorem vfsOpenNode_empty (vfs : Vfs) (path : Option CStr) :
    Exec.Traces (vfsOpenNode vfs path) os fun r calls =>
      EmptyNode r.2 ∧ ∀ c ∈ calls, c.isQuiet = true := by
  have hempty : Exec.Yields (vfsOpenNode vfs path) fun r => EmptyNode r.2 := by
    intro os w r w' hrun handle hexit
    have hnode := (vfsOpenNode_ifReturns vfs path os w).result hrun
    obtain ⟨-, p, -, rfl⟩ := hnode.opened handle hexit
    exact ⟨rfl, rfl⟩
  exact Exec.Traces.yields (vfsOpenNode_quiet os vfs path) hempty

/-- What is done with a node decides what is left open. -/
theorem vfsOpenNode_bind_leaves {β : Type} (vfs : Vfs) (path : Option CStr)
    {f : Vfs × OpenNodeExit → Exec β} {left : β → List StreamKind}
    (hf : ∀ vfs' exit, EmptyNode exit →
      Exec.Traces (f (vfs', exit)) os fun b more => Leaves os [] more (left b)) :
    Exec.Traces (vfsOpenNode vfs path >>= f) os fun b calls => Leaves os [] calls (left b) := by
  apply Exec.Traces.bind (vfsOpenNode_empty os vfs path)
  rintro ⟨vfs', exit⟩ calls ⟨hexit, hquiet⟩
  apply (hf vfs' exit hexit).mono
  intro b more hmore
  exact (leaves_of_quiet hquiet []).append hmore

/-- The streams that a caller is given. -/
def givenStreams (code : VfsError) (handle : Option VfsHandle) : List StreamKind :=
  if code = .ok then handle.elim [] VfsHandle.streams else []

theorem givenStreams_of_ne {code : VfsError} (h : code ≠ .ok) (handle : Option VfsHandle) :
    givenStreams code handle = [] := if_neg h

/-- What `vfs_opendir` opens is in the handle that it gives. -/
theorem vfsOpendir_traces (vfs : Vfs) (path : Option CStr) :
    Exec.Traces (vfsOpendir vfs path) os fun r calls =>
      Leaves os [] calls (givenStreams r.2.1 r.2.2) := by
  apply vfsOpenNode_bind_leaves
  intro vfs' exit hexit
  cases exit with
  | opened handle =>
    refine Exec.Traces.opendir fun _ => .pure ?_
    cases hopen : os.opendir handle.mappedPath <;>
      simp [Leaves, settle, streamEntry, givenStreams, VfsHandle.streams, hopen, Except.toOption]
  | _ => exact .pure rfl

/-- What `vfs_open` opens is in the handle that it gives. -/
theorem vfsOpen_traces (vfs : Vfs) (path : Option CStr) (mode : VfsFilemode) :
    Exec.Traces (vfsOpen vfs path mode) os fun r calls =>
      Leaves os [] calls (givenStreams r.2.1 r.2.2) := by
  apply vfsOpenNode_bind_leaves
  intro vfs' exit hexit
  cases exit with
  | opened handle =>
    have hempty : ({ handle with type := .fileHandle } : VfsHandle).streams = [] := by
      unfold VfsHandle.streams
      simp [(hexit handle rfl).2]
    -- an exit that closes the handle gives nothing
    have hclose : ∀ {code : VfsError}, code ≠ .ok → Exec.Traces (do
          vfsCloseHandle { handle with type := .fileHandle }
          return (vfs', code, some { handle with type := .fileHandle })) os
        fun r more => Leaves os [] more (givenStreams r.2.1 r.2.2) := by
      intro code hcode
      apply traces_close
      intro more hmore
      rw [givenStreams_of_ne hcode]
      rwa [hempty] at hmore
    apply Exec.Traces.call
    dsimp only
    split
    · next errorCode hrefusal =>
      have hrefused : statRefusal mode (os.stat handle.mappedPath) = some errorCode := hrefusal
      exact hclose (statRefusal_ne hrefused).1
    · split
      · exact hclose (by simp)
      apply Exec.Traces.call
      cases hopen : os.fopen handle.mappedPath (modeStringMapping mode) with
      | error errno =>
        apply (hclose (vfsErrnoToVfsError_ne errno).1).mono
        intro r more hmore
        simpa [Leaves, settle, streamEntry, hopen, Except.toOption] using hmore
      | ok _ =>
        refine .pure ?_
        simp [Leaves, settle, streamEntry, givenStreams, VfsHandle.streams, hopen,
          Except.toOption]
  | _ => exact .pure rfl

theorem vfsSetCwd_quiet (vfs : Vfs) (newCwd : CStr) : Quiet os (vfsSetCwd vfs newCwd) := by
  unfold vfsSetCwd
  refine .ite (fun _ => .pure _) fun _ => ?_
  dsimp only
  split
  · rw [pure_bind]
    exact .ite (fun _ => .pure _) fun _ => .checked fun a _ => .pure _
  · exact .malloc fun ok => .ite (fun _ => .pure _) fun _ => .checked fun a _ => .pure _

/-- A node that is opened and closed again opens no stream. -/
theorem vfsOpenNode_bind_quiet {β : Type} (vfs : Vfs) (path : Option CStr)
    {f : Vfs × OpenNodeExit → Exec β}
    (hf : ∀ vfs' exit, EmptyNode exit → Quiet os (f (vfs', exit))) :
    Quiet os (vfsOpenNode vfs path >>= f) := by
  apply Exec.Traces.bind (vfsOpenNode_empty os vfs path)
  rintro ⟨vfs', exit⟩ calls ⟨hexit, hquiet⟩
  apply (hf vfs' exit hexit).mono
  intro b more hmore
  exact List.forall_mem_append.mpr ⟨hquiet, hmore⟩

theorem vfsChdir_quiet (vfs : Vfs) (path : Option CStr) : Quiet os (vfsChdir vfs path) := by
  apply vfsOpenNode_bind_quiet
  intro vfs' exit hexit
  cases exit with
  | opened handle =>
    obtain ⟨htype, hfile⟩ := hexit handle rfl
    have hclose : ∀ r : Vfs × VfsError, Quiet os (do vfsCloseHandle handle; return r) :=
      fun r => quiet_close os htype hfile r
    have hmove : Quiet os (do
        let moved ← vfsSetCwd vfs' handle.virtualPath
        vfsCloseHandle handle
        return (moved.2, if moved.1 then VfsError.ok else VfsError.internalError)) :=
      (vfsSetCwd_quiet os vfs' _).bind fun moved => hclose _
    refine .ite (fun _ => hmove) fun _ => .call rfl ?_
    split
    · exact hclose _
    · exact .ite (fun _ => hclose _) fun _ => hmove
  | _ => exact .pure _

theorem vfsStat_quiet (vfs : Vfs) (path : Option CStr) (dirent : VfsDirent) :
    Quiet os (vfsStat vfs path dirent) := by
  apply vfsOpenNode_bind_quiet
  intro vfs' exit hexit
  cases exit with
  | opened handle =>
    obtain ⟨htype, hfile⟩ := hexit handle rfl
    have hclose : ∀ r : Vfs × VfsError × VfsDirent,
        Quiet os (do vfsCloseHandle handle; return r) := fun r => quiet_close os htype hfile r
    refine .ite (fun _ => .checked fun _ _ => hclose _) fun _ => .call rfl ?_
    split
    · exact hclose _
    · exact .checked fun _ _ => hclose _
  | _ => exact .pure _

/-- Reading a directory keeps what is open in the handle. -/
theorem vfsReaddir_streams {libc : LibC} {vfs vfs' : Vfs} {handle handle' : VfsHandle}
    {code : VfsError} {before after : VfsDirent}
    (h : vfsReaddir libc vfs handle before = some (code, vfs', handle', after)) :
    handle'.streams = handle.streams := by
  have hreal : vfsReaddirReal libc vfs handle before = some (code, vfs', handle', after) →
      handle'.streams = handle.streams := by
    intro h
    unfold vfsReaddirReal at h
    cases hdir : handle.dir with
    | none =>
      rw [hdir] at h
      obtain ⟨-, -, rfl, -⟩ : _ ∧ _ ∧ handle = handle' ∧ _ := by simpa using h
      rfl
    | some dir =>
      rw [hdir] at h
      obtain ⟨⟨code1, vfs1, rest, after1⟩, -, hrest⟩ := Option.bind_eq_some_iff.mp h
      obtain ⟨-, -, rfl, -⟩ : _ ∧ _ ∧ { handle with dir := some { dir with entries := rest } } =
          handle' ∧ _ := by simpa using hrest
      simp [VfsHandle.streams, hdir]
  unfold vfsReaddir at h
  split at h
  · obtain ⟨-, -, rfl, -⟩ : _ ∧ _ ∧ handle = handle' ∧ _ := by simpa using h
    rfl
  split at h
  · obtain ⟨-, -, rfl, -⟩ : _ ∧ _ ∧ handle = handle' ∧ _ := by simpa using h
    rfl
  split at h
  · exact hreal h
  · obtain ⟨list, -, hrest⟩ := Option.bind_eq_some_iff.mp h
    split at hrest
    · obtain ⟨-, -, rfl, -⟩ : _ ∧ _ ∧ { handle with
          internalNodeIndex := handle.internalNodeIndex + 1 } = handle' ∧ _ := by
        simpa using hrest
      rfl
    · exact hreal hrest

end Calls

end Umsftpd
