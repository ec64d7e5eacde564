import Umsftpd.Vfs.AddingRuns
import Umsftpd.Vfs.Readers
import Umsftpd.Vfs.WorkingDirectory

/-!
# The limit on handles

`handles.max_count` is to bound the handles that are open, and `vfs_open_node` compares
`handles.current_count` with it; but nothing counts up when a handle is given out, and
`vfs_close_handle` does not even know the file system. So only the callers keep the limit.
-/

namespace Umsftpd

open CLib Paths

/-! ## Calls and handles -/

/-- The file system, and the handles that its caller was given and has not closed. -/
structure HandleState where
  vfs : Vfs
  opened : List VfsHandle

/-- A call, as far as handles go: one that opens, with its answer, or another one. -/
inductive HandleCall where
  | opening (code : VfsError)
  | other

/-- The handle is the caller's when the answer is `VFS_OK`. -/
def givenHandle (code : VfsError) (handle : Option VfsHandle) : List VfsHandle :=
  if code = .ok then handle.toList else []

/-- One call that returns, whatever the system answers and whichever allocations fail. -/
inductive HandleStep : HandleState → HandleCall → HandleState → Prop
  | addInode {vfs vfs' : Vfs} {opened : List VfsHandle} (d : Declaration) (os : Os) (w w' : World)
      (ok : Bool) (h : d.add vfs os w = some ((ok, vfs'), w')) :
      HandleStep ⟨vfs, opened⟩ .other ⟨vfs', opened⟩
  | freeze (libc : LibC) (vfs : Vfs) (opened : List VfsHandle) :
      HandleStep ⟨vfs, opened⟩ .other ⟨vfsFreezeInodes libc vfs, opened⟩
  | opendir {vfs vfs' : Vfs} {opened : List VfsHandle} (path : Option CStr) (os : Os)
      (w w' : World) (code : VfsError) (handle : Option VfsHandle)
      (h : vfsOpendir vfs path os w = some ((vfs', code, handle), w')) :
      HandleStep ⟨vfs, opened⟩ (.opening code) ⟨vfs', givenHandle code handle ++ opened⟩
  | open {vfs vfs' : Vfs} {opened : List VfsHandle} (path : Option CStr) (mode : VfsFilemode)
      (os : Os) (w w' : World) (code : VfsError) (handle : Option VfsHandle)
      (h : vfsOpen vfs path mode os w = some ((vfs', code, handle), w')) :
      HandleStep ⟨vfs, opened⟩ (.opening code) ⟨vfs', givenHandle code handle ++ opened⟩
  | stat {vfs vfs' : Vfs} {opened : List VfsHandle} (path : Option CStr) (before after : VfsDirent)
      (os : Os) (w w' : World) (code : VfsError)
      (h : vfsStat vfs path before os w = some ((vfs', code, after), w')) :
      HandleStep ⟨vfs, opened⟩ .other ⟨vfs', opened⟩
  | chdir {vfs vfs' : Vfs} {opened : List VfsHandle} (path : Option CStr) (os : Os)
      (w w' : World) (code : VfsError) (h : vfsChdir vfs path os w = some ((vfs', code), w')) :
      HandleStep ⟨vfs, opened⟩ .other ⟨vfs', opened⟩
  | closeHandle {vfs : Vfs} {before after : List VfsHandle} (handle : VfsHandle) (os : Os)
      (w w' : World) (h : vfsCloseHandle handle os w = some ((), w')) :
      HandleStep ⟨vfs, before ++ handle :: after⟩ .other ⟨vfs, before ++ after⟩

/-- A run with the state each of its calls is made in. -/
inductive HandleRun (start : HandleState) : List (HandleState × HandleCall) → HandleState → Prop
  | start : HandleRun start [] start
  | step {calls : List (HandleState × HandleCall)} {s s' : HandleState} {call : HandleCall}
      (hrun : HandleRun start calls s) (hstep : HandleStep s call s') :
      HandleRun start (calls ++ [(s, call)]) s'

/-- There are no more handles than allowed. -/
def HandleState.Within (s : HandleState) : Prop := s.opened.length ≤ s.vfs.handles.maxCount

/-- The limit is kept: there are never too many handles, and opening one more is refused. -/
structure LimitKept (calls : List (HandleState × HandleCall)) (s : HandleState) : Prop where
  within : s.Within ∧ ∀ call ∈ calls, call.1.Within
  refused : ∀ call ∈ calls, ∀ code, call.2 = .opening code →
    call.1.vfs.handles.maxCount ≤ call.1.opened.length → code = .outOfHandles

/-! ## What a call does to the counts -/

theorem length_givenHandle (code : VfsError) (handle : Option VfsHandle) :
    (givenHandle code handle).length ≤ 1 := by
  unfold givenHandle
  split
  · cases handle <;> simp
  · simp

theorem ChdirOutcome.handles {vfs vfs' : Vfs} {path : Option CStr} {code : VfsError}
    (h : ChdirOutcome vfs path vfs' code) : vfs'.handles = vfs.handles := by
  by_cases hok : code = .ok
  · obtain ⟨p, -, -, hmoved⟩ := h.moved hok
    rw [hmoved.rest]
  · exact (h.kept hok).handles

/-- What a call leaves: the counts as they are, at most one handle more where it opens, none more
otherwise. And no call runs out of handles. -/
structure Uncounted (s : HandleState) (call : HandleCall) (s' : HandleState) : Prop where
  ready : s'.vfs.Ready
  handles : s'.vfs.handles = s.vfs.handles
  opening : ∀ code, call = .opening code →
    code ≠ .outOfHandles ∧ s'.opened.length ≤ s.opened.length + 1
  other : call = .other → s'.opened.length ≤ s.opened.length

theorem Uncounted.of_opening {vfs vfs' : Vfs} {opened : List VfsHandle} {code : VfsError}
    (handle : Option VfsHandle) (hready : vfs.Ready) (h : OpenOutcome vfs vfs' code) :
    Uncounted ⟨vfs, opened⟩ (.opening code) ⟨vfs', givenHandle code handle ++ opened⟩ := by
  refine ⟨h.resorted.ready hready, h.resorted.handles, ?_, nofun⟩
  rintro code' ⟨⟩
  refine ⟨fun hcode => Nat.not_le.mpr hready.handles (h.exhausted hcode), ?_⟩
  have hgiven := length_givenHandle code handle
  dsimp only
  rw [List.length_append]
  omega

/-- The step. -/
theorem HandleStep.uncounted {s s' : HandleState} {call : HandleCall}
    (hstep : HandleStep s call s') (hready : s.vfs.Ready) : Uncounted s call s' := by
  cases hstep with
  | addInode d os w w' ok h =>
    have hsame := (d.add_extends _ os w _ w' h).settings
    exact ⟨hsame.ready hready, hsame.handles, nofun, fun _ => Nat.le_refl _⟩
  | freeze libc vfs opened =>
    exact ⟨hready.freeze libc, vfsFreezeInodes_handles libc vfs, nofun, fun _ => Nat.le_refl _⟩
  | opendir path os w w' code handle h =>
    exact .of_opening handle hready ((vfsOpendir_yields _ path).result h)
  | «open» path mode os w w' code handle h =>
    exact .of_opening handle hready ((vfsOpen_yields _ path mode).result h)
  | stat path before after os w w' code h =>
    have hsame := vfsStat_yields _ path before os w _ w' h
    exact ⟨hsame.ready hready, hsame.handles, nofun, fun _ => Nat.le_refl _⟩
  | chdir path os w w' code h =>
    have hchdir := (vfsChdir_yields _ path).result h
    refine ⟨?_, hchdir.handles, nofun, fun _ => Nat.le_refl _⟩
    by_cases hok : code = .ok
    · obtain ⟨p, -, -, hmoved⟩ := hchdir.moved hok
      exact hmoved.ready hready
    · exact (hchdir.kept hok).ready hready
  | closeHandle handle os w w' h =>
    refine ⟨hready, rfl, nofun, fun _ => ?_⟩
    simp

/-! ## Runs -/

theorem HandleRun.ready {start s : HandleState} {calls : List (HandleState × HandleCall)}
    (hrun : HandleRun start calls s) (hready : start.vfs.Ready) :
    s.vfs.Ready ∧ ∀ call ∈ calls, call.1.vfs.Ready := by
  induction hrun with
  | start => exact ⟨hready, by simp⟩
  | step hrun hstep ih =>
    refine ⟨(hstep.uncounted ih.1).ready, fun call hcall => ?_⟩
    rcases List.mem_append.mp hcall with hcall | hcall
    · exact ih.2 call hcall
    · rw [List.mem_singleton.mp hcall]
      exact ih.1

/-- **The limit on handles.** In a run from a file system without handles the limit is kept if and
only if nothing is opened while as many handles are open as are allowed: the code never refuses
it. -/
theorem handleRun_limitKept_iff {baseFlags : Flags} {calls : List (HandleState × HandleCall)}
    {s : HandleState} (hrun : HandleRun ⟨initialVfs baseFlags, []⟩ calls s) :
    LimitKept calls s ↔ ∀ call ∈ calls, ∀ code, call.2 = .opening code →
      call.1.opened.length < call.1.vfs.handles.maxCount := by
  have hready : (initialVfs baseFlags).Ready := (initialVfs_valid baseFlags).ready
  induction hrun with
  | start => exact ⟨by simp, fun _ => ⟨⟨Nat.zero_le _, by simp⟩, by simp⟩⟩
  | @step calls s s' call hrun hstep ih =>
    have hstep := hstep.uncounted (hrun.ready hready).1
    simp only [List.forall_mem_append, List.forall_mem_singleton]
    constructor
    · intro h
      have hwithin := (List.forall_mem_append.mp h.within.2).2 (s, call) (List.mem_singleton_self _)
      refine ⟨ih.mp ⟨⟨hwithin, (List.forall_mem_append.mp h.within.2).1⟩,
        (List.forall_mem_append.mp h.refused).1⟩, fun code hcode => ?_⟩
      by_contra hfull
      have hrefused := (List.forall_mem_append.mp h.refused).2 (s, call)
        (List.mem_singleton_self _) code hcode (Nat.not_lt.mp hfull)
      exact (hstep.opening code hcode).1 hrefused
    · rintro ⟨hcalls, hroom⟩
      have h : LimitKept calls s := ih.mpr hcalls
      refine ⟨⟨?_, ?_⟩, ?_⟩
      · -- at most one handle more, and there was room for it
        unfold HandleState.Within
        rw [hstep.handles]
        cases call with
        | opening code =>
          have hlen := (hstep.opening code rfl).2
          have hlt := hroom code rfl
          omega
        | other =>
          have hlen := hstep.other rfl
          have hle : s.opened.length ≤ s.vfs.handles.maxCount := h.within.1
          omega
      · exact List.forall_mem_append.mpr ⟨h.within.2, by simpa using h.within.1⟩
      · refine List.forall_mem_append.mpr ⟨h.refused, ?_⟩
        rintro _ hcall code hcode hfull
        obtain rfl := List.mem_singleton.mp hcall
        exact absurd hfull (Nat.not_le.mpr (hroom code hcode))

/-! ## Runs that only open -/

/-- The root on `/srv`, and nothing else. -/
def rootOnly : Declaration := ⟨"/".toList, some "/srv".toList, 0, 0⟩

theorem rootOnly_opens :
    ∃ vfs1 handle, (rootOnly.add (initialVfs 0)).eval Os.empty = some (true, vfs1) ∧
      (vfsFreezeInodes LibC.reference vfs1).handles.maxCount = 10 ∧
      (vfsOpendir (vfsFreezeInodes LibC.reference vfs1) (some "/".toList)).eval
          (Os.oneFile fileX) = some (vfsFreezeInodes LibC.reference vfs1, .ok, some handle) := by
  have hrun : (((rootOnly.add (initialVfs 0)).eval Os.empty).bind fun added =>
      ((vfsOpendir (vfsFreezeInodes LibC.reference added.2) (some "/".toList)).eval
        (Os.oneFile fileX)).bind fun opened => opened.2.2.map fun _ =>
          (added.1, (vfsFreezeInodes LibC.reference added.2).handles.maxCount, opened.2.1)) =
      some (true, 10, .ok) := by
    decide
  obtain ⟨⟨ok, vfs1⟩, hadd, h⟩ := Option.bind_eq_some_iff.mp hrun
  obtain ⟨⟨vfs2, code, handle⟩, hopendir, h⟩ := Option.bind_eq_some_iff.mp h
  obtain ⟨handle, rfl, heq⟩ := Option.map_eq_some_iff.mp h
  obtain ⟨rfl, hmax, rfl⟩ : ok = true ∧
      (vfsFreezeInodes LibC.reference vfs1).handles.maxCount = 10 ∧ code = .ok := by
    simpa using heq
  have hreach : Reachable (vfsFreezeInodes LibC.reference vfs1) :=
    ((Reachable.init 0).step (.addInode rootOnly Os.empty true hadd)).step (.freeze _ _)
  obtain ⟨rfl, -⟩ := vfsOpendir_eval hopendir
  exact ⟨vfs1, handle, hadd, hmax, hopendir⟩

/-- Any number of handles can be open. -/
theorem handleRun_opens (n : Nat) :
    ∃ calls s, HandleRun ⟨initialVfs 0, []⟩ calls s ∧ s.opened.length = n ∧
      s.vfs.handles.maxCount = 10 ∧
      ∀ call ∈ calls, ∀ code, call.2 = .opening code →
        call.1.opened.length < n ∧ call.1.vfs.handles.maxCount = 10 := by
  obtain ⟨vfs1, handle, hadd, hmax, hopendir⟩ := rootOnly_opens
  obtain ⟨⟨⟨ok, vfs2⟩, w⟩, hadd', heq⟩ := Option.map_eq_some_iff.mp hadd
  obtain ⟨rfl, rfl⟩ : ok = true ∧ vfs2 = vfs1 := by simpa using heq
  obtain ⟨⟨opened, w'⟩, hopendir', rfl⟩ := Option.map_eq_some_iff.mp hopendir
  -- the same directory again and again, in a state that stays the same
  have hopens : ∃ calls, HandleRun ⟨initialVfs 0, []⟩ calls
        ⟨vfsFreezeInodes LibC.reference vfs2, List.replicate n handle⟩ ∧
      ∀ call ∈ calls, ∀ code, call.2 = .opening code →
        call.1.opened.length < n ∧ call.1.vfs.handles.maxCount = 10 := by
    induction n with
    | zero =>
      refine ⟨_, .step (.step .start (.addInode rootOnly Os.empty {} w true hadd'))
        (.freeze LibC.reference vfs2 []), ?_⟩
      simp
    | succ n ih =>
      obtain ⟨calls, hrun, hcalls⟩ := ih
      refine ⟨_, .step hrun (.opendir (some "/".toList) (Os.oneFile fileX) {} w' .ok
        (some handle) hopendir'), ?_⟩
      intro call hcall code hcode
      rcases List.mem_append.mp hcall with hcall | hcall
      · obtain ⟨hlt, hten⟩ := hcalls call hcall code hcode
        exact ⟨by omega, hten⟩
      · rw [List.mem_singleton.mp hcall]
        exact ⟨by simp, hmax⟩
  obtain ⟨calls, hrun, hcalls⟩ := hopens
  exact ⟨calls, _, hrun, List.length_replicate, hmax, hcalls⟩

/-- Ten handles are within the limit. -/
theorem handleRun_limitKept_ten :
    ∃ calls s, HandleRun ⟨initialVfs 0, []⟩ calls s ∧ s.opened.length = 10 ∧ LimitKept calls s := by
  obtain ⟨calls, s, hrun, hten, -, hcalls⟩ := handleRun_opens 10
  refine ⟨calls, s, hrun, hten, (handleRun_limitKept_iff hrun).mpr ?_⟩
  intro call hcall code hcode
  obtain ⟨hlt, hmax⟩ := hcalls call hcall code hcode
  rw [hmax]
  exact hlt

/-- The eleventh is given as well. -/
theorem handleRun_elevenHandles :
    ∃ calls s, HandleRun ⟨initialVfs 0, []⟩ calls s ∧ s.opened.length = 11 ∧
      s.vfs.handles.maxCount = 10 ∧ ¬LimitKept calls s := by
  obtain ⟨calls, s, hrun, heleven, hmax, -⟩ := handleRun_opens 11
  refine ⟨calls, s, hrun, heleven, hmax, fun h => ?_⟩
  have hwithin : s.opened.length ≤ s.vfs.handles.maxCount := h.within.1
  omega

end Umsftpd
