import Umsftpd.Vfs.NodeRuns

/-!
# Calls under any outcome

What the calls of the interface do from any state, when allocations fail as well: which handles they
give and close, and which files they open. Each of them leaves the file system as it was up to the
order of names, except for a `vfs_chdir` that succeeds. They come back from every path whose length
an `int` holds, `vfs_opendir` only if it does not come to `opendir(NULL)`.
-/

namespace Umsftpd

open CLib Paths

/-! ## Opening a node -/

theorem CLib.Exec.Always.close {α : Type} {Q : α → Prop} {a : α} (handle : VfsHandle) (h : Q a) :
    Exec.Always (do vfsCloseHandle handle; return a) Q :=
  fun _ _ => Exec.Returns.close handle fun _ _ => h

/-- What comes of opening a node: no more changes than the error, and none where a handle is given,
which is for the path that was asked for; and only the count of handles makes the call run out of
them. -/
structure NodeOutcome (vfs : Vfs) (path : Option CStr) (r : Vfs × OpenNodeExit) : Prop where
  resorted : vfs.Resorted r.1
  opened : ∀ handle, r.2 = .opened handle → r.1 = vfs ∧ ∃ p, path = some p ∧
    Sanitizable vfs.cwd.path p ∧ handle.virtualPath = absPath (resolve vfs.cwd.path p)
  exhausted : r.2 = .outOfHandles → vfs.handles.maxCount ≤ vfs.handles.currentCount

theorem NodeRun.outcome {vfs vfs' : Vfs} {os : Os} {w w' : World} {path : Option CStr}
    {exit : OpenNodeExit} (h : NodeRun vfs os w path vfs' exit w') :
    NodeOutcome vfs path (vfs', exit) := by
  refine ⟨h.resorted, ?_, h.exhausted⟩
  rintro handle rfl
  obtain ⟨hvfs, -, p, hp, hopens, rfl⟩ := NodeRun.node h
  exact ⟨hvfs, p, hp, hopens.sanitizable, rfl⟩

theorem vfsOpenNode_yields (vfs : Vfs) (path : Option CStr) :
    Exec.Yields (vfsOpenNode vfs path) (NodeOutcome vfs path) :=
  fun os w _ _ hrun => (vfsOpenNode_ifReturns vfs path os w _ _ hrun).outcome

/-- What comes of opening a directory or a file: no more changes than the error, and only the count
of handles makes the call run out of them. -/
structure OpenOutcome (vfs vfs' : Vfs) (code : VfsError) : Prop where
  resorted : vfs.Resorted vfs'
  exhausted : code = .outOfHandles → vfs.handles.maxCount ≤ vfs.handles.currentCount

theorem NodeOutcome.exit {vfs : Vfs} {path : Option CStr} {r : Vfs × OpenNodeExit}
    (h : NodeOutcome vfs path r) : OpenOutcome vfs r.1 r.2.code := by
  refine ⟨h.resorted, fun hcode => h.exhausted ?_⟩
  obtain ⟨vfs', exit⟩ := r
  cases exit <;> first | rfl | exact absurd hcode (by simp [OpenNodeExit.code])

/-- What `errno` stands for is an error, and not that of the count of handles. -/
theorem vfsErrnoToVfsError_ne (errnum : Errno) :
    vfsErrnoToVfsError errnum ≠ .ok ∧ vfsErrnoToVfsError errnum ≠ .outOfHandles := by
  unfold vfsErrnoToVfsError
  split
  · simp
  · split <;> simp

/-! ## Directories -/

/-- The directory handle of a node. -/
def Vfs.openDirectory (vfs : Vfs) (os : Os) (cs : List Name) : VfsHandle :=
  { vfs.openHandle cs with
    type := .dirHandle, dir := (os.opendir (vfs.openHandle cs).mappedPath).toOption }

/-- What comes of `vfs_opendir`. -/
structure OpendirRun (vfs : Vfs) (os : Os) (w : World) (path : Option CStr)
    (r : Vfs × VfsError × Option VfsHandle) (w' : World) : Prop where
  outcome : OpenOutcome vfs r.1 r.2.1
  ok_iff : r.2.1 = .ok ↔ ∃ p, path = some p ∧ NodeOpens vfs os w p
  opened : ∀ handle, r.2.2 = some handle → r.2.1 = .ok ∧ r.1 = vfs ∧
    ∃ p, path = some p ∧ handle = vfs.openDirectory os (vfs.resolved p)
  given : r.2.1 = .ok → r.2.2 ≠ none
  freed : w'.freed = w.freed + if r.2.1 = .ok then 0 else (handleAllocated vfs path w).toNat

/-- What opens is mapped, if it matters. -/
def Vfs.OpensMapped (vfs : Vfs) (os : Os) (w : World) (path : Option CStr) : Prop :=
  ∀ p, path = some p → NodeOpens vfs os w p → vfs.mountAt (vfs.resolved p) = none →
    os.opendirNull = true

/-- Every directory that is an inode is mapped. -/
def Vfs.Mounted (vfs : Vfs) : Prop := ∀ cs, vfs.nodeAt cs ≠ none → vfs.mountAt cs ≠ none

theorem Vfs.OpensMapped.of_mounted {vfs : Vfs} {os : Os} (h : os.opendirNull = true ∨ vfs.Mounted)
    (w : World) (path : Option CStr) : vfs.OpensMapped os w path := by
  intro p _ hopens hunmapped
  refine h.resolve_right fun hmounted => ?_
  rcases hopens.there with hnode | hmount
  · exact hmounted _ hnode hunmapped
  · exact hmount hunmapped

theorem vfsOpendir_returns_of {vfs : Vfs} {path : Option CStr} {os : Os} {w : World}
    (h : Exec.Returns (vfsOpenNode vfs path) os w fun r w' => NodeRun vfs os w path r.1 r.2 w')
    (hmapped : vfs.OpensMapped os w path) :
    Exec.Returns (vfsOpendir vfs path) os w (OpendirRun vfs os w path) := by
  unfold vfsOpendir
  apply h.bind
  rintro ⟨vfs', exit⟩ w1 (hnode : NodeRun vfs os w path vfs' exit w1)
  cases exit with
  | opened node =>
    obtain ⟨rfl, hpassed, p, rfl, hopens, rfl⟩ := NodeRun.node hnode
    have hpath : (vfs'.openHandle (vfs'.resolved p)).mappedPath = none → os.opendirNull = true :=
      fun hnone => hmapped p rfl hopens (Option.map_eq_none_iff.mp hnone)
    apply Exec.Returns.opendir hpath
    refine .pure ⟨⟨.refl _, nofun⟩, iff_of_true rfl ⟨p, rfl, hopens⟩, ?_, by simp, ?_⟩
    · rintro handle ⟨⟩
      exact ⟨rfl, rfl, p, rfl, rfl⟩
    · exact (w1.freed_call (by simp)).trans hpassed.freed
  | _ => exact .pure ⟨hnode.outcome.exit, hnode.opens, nofun, nofun, hnode.passed.freed⟩

theorem vfsOpendir_returns {vfs : Vfs} {path : Option CStr} {os : Os} {w : World}
    (h : vfs.Takes path) (hmapped : vfs.OpensMapped os w path) :
    Exec.Returns (vfsOpendir vfs path) os w (OpendirRun vfs os w path) :=
  vfsOpendir_returns_of (vfsOpenNode_returns h os w) hmapped

/-- A run that comes back has not come to `opendir(NULL)`, or has survived it. -/
theorem vfsOpendir_mapped {vfs : Vfs} {path : Option CStr} {os : Os} {w w' : World}
    {r : Vfs × VfsError × Option VfsHandle} (hrun : vfsOpendir vfs path os w = some (r, w')) :
    vfs.OpensMapped os w path := by
  rintro p rfl hopens hnone
  unfold vfsOpendir at hrun
  rw [Exec.bind_apply] at hrun
  obtain ⟨⟨⟨vfs', exit⟩, w1⟩, hnode, hrest⟩ := Option.bind_eq_some_iff.mp hrun
  have hnode := vfsOpenNode_ifReturns vfs (some p) os w _ _ hnode
  obtain ⟨node, rfl⟩ := OpenNodeExit.code_eq_ok.mp (hnode.opens.mpr ⟨p, rfl, hopens⟩)
  obtain ⟨-, -, _, ⟨⟩, -, rfl⟩ := NodeRun.node hnode
  rw [Exec.bind_apply] at hrest
  obtain ⟨⟨answer, w2⟩, hopendir, -⟩ := Option.bind_eq_some_iff.mp hrest
  apply (Exec.opendir_eq_some hopendir).2.2
  show (vfs.mountAt (vfs.resolved p)).map _ = none
  rw [hnone, Option.map_none]

theorem vfsOpendir_ifReturns (vfs : Vfs) (path : Option CStr) (os : Os) (w : World) :
    Exec.IfReturns (vfsOpendir vfs path) os w (OpendirRun vfs os w path) := by
  apply Exec.IfReturns.of_returns
  intro r w' hrun
  refine vfsOpendir_returns_of ?_ (vfsOpendir_mapped hrun)
  unfold vfsOpendir at hrun
  exact (vfsOpenNode_ifReturns vfs path os w).of_bind hrun

theorem vfsOpendir_yields (vfs : Vfs) (path : Option CStr) :
    Exec.Yields (vfsOpendir vfs path) fun r => OpenOutcome vfs r.1 r.2.1 :=
  fun os w _ _ hrun => (vfsOpendir_ifReturns vfs path os w _ _ hrun).outcome

/-! ## Files -/

/-- What the answer of `stat` makes `vfs_open` return, if it does not go on. -/
def statRefusal (mode : VfsFilemode) : Except Errno Stat → Option VfsError
  | .error errno =>
    if errno ≠ Errno.ENOENT ∨ (mode = VfsFilemode.read ∧ errno ≠ Errno.ENOENT) then
      some (vfsErrnoToVfsError errno)
    else none
  | .ok statbuf => if !statbuf.isReg then some .notAFile else none

/-- It goes on where there is nothing yet, in every mode, and where there is a regular file. -/
theorem statRefusal_eq_none {mode : VfsFilemode} {answer : Except Errno Stat} :
    statRefusal mode answer = none ↔ answer = .error Errno.ENOENT ∨
      ∃ statbuf, answer = .ok statbuf ∧ statbuf.isReg = true := by
  cases answer with
  | error errno => by_cases hno : errno = Errno.ENOENT <;> simp [statRefusal, hno]
  | ok statbuf => simp [statRefusal]

/-- The code of a refusal comes from errno, or is that of a file that is none. -/
theorem statRefusal_ne {mode : VfsFilemode} {answer : Except Errno Stat} {code : VfsError}
    (h : statRefusal mode answer = some code) : code ≠ .ok ∧ code ≠ .outOfHandles := by
  cases answer with
  | error errno =>
    unfold statRefusal at h
    dsimp only at h
    split at h
    · obtain rfl := Option.some.inj h
      exact vfsErrnoToVfsError_ne errno
    · exact absurd h (by simp)
  | ok statbuf =>
    unfold statRefusal at h
    dsimp only at h
    split at h
    · obtain rfl := Option.some.inj h
      simp
    · exact absurd h (by simp)

/-- `vfs_open` comes to its `fopen`: there is a regular file or nothing at all, and nothing
read-only is to be written. -/
structure ReachesFopen (os : Os) (handle : VfsHandle) (mode : VfsFilemode) : Prop where
  stat : os.stat handle.mappedPath = .error Errno.ENOENT ∨
    ∃ statbuf, os.stat handle.mappedPath = .ok statbuf ∧ statbuf.isReg = true
  writable : hasFlag handle.flags vfsInodeFlagReadOnly = false ∨ mode = .read

/-- ... and the call succeeds. -/
structure FileOpens (os : Os) (handle : VfsHandle) (mode : VfsFilemode) : Prop extends
    ReachesFopen os handle mode where
  fopen : os.fopen handle.mappedPath (modeStringMapping mode) = .ok ()

/-- What comes of `vfs_open`. -/
structure OpenRun (vfs : Vfs) (os : Os) (w : World) (path : Option CStr) (mode : VfsFilemode)
    (r : Vfs × VfsError × Option VfsHandle) (w' : World) : Prop where
  outcome : OpenOutcome vfs r.1 r.2.1
  ok_iff : r.2.1 = .ok ↔ ∃ p, path = some p ∧ NodeOpens vfs os w p ∧
    FileOpens os (vfs.openHandle (vfs.resolved p)) mode
  given_iff : r.2.2 ≠ none ↔ ∃ p, path = some p ∧ NodeOpens vfs os w p
  freed : w'.freed = w.freed + if r.2.1 = .ok then 0 else (handleAllocated vfs path w).toNat
  fopens : ∃ calls, w'.calls = w.calls ++ calls ∧ ∀ q m, SysCall.fopen q m ∈ calls ↔
    ∃ p, path = some p ∧ NodeOpens vfs os w p ∧
      ReachesFopen os (vfs.openHandle (vfs.resolved p)) mode ∧
      q = (vfs.openHandle (vfs.resolved p)).mappedPath ∧ m = modeStringMapping mode

/-- A call that is no `fopen`. -/
def CLib.SysCall.NoFopen (c : SysCall) : Prop := ∀ q m, c ≠ .fopen q m

theorem PassedBy.noFopen {w w' : World} {closed : Nat} (h : PassedBy w w' closed) :
    Passed SysCall.NoFopen w w' closed := by
  refine Passed.mono h ?_
  rintro c hc q m rfl
  exact absurd hc (by simp [SysCall.isPassive])

section

variable {vfs vfs' : Vfs} {os : Os} {w w' : World} {mode : VfsFilemode} {code : VfsError}

/-- An exit in front of `fopen`. -/
theorem OpenRun.refused {path : Option CStr} {handle : Option VfsHandle}
    (houtcome : OpenOutcome vfs vfs' code) (hcode : code ≠ .ok)
    (hgiven : handle ≠ none ↔ ∃ p, path = some p ∧ NodeOpens vfs os w p)
    (hpassed : Passed SysCall.NoFopen w w' (handleAllocated vfs path w).toNat)
    (hno : ∀ p, path = some p → NodeOpens vfs os w p →
      ¬ReachesFopen os (vfs.openHandle (vfs.resolved p)) mode) :
    OpenRun vfs os w path mode (vfs', code, handle) w' := by
  obtain ⟨calls, hcalls, hnofopen⟩ := hpassed.calls
  refine ⟨houtcome, iff_of_false hcode ?_, hgiven, ?_, calls, hcalls, ?_⟩
  · rintro ⟨p, hp, hopens, hfile⟩
    exact hno p hp hopens hfile.toReachesFopen
  · rw [if_neg hcode]
    exact hpassed.freed
  · refine fun q m => iff_of_false (fun hmem => hnofopen _ hmem q m rfl) ?_
    rintro ⟨p, hp, hopens, hreaches, -⟩
    exact hno p hp hopens hreaches

/-- An exit behind `fopen`. -/
theorem OpenRun.reached {p : CStr} {handle : VfsHandle} {w1 : World} (hne : code ≠ .outOfHandles)
    (hopens : NodeOpens vfs os w p)
    (hreaches : ReachesFopen os (vfs.openHandle (vfs.resolved p)) mode)
    (hbefore : Passed SysCall.NoFopen w w1 0)
    (hafter : Passed SysCall.NoFopen { w1 with calls := w1.calls ++
      [.fopen (vfs.openHandle (vfs.resolved p)).mappedPath (modeStringMapping mode)] } w'
      (if code = .ok then 0 else 1))
    (hcode : code = .ok ↔ os.fopen (vfs.openHandle (vfs.resolved p)).mappedPath
      (modeStringMapping mode) = .ok ()) :
    OpenRun vfs os w (some p) mode (vfs, code, some handle) w' := by
  obtain ⟨calls, hcalls, hnofopen⟩ := hbefore.calls
  obtain ⟨calls', hcalls', hnofopen'⟩ := hafter.calls
  refine ⟨⟨.refl vfs, fun h => absurd h hne⟩, ?_, iff_of_true (by simp) ⟨p, rfl, hopens⟩, ?_,
    calls ++
      [.fopen (vfs.openHandle (vfs.resolved p)).mappedPath (modeStringMapping mode)] ++ calls',
    ?_, ?_⟩
  · constructor
    · intro hok
      exact ⟨p, rfl, hopens, hreaches, hcode.mp hok⟩
    · rintro ⟨_, ⟨⟩, -, hfile⟩
      exact hcode.mpr hfile.fopen
  · rw [hopens.allocated]
    exact (hafter.freed.trans (congrArg (· + _) (w1.freed_call (by simp)))).trans
      (congrArg (· + _) hbefore.freed)
  · rw [hcalls']
    simp only [hcalls, List.append_assoc]
  · intro q m
    simp only [List.mem_append, List.mem_singleton, SysCall.fopen.injEq]
    constructor
    · rintro ((hmem | ⟨rfl, rfl⟩) | hmem)
      · exact absurd rfl (hnofopen _ hmem q m)
      · exact ⟨p, rfl, hopens, hreaches, rfl, rfl⟩
      · exact absurd rfl (hnofopen' _ hmem q m)
    · rintro ⟨_, ⟨⟩, -, -, rfl, rfl⟩
      exact .inl (.inr ⟨rfl, rfl⟩)

end

theorem vfsOpen_returns_of {vfs : Vfs} {path : Option CStr} {os : Os} {w : World}
    (h : Exec.Returns (vfsOpenNode vfs path) os w fun r w' => NodeRun vfs os w path r.1 r.2 w')
    (mode : VfsFilemode) :
    Exec.Returns (vfsOpen vfs path mode) os w (OpenRun vfs os w path mode) := by
  unfold vfsOpen
  apply h.bind
  rintro ⟨vfs', exit⟩ w1 (hnode : NodeRun vfs os w path vfs' exit w1)
  cases exit with
  | opened node =>
    obtain ⟨rfl, hpassed, p, rfl, hopens, rfl⟩ := NodeRun.node hnode
    -- an exit that closes the handle and lets the pointer stand
    have hclose : ∀ {code : VfsError} {w2 : World} (handle : VfsHandle),
        code ≠ .ok ∧ code ≠ .outOfHandles → Passed SysCall.NoFopen w w2 0 →
        ¬ReachesFopen os (vfs'.openHandle (vfs'.resolved p)) mode →
        Exec.Returns (do vfsCloseHandle handle; return (vfs', code, some handle)) os w2
          (OpenRun vfs' os w (some p) mode) := by
      rintro code w2 handle ⟨hcode, hne⟩ hpassed hno
      apply Exec.Returns.close
      intro w' hclosed
      refine .refused ⟨.refl _, fun h => absurd h hne⟩ hcode
        (iff_of_true (by simp) ⟨p, rfl, hopens⟩) ?_ ?_
      · rw [hopens.allocated]
        exact hpassed.trans hclosed.noFopen
      · rintro _ ⟨⟩ -
        exact hno
    apply Exec.Returns.call
    have hstat : Passed SysCall.NoFopen w { w1 with calls := w1.calls ++
        [.stat (vfs'.openHandle (vfs'.resolved p)).mappedPath] } 0 :=
      hpassed.noFopen.trans (.call w1 (fun _ _ => by simp) (by simp))
    dsimp only
    split
    · next refusal errorCode hrefusal =>
      have hrefused : statRefusal mode (os.stat (vfs'.openHandle (vfs'.resolved p)).mappedPath) =
        some errorCode := hrefusal
      refine hclose _ (statRefusal_ne hrefused) hstat fun h => ?_
      rw [statRefusal_eq_none.mpr h.stat] at hrefused
      exact absurd hrefused (by simp)
    · next refusal hrefusal =>
      have hgoes : statRefusal mode (os.stat (vfs'.openHandle (vfs'.resolved p)).mappedPath) =
        none := hrefusal
      split
      · next hreadonly =>
        refine hclose _ (by simp) hstat fun h => ?_
        obtain ⟨hflag, hmode⟩ := (Bool.and_eq_true _ _).mp hreadonly
        rcases h.writable with h | rfl
        · simp [hflag] at h
        · simp at hmode
      · next hwritable =>
        have hreaches : ReachesFopen os (vfs'.openHandle (vfs'.resolved p)) mode := by
          refine ⟨statRefusal_eq_none.mp hgoes, ?_⟩
          cases hflag : hasFlag (vfs'.openHandle (vfs'.resolved p)).flags vfsInodeFlagReadOnly with
          | false => exact .inl rfl
          | true => exact .inr (by simpa [hflag] using hwritable)
        apply Exec.Returns.call
        dsimp only
        cases hfopen : os.fopen (vfs'.openHandle (vfs'.resolved p)).mappedPath
            (modeStringMapping mode) with
        | error errno =>
          obtain ⟨hcode, hne⟩ := vfsErrnoToVfsError_ne errno
          apply Exec.Returns.close
          intro w' hclosed
          refine .reached hne hopens hreaches hstat ?_ (iff_of_false hcode (by simp [hfopen]))
          rw [if_neg hcode]
          exact hclosed.noFopen
        | ok _ =>
          exact .pure (.reached (by simp) hopens hreaches hstat (.refl _) (iff_of_true rfl hfopen))
  | _ =>
    have hno : ∀ p, path = some p → ¬NodeOpens vfs os w p :=
      fun p hp hopens => absurd (hnode.opens.mpr ⟨p, hp, hopens⟩) (by simp [OpenNodeExit.code])
    have hnone : ¬∃ p, path = some p ∧ NodeOpens vfs os w p := by
      rintro ⟨p, hp, hopens⟩
      exact hno p hp hopens
    refine .pure (.refused hnode.outcome.exit (by simp [OpenNodeExit.code])
      (iff_of_false (by simp [OpenNodeExit.handle]) hnone) hnode.passed.noFopen
      fun p hp hopens => absurd hopens (hno p hp))

theorem vfsOpen_returns {vfs : Vfs} {path : Option CStr} (h : vfs.Takes path)
    (mode : VfsFilemode) (os : Os) (w : World) :
    Exec.Returns (vfsOpen vfs path mode) os w (OpenRun vfs os w path mode) :=
  vfsOpen_returns_of (vfsOpenNode_returns h os w) mode

theorem vfsOpen_ifReturns (vfs : Vfs) (path : Option CStr) (mode : VfsFilemode) (os : Os)
    (w : World) :
    Exec.IfReturns (vfsOpen vfs path mode) os w (OpenRun vfs os w path mode) := by
  apply Exec.IfReturns.of_returns
  intro r w' hrun
  refine vfsOpen_returns_of ?_ mode
  unfold vfsOpen at hrun
  exact (vfsOpenNode_ifReturns vfs path os w).of_bind hrun

theorem vfsOpen_yields (vfs : Vfs) (path : Option CStr) (mode : VfsFilemode) :
    Exec.Yields (vfsOpen vfs path mode) fun r => OpenOutcome vfs r.1 r.2.1 :=
  fun os w _ _ hrun => (vfsOpen_ifReturns vfs path mode os w _ _ hrun).outcome

/-! ## Attributes -/

theorem vfsStat_yields (vfs : Vfs) (path : Option CStr) (dirent : VfsDirent) :
    Exec.Yields (vfsStat vfs path dirent) fun r => vfs.Resorted r.1 := by
  unfold vfsStat
  refine Exec.Yields.bind (vfsOpenNode_yields vfs path) ?_
  rintro ⟨vfs', exit⟩ h
  cases exit with
  | opened handle =>
    have hclose : ∀ code dirent, Exec.Yields
        (do vfsCloseHandle handle; return ((vfs', code, dirent) : Vfs × VfsError × VfsDirent))
        fun r => vfs.Resorted r.1 :=
      fun code dirent => Exec.Always.yields (.close handle h.resorted)
    dsimp only
    split
    · exact Exec.Yields.bind (.trivial _) fun basename _ => hclose _ _
    · refine Exec.Yields.bind (.trivial _) ?_
      rintro (errno | statbuf) _
      · exact hclose _ _
      · exact Exec.Yields.bind (.trivial _) fun basename _ => hclose _ _
  | _ => exact .pure h.resorted

/-- Only a path that opens has attributes. -/
theorem vfsStat_ok (vfs : Vfs) (path : CStr) (dirent : VfsDirent) (os : Os) (w : World) :
    Exec.IfReturns (vfsStat vfs (some path) dirent) os w fun r _ =>
      r.2.1 = .ok → NodeOpens vfs os w path := by
  unfold vfsStat
  refine (vfsOpenNode_ifReturns vfs (some path) os w).bind ?_
  rintro ⟨vfs', exit⟩ w1 (hnode : NodeRun vfs os w (some path) vfs' exit w1)
  cases exit with
  | opened handle =>
    obtain ⟨-, -, _, ⟨⟩, hopens, -⟩ := NodeRun.node hnode
    exact fun _ _ _ _ => hopens
  | _ => exact .pure fun hok => absurd hok (by simp [OpenNodeExit.code])

/-! ## Moving the working directory -/

/-- The directory is that of the names, and its path fits into the buffer. -/
structure VfsCwd.At (cwd : VfsCwd) (cs : List Name) : Prop where
  path : cwd.path = pathOf cs
  fits : cwd.path.length + 1 ≤ cwd.allocedSize

/-- The same file system with the working directory at `cs`. -/
structure Vfs.Moved (vfs vfs' : Vfs) (cs : List Name) : Prop where
  cwd : vfs'.cwd.At cs
  rest : vfs' = { vfs with cwd := vfs'.cwd }

/-- What storing the path of the names makes of the directory: only a larger buffer brings a new
length with it. -/
def VfsCwd.moved (cwd : VfsCwd) (cs : List Name) : VfsCwd :=
  let len := (absPath cs).length
  if len + 1 > cwd.allocedSize then
    { allocedSize := len + 1, length := len, path := pathOf cs }
  else { cwd with path := pathOf cs }

@[simp] theorem VfsCwd.moved_path (cwd : VfsCwd) (cs : List Name) :
    (cwd.moved cs).path = pathOf cs := by
  unfold moved
  dsimp only
  split <;> rfl

/-- The buffer holds the path with the slash that the root loses. -/
theorem VfsCwd.moved_allocedSize_le (cwd : VfsCwd) (cs : List Name) :
    (absPath cs).length + 1 ≤ (cwd.moved cs).allocedSize := by
  unfold moved
  dsimp only
  split
  · exact Nat.le_refl _
  · next hfits => exact Nat.not_lt.mp hfits

theorem VfsCwd.moved_at (cwd : VfsCwd) (cs : List Name) : (cwd.moved cs).At cs where
  path := cwd.moved_path cs
  fits := by
    rw [moved_path]
    exact Nat.le_trans (Nat.succ_le_succ (length_pathOf_le cs)) (cwd.moved_allocedSize_le cs)

/-- On the path of names: the directory moves there, unless a larger buffer is needed and there is
no memory for it. -/
theorem vfsSetCwd_eq (vfs : Vfs) (cs : List Name) :
    vfsSetCwd vfs (absPath cs) = (do
      let haveMemory ←
        if (absPath cs).length + 1 > vfs.cwd.allocedSize then Exec.malloc else pure true
      if haveMemory then return (true, { vfs with cwd := vfs.cwd.moved cs })
      else return (false, vfsSetError vfs .cwdOutOfMemory
        "out of memory when changing directory".toList)) := by
  have habs : isAbsolutePath (absPath cs) = true := (canonical_absPath cs).isAbsolutePath
  have htrunc := truncateTrailingSlash_canonical (canonical_absPath cs)
  unfold vfsSetCwd VfsCwd.moved
  simp only [habs, Bool.not_true, Bool.false_eq_true, if_false]
  by_cases hlonger : (absPath cs).length + 1 > vfs.cwd.allocedSize
  · simp only [hlonger, decide_true, Bool.not_true, Bool.false_eq_true, if_false, if_true]
    congr
    funext haveMemory
    cases haveMemory with
    | false => rfl
    | true =>
      simp only [Bool.not_true, Bool.false_eq_true, if_false, Nat.le_refl, if_true,
        Exec.checked_some_bind, htrunc]
  · simp only [hlonger, decide_false, Bool.not_false, if_true, if_false, pure_bind, Bool.not_true,
      Bool.false_eq_true, Nat.not_lt.mp hlonger, Exec.checked_some_bind, htrunc]

/-- Either the path is stored, or there was no memory for it and only the error is set. -/
theorem vfsSetCwd_always (vfs : Vfs) (cs : List Name) :
    Exec.Always (vfsSetCwd vfs (absPath cs)) fun r =>
      if r.1 = true then r.2 = { vfs with cwd := vfs.cwd.moved cs } else vfs.Resorted r.2 := by
  rw [vfsSetCwd_eq]
  split
  · apply Exec.Always.malloc
    intro haveMemory
    cases haveMemory with
    | false => exact .pure (Vfs.Resorted.setError _ _ _)
    | true => exact .pure rfl
  · exact .pure rfl

/-- With memory, the path is stored. -/
theorem vfsSetCwd_apply (vfs : Vfs) (cs : List Name) (os : Os) (tr : List SysCall) :
    vfsSetCwd vfs (absPath cs) os ⟨[], tr⟩ =
      some ((true, { vfs with cwd := vfs.cwd.moved cs }), ⟨[], tr⟩) := by
  rw [vfsSetCwd_eq]
  split <;> rfl

/-- What a change of directory makes of the file system: at `VFS_OK` the directory is the path that
was asked for, and no more changes than the error otherwise. -/
structure ChdirEffect (vfs : Vfs) (path : Option CStr) (vfs' : Vfs) (code : VfsError) : Prop where
  moved : code = .ok → ∃ p, path = some p ∧ Sanitizable vfs.cwd.path p ∧
    vfs' = { vfs with cwd := vfs.cwd.moved (resolve vfs.cwd.path p) }
  kept : code ≠ .ok → vfs.Resorted vfs'

theorem vfsChdir_returns_of {vfs : Vfs} {path : Option CStr} {os : Os} {w : World}
    (h : Exec.Returns (vfsOpenNode vfs path) os w fun r w' => NodeRun vfs os w path r.1 r.2 w') :
    Exec.Returns (vfsChdir vfs path) os w fun r _ => ChdirEffect vfs path r.1 r.2 := by
  unfold vfsChdir
  apply h.bind
  rintro ⟨vfs', exit⟩ w1 (hnode : NodeRun vfs os w path vfs' exit w1)
  cases exit with
  | opened handle =>
    obtain ⟨rfl, p, rfl, hsan, hpath⟩ : vfs' = vfs ∧ ∃ p, path = some p ∧
        Sanitizable vfs.cwd.path p ∧ handle.virtualPath = absPath (resolve vfs.cwd.path p) :=
      hnode.outcome.opened handle rfl
    have hmove : Exec.Always (do
        let moved ← vfsSetCwd vfs' handle.virtualPath
        vfsCloseHandle handle
        return (moved.2, if moved.1 then VfsError.ok else VfsError.internalError))
        fun r => ChdirEffect vfs' (some p) r.1 r.2 := by
      rw [hpath]
      apply (vfsSetCwd_always vfs' _).bind
      rintro ⟨success, vfs1⟩ hset
      apply CLib.Exec.Always.close
      cases success with
      | true => exact ⟨fun _ => ⟨p, rfl, hsan, hset⟩, by simp⟩
      | false => exact ⟨by simp, fun _ => hset⟩
    have hstay : ∀ code, code ≠ .ok → ChdirEffect vfs' (some p) vfs' code :=
      fun code hne => ⟨fun hok => absurd hok hne, fun _ => Vfs.Resorted.refl _⟩
    by_cases hinode : handle.inode.isSome
    · simp only [hinode, if_true]
      exact hmove os w1
    · simp only [hinode]
      apply Exec.Returns.call
      cases os.stat handle.mappedPath with
      | error errno =>
        exact .close handle fun _ _ => hstay _ (vfsErrnoToVfsError_ne errno).1
      | ok statbuf =>
        by_cases hdir : (!statbuf.isDir) = true
        · simp only [hdir, if_true]
          exact .close handle fun _ _ => hstay _ (by simp)
        · simp only [hdir]
          exact hmove os _
  | _ => exact .pure ⟨fun hok => by simp [OpenNodeExit.code] at hok, fun _ => hnode.resorted⟩

theorem vfsChdir_effect (vfs : Vfs) (path : Option CStr) :
    Exec.Yields (vfsChdir vfs path) fun r => ChdirEffect vfs path r.1 r.2 := by
  intro os w r w' hrun
  have hopens := hrun
  unfold vfsChdir at hopens
  exact (vfsChdir_returns_of ((vfsOpenNode_ifReturns vfs path os w).of_bind hopens)).result hrun

/-- What comes of a change of directory: at `VFS_OK` the move to the path that was asked for, and
no more changes than the error otherwise. -/
structure ChdirOutcome (vfs : Vfs) (path : Option CStr) (vfs' : Vfs) (code : VfsError) : Prop where
  moved : code = .ok → ∃ p, path = some p ∧ Sanitizable vfs.cwd.path p ∧
    vfs.Moved vfs' (resolve vfs.cwd.path p)
  kept : code ≠ .ok → vfs.Resorted vfs'

theorem ChdirEffect.outcome {vfs vfs' : Vfs} {path : Option CStr} {code : VfsError}
    (h : ChdirEffect vfs path vfs' code) : ChdirOutcome vfs path vfs' code := by
  refine ⟨fun hok => ?_, h.kept⟩
  obtain ⟨p, hp, hsan, rfl⟩ := h.moved hok
  exact ⟨p, hp, hsan, vfs.cwd.moved_at _, rfl⟩

theorem vfsChdir_yields (vfs : Vfs) (path : Option CStr) :
    Exec.Yields (vfsChdir vfs path) fun r => ChdirOutcome vfs path r.1 r.2 :=
  fun os w r w' hrun => (vfsChdir_effect vfs path os w r w' hrun).outcome

theorem vfsChdir_returns {vfs : Vfs} {path : Option CStr} (h : vfs.Takes path) (os : Os)
    (w : World) :
    Exec.Returns (vfsChdir vfs path) os w fun r _ => ChdirOutcome vfs path r.1 r.2 :=
  (vfsChdir_returns_of (vfsOpenNode_returns h os w)).mono fun _ _ heffect => heffect.outcome

end Umsftpd
