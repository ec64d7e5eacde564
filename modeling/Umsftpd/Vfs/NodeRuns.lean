import Umsftpd.Vfs.Permits
import Umsftpd.Vfs.Resorted

/-!
# Opening a node in any state

`vfs_open_node` from any state of the file system and with any outcomes of its allocations: exactly
when it gives a handle, which one, and how many handles it closes on the way out. It comes back from
every path whose length an `int` holds.
-/

namespace Umsftpd

open CLib Paths

/-! ## Accounts -/

/-- Between the two worlds only calls were made that satisfy `P`, and `closed` handles were given
back. -/
structure Passed (P : SysCall → Prop) (w w' : World) (closed : Nat) : Prop where
  calls : ∃ calls, w'.calls = w.calls ++ calls ∧ ∀ c ∈ calls, P c
  freed : w'.freed = w.freed + closed

/-- Nothing was opened. -/
abbrev PassedBy (w w' : World) (closed : Nat) : Prop :=
  Passed (fun c => c.isPassive = true) w w' closed

section Passed

variable {P : SysCall → Prop}

theorem Passed.refl (w : World) : Passed P w w 0 :=
  ⟨⟨[], by rw [List.append_nil], by simp⟩, rfl⟩

theorem Passed.trans {w1 w2 w3 : World} {m n : Nat} (h : Passed P w1 w2 m)
    (h' : Passed P w2 w3 n) : Passed P w1 w3 (m + n) := by
  obtain ⟨calls, hcalls, hP⟩ := h.calls
  obtain ⟨calls', hcalls', hP'⟩ := h'.calls
  refine ⟨⟨calls ++ calls', ?_, List.forall_mem_append.mpr ⟨hP, hP'⟩⟩, ?_⟩
  · rw [hcalls', hcalls, List.append_assoc]
  · rw [h'.freed, h.freed, Nat.add_assoc]

theorem Passed.mono {P' : SysCall → Prop} {w w' : World} {n : Nat} (h : Passed P w w' n)
    (hP : ∀ c, P c → P' c) : Passed P' w w' n := by
  obtain ⟨calls, hcalls, hcalls'⟩ := h.calls
  exact ⟨⟨calls, hcalls, fun c hc => hP c (hcalls' c hc)⟩, h.freed⟩

theorem Passed.allocated (w : World) : Passed P w w.allocated 0 :=
  ⟨⟨[], by rw [List.append_nil, World.calls_allocated], by simp⟩, rfl⟩

/-- A call that gives no handle back. -/
theorem Passed.call (w : World) {c : SysCall} (hP : P c) (hc : c ≠ .free) :
    Passed P w { w with calls := w.calls ++ [c] } 0 :=
  ⟨⟨[c], rfl, by simpa using hP⟩, w.freed_call hc⟩

end Passed

theorem vfsCloseHandle_returns (handle : VfsHandle) (os : Os) (w : World) :
    Exec.Returns (vfsCloseHandle handle) os w fun _ w' => PassedBy w w' 1 := by
  have hfree : ∀ w : World, PassedBy w { w with calls := w.calls ++ [.free] } 1 := by
    intro w
    refine ⟨⟨[.free], rfl, by simp [SysCall.isPassive]⟩, ?_⟩
    show (w.calls ++ [SysCall.free]).count .free = w.calls.count .free + 1
    rw [List.count_append, List.count_singleton_self]
  have hboth : ∀ c : SysCall, c.isPassive = true → c ≠ .free →
      PassedBy w { w with calls := w.calls ++ [c] ++ [.free] } 1 :=
    fun c hpassive hc => (Passed.call w hpassive hc).trans (hfree _)
  unfold vfsCloseHandle
  cases handle.type with
  | dirHandle =>
    cases handle.dir with
    | none => exact ⟨(), _, rfl, hfree w⟩
    | some dir => exact ⟨(), _, rfl, hboth .closedir rfl (by simp)⟩
  | fileHandle =>
    cases handle.file with
    | none => exact ⟨(), _, rfl, hfree w⟩
    | some file => exact ⟨(), _, rfl, hboth .fclose rfl (by simp)⟩

/-- Close the handle and return. -/
theorem CLib.Exec.Returns.close {α : Type} {os : Os} {w : World} {Q : α → World → Prop}
    (handle : VfsHandle) {a : α} (h : ∀ w', PassedBy w w' 1 → Q a w') :
    Exec.Returns (do vfsCloseHandle handle; return a) os w Q :=
  (vfsCloseHandle_returns handle os w).bind fun _ w' hpassed => .pure (h w' hpassed)

theorem pathContainsSymlink_returns (path : CStr) (os : Os) (w : World) :
    Exec.Returns (pathContainsSymlink path) os w fun symlink w' =>
      symlink = scanParts os (splitParts path) ∧ PassedBy w w' 0 := by
  unfold pathContainsSymlink splitParts
  rw [pathSplit_eq]
  generalize splitCalls path = calls
  induction calls generalizing w with
  | nil => exact .pure ⟨rfl, Passed.refl w⟩
  | cons call calls ih =>
    rw [runCalls, pathContainsSymlinkCallback, List.map_cons, scanParts, bind_assoc]
    apply Exec.Returns.call
    have hlstat : PassedBy w { w with calls := w.calls ++ [.lstat call.1] } 0 :=
      .call w rfl (by simp)
    dsimp only
    cases os.lstat call.1 with
    | error errno =>
      by_cases hno : errno = Errno.ENOENT
      · simp only [hno, if_true]
        exact .pure ⟨rfl, hlstat⟩
      · simp only [hno, if_false]
        exact .pure ⟨rfl, hlstat⟩
    | ok statbuf =>
      cases hlnk : statbuf.isLnk with
      | true =>
        simp only [hlnk, if_true]
        exact .pure ⟨rfl, hlstat⟩
      | false =>
        simp only [hlnk, Bool.false_eq_true, if_false]
        apply (ih _).mono
        rintro symlink w' ⟨heq, hpassed⟩
        exact ⟨heq, hlstat.trans hpassed⟩

/-! ## The node -/

/-- The names of the path, in the working directory. -/
def Vfs.resolved (vfs : Vfs) (path : CStr) : List Name := resolve vfs.cwd.path path

/-- The handle of the node that opens. -/
def Vfs.openHandle (vfs : Vfs) (cs : List Name) : VfsHandle :=
  { vfs.nodeHandle cs with
    mappedPath := (vfs.mountAt cs).map fun mountpoint => vfs.realPathAt mountpoint cs }

/-- What it takes for a path to open: a handle that is left, a path that can be sanitised, a table
that is frozen, a policy that permits what is there, and memory for the handle, the sanitised path
and the real one, in this order. -/
structure NodeOpens (vfs : Vfs) (os : Os) (w : World) (path : CStr) : Prop where
  room : vfs.handles.currentCount < vfs.handles.maxCount
  sanitizable : Sanitizable vfs.cwd.path path
  frozen : vfs.inode.frozen = true
  permits : vfs.Permits os (vfs.resolved path)
  there : vfs.nodeAt (vfs.resolved path) ≠ none ∨ vfs.mountAt (vfs.resolved path) ≠ none
  handle_memory : w.outcome 0 = true
  path_memory : w.outcome 1 = true
  mapped_memory : vfs.mountAt (vfs.resolved path) ≠ none → w.outcome 2 = true

/-- Is a handle allocated? -/
def handleAllocated (vfs : Vfs) (path : Option CStr) (w : World) : Bool :=
  path.isSome && decide (vfs.handles.currentCount < vfs.handles.maxCount) && w.outcome 0

/-- What comes of `vfs_open_node`: a handle exactly when the path opens, and otherwise none, with
the one that was allocated closed. No more is changed than the error, and only the count of handles
makes the call run out of them. -/
structure NodeRun (vfs : Vfs) (os : Os) (w : World) (path : Option CStr) (vfs' : Vfs)
    (exit : OpenNodeExit) (w' : World) : Prop where
  resorted : vfs.Resorted vfs'
  exhausted : exit = .outOfHandles → vfs.handles.maxCount ≤ vfs.handles.currentCount
  opens : exit.code = .ok ↔ ∃ p, path = some p ∧ NodeOpens vfs os w p
  opened : ∀ handle, exit = .opened handle →
    vfs' = vfs ∧ ∃ p, path = some p ∧ handle = vfs.openHandle (vfs.resolved p)
  passed : PassedBy w w' (if exit.code = .ok then 0 else (handleAllocated vfs path w).toNat)

section

variable {vfs vfs' : Vfs} {os : Os} {w w' : World} {p : CStr} {exit : OpenNodeExit}

theorem OpenNodeExit.code_ne_ok (h : exit.handle = none) : exit.code ≠ .ok := by
  intro hok
  obtain ⟨handle, rfl⟩ := code_eq_ok.mp hok
  exact absurd h (by simp [OpenNodeExit.handle])

/-- An exit without a handle, where the path does not open. -/
theorem NodeRun.refused {path : Option CStr} (hsame : vfs.Resorted vfs')
    (hexhausted : exit = .outOfHandles → vfs.handles.maxCount ≤ vfs.handles.currentCount)
    (hexit : exit.handle = none) (hno : ∀ p, path = some p → ¬NodeOpens vfs os w p)
    (hpassed : PassedBy w w' (handleAllocated vfs path w).toNat) :
    NodeRun vfs os w path vfs' exit w' := by
  have hcode := OpenNodeExit.code_ne_ok hexit
  refine ⟨hsame, hexhausted, iff_of_false hcode fun ⟨p, hp, hopens⟩ => hno p hp hopens, ?_, ?_⟩
  · rintro handle rfl
    exact absurd hexit (by simp [OpenNodeExit.handle])
  · rwa [if_neg hcode]

/-- The last exit, where the path does open. -/
theorem NodeRun.given (hopens : NodeOpens vfs os w p) (hpassed : PassedBy w w' 0) :
    NodeRun vfs os w (some p) vfs (.opened (vfs.openHandle (vfs.resolved p))) w' := by
  refine ⟨.refl vfs, nofun, iff_of_true rfl ⟨p, rfl, hopens⟩, ?_, ?_⟩
  · rintro handle ⟨⟩
    exact ⟨rfl, p, rfl, rfl⟩
  · exact hpassed

/-- The node that a handle is for. -/
theorem NodeRun.node {path : Option CStr} {handle : VfsHandle}
    (h : NodeRun vfs os w path vfs' (.opened handle) w') :
    vfs' = vfs ∧ PassedBy w w' 0 ∧ ∃ p, path = some p ∧ NodeOpens vfs os w p ∧
      handle = vfs.openHandle (vfs.resolved p) := by
  obtain ⟨hvfs, p, hp, hhandle⟩ := h.opened handle rfl
  obtain ⟨p', hp', hopens⟩ := h.opens.mp rfl
  obtain rfl : p = p' := Option.some.inj (hp.symm.trans hp')
  exact ⟨hvfs, h.passed, p, hp, hopens, hhandle⟩

/-- On a frozen file system the names lead to the same handle. -/
theorem NodeOpens.openExit (h : NodeOpens vfs os w p) :
    vfs.openExit os (vfs.resolved p) = .opened (vfs.openHandle (vfs.resolved p)) := by
  obtain ⟨handle, hexit⟩ := OpenNodeExit.code_eq_ok.mp ((openExit_ok vfs os _).mpr
    ⟨h.permits, h.there⟩)
  rw [hexit, Vfs.openExit_opened hexit]
  rfl

theorem NodeOpens.allocated (h : NodeOpens vfs os w p) :
    handleAllocated vfs (some p) w = true := by
  simp [handleAllocated, h.room, h.handle_memory]

end

/-- The last of the policy: a handle comes of the scan exactly when it is clean. -/
theorem pathContainsSymlink_guard {vfs : Vfs} {path : CStr} {os : Os} {w : World}
    {handle : VfsHandle} {Q : Vfs × OpenNodeExit → World → Prop}
    (hopened : ScanClean os path → ∀ w', PassedBy w w' 0 → Q (vfs, .opened handle) w')
    (hrefused : ¬ScanClean os path → ∀ exit w', exit = .symlinkUnchecked ∨ exit = .symlinkFound →
      PassedBy w w' 1 → Q (vfs, exit) w') :
    Exec.Returns (do
      let symlink ← pathContainsSymlink path
      if symlink.criticalError then
        vfsCloseHandle handle
        return (vfs, OpenNodeExit.symlinkUnchecked)
      if symlink.containsSymlink then
        vfsCloseHandle handle
        return (vfs, .symlinkFound)
      return (vfs, .opened handle)) os w Q := by
  apply (pathContainsSymlink_returns path os w).bind
  rintro symlink w1 ⟨rfl, hpassed⟩
  have hclean := scanParts_clean os (splitParts path)
  unfold ScanClean at hopened hrefused
  rw [← hclean] at hopened hrefused
  generalize scanParts os (splitParts path) = symlink at *
  cases hcritical : symlink.criticalError with
  | true =>
    exact .close _ fun w' hclosed =>
      hrefused (by simp [hcritical]) _ w' (.inl rfl) (hpassed.trans hclosed)
  | false =>
    cases hfound : symlink.containsSymlink with
    | true =>
      exact .close _ fun w' hclosed =>
        hrefused (by simp [hfound]) _ w' (.inr rfl) (hpassed.trans hclosed)
    | false => exact .pure (hopened ⟨hcritical, hfound⟩ w1 hpassed)

/-- The end of a path below a mountpoint: there has to be memory for the real path, and the scan of
it for symlinks comes last. -/
theorem vfsOpenNode_mounted {vfs : Vfs} {cs : List Name} {mp : InodeRef}
    (hmount : vfs.mountAt cs = some mp) {os : Os} {w : World}
    {Q : Vfs × OpenNodeExit → World → Prop}
    (hopened : w.outcome 0 = true →
      (hasFlag (vfs.flagsAt cs) vfsInodeFlagAllowSymlinks = false →
        ScanClean os (vfs.realPathAt mp cs)) →
      ∀ w', PassedBy w w' 0 → Q (vfs, .opened (vfs.openHandle cs)) w')
    (hrefused : (w.outcome 0 = true →
        hasFlag (vfs.flagsAt cs) vfsInodeFlagAllowSymlinks = false ∧
          ¬ScanClean os (vfs.realPathAt mp cs)) →
      ∀ vfs' exit w', vfs.Resorted vfs' → exit ≠ .outOfHandles → exit.handle = none →
        PassedBy w w' 1 → Q (vfs', exit) w') :
    Exec.Returns (do
      match ← vfsMapPath vfs (some (vfs.lookupAt cs)) (some (absPath cs)) with
      | (vfs1, none) =>
        vfsCloseHandle (vfs.nodeHandle cs)
        return (vfsSetError vfs1 .pathMapError
          "vfs_opendir() could not map path successfully".toList, OpenNodeExit.notMapped)
      | (vfs1, some mappedPath) =>
        let handle := { vfs.nodeHandle cs with mappedPath := some mappedPath }
        if hasFlag (vfs.flagsAt cs) vfsInodeFlagAllowSymlinks then
          return (vfs1, .opened handle)
        let symlink ← pathContainsSymlink mappedPath
        if symlink.criticalError then
          vfsCloseHandle handle
          return (vfs1, .symlinkUnchecked)
        if symlink.containsSymlink then
          vfsCloseHandle handle
          return (vfs1, .symlinkFound)
        return (vfs1, .opened handle)) os w Q := by
  obtain ⟨pre, ⟨suf, hsuf⟩, hat, htarget⟩ := Vfs.mountAt_some hmount
  obtain ⟨target, htarget⟩ := Option.isSome_iff_exists.mp htarget
  have hmount' : (vfs.lookupAt cs).mountpoint = some mp := hmount
  have hmap := vfsMapPath_eq hmount' (Vfs.nodeAt_some hat).2 htarget suf
  rw [hsuf] at hmap
  have hhandle : vfs.openHandle cs =
      { vfs.nodeHandle cs with mappedPath := some (vfs.realPathAt mp cs) } := by
    rw [Vfs.openHandle, hmount]
    rfl
  rw [hhandle] at hopened
  rw [hmap, bind_assoc]
  apply Exec.Returns.malloc
  have hone : PassedBy w w.allocated 0 := .allocated w
  cases hmapped : w.outcome 0 with
  | false =>
    simp only [Bool.not_false, if_true, pure_bind]
    refine .close _ fun w' hclosed => hrefused (fun h => ?_) _ _ w'
      ((Vfs.Resorted.setError _ _ _).trans (.setError _ _ _)) (by simp) rfl (hone.trans hclosed)
    exact absurd (hmapped.symm.trans h) Bool.false_ne_true
  | true =>
    simp only [Bool.not_true, Bool.false_eq_true, if_false, pure_bind]
    by_cases hallow : hasFlag (vfs.flagsAt cs) vfsInodeFlagAllowSymlinks = true
    · simp only [hallow, if_true]
      exact .pure (hopened hmapped (by simp [hallow]) _ hone)
    simp only [hallow]
    apply pathContainsSymlink_guard
    · exact fun hclean w' hpassed => hopened hmapped (fun _ => hclean) _ (hone.trans hpassed)
    · intro hdirty exit w' hexit hpassed
      refine hrefused (fun _ => ⟨by simpa using hallow, hdirty⟩) _ _ w' (.refl _) ?_ ?_
        (hone.trans hpassed)
      · rcases hexit with rfl | rfl <;> simp
      · rcases hexit with rfl | rfl <;> rfl

/-- From this path sanitising comes back: it can be sanitised, or at least an `int` holds its
length. -/
def Vfs.Takes (vfs : Vfs) (path : Option CStr) : Prop :=
  ∀ p, path = some p →
    Sanitizable vfs.cwd.path p ∨ (joinedPath vfs.cwd.path p).length + 1 < 2 ^ 31

theorem Vfs.Takes.of_sanitizable {vfs : Vfs} {path : CStr} (h : Sanitizable vfs.cwd.path path) :
    vfs.Takes (some path) := by
  rintro _ ⟨⟩
  exact .inl h

/-- **Opening a node, from any state and under any outcomes of allocations.** The run comes back if
sanitising does, where it comes to that. -/
theorem vfsOpenNode_returns_of (vfs : Vfs) (path : Option CStr) (os : Os) (w : World)
    (hsanitize : ∀ p, path = some p → vfs.handles.currentCount < vfs.handles.maxCount →
      w.outcome 0 = true → ∃ r, sanitizePath vfs.cwd.path p os w.allocated = some r) :
    Exec.Returns (vfsOpenNode vfs path) os w fun r w' =>
      NodeRun vfs os w path r.1 r.2 w' := by
  cases path with
  | none => exact .pure (.refused (.setError _ _ _) (by simp) rfl nofun (Passed.refl w))
  | some path =>
    unfold vfsOpenNode
    dsimp only
    split
    · next hfull =>
      refine .pure (.refused (.refl _) (fun _ => hfull) rfl ?_ ?_)
      · rintro _ ⟨⟩ h
        exact absurd h.room (Nat.not_lt.mpr hfull)
      · simpa [handleAllocated, Nat.not_lt.mpr hfull] using Passed.refl w
    next hroom =>
    apply Exec.Returns.malloc
    cases hhandle : w.outcome 0 with
    | false =>
      refine .pure (.refused (.setError _ _ _) (by simp) rfl ?_ ?_)
      · rintro _ ⟨⟩ h
        exact absurd h.handle_memory (by simp [hhandle])
      · simpa [handleAllocated, hhandle] using Passed.allocated w
    | true =>
    have hallocated : (handleAllocated vfs (some path) w).toNat = 1 := by
      simp [handleAllocated, hhandle, Nat.not_le.mp hroom]
    -- every exit from here on that gives no handle closes the one there is
    have hrefused : ∀ {vfs' : Vfs} {exit : OpenNodeExit} {w' : World}, vfs.Resorted vfs' →
        exit ≠ .outOfHandles → exit.handle = none → ¬NodeOpens vfs os w path →
        PassedBy w w' 1 → NodeRun vfs os w (some path) vfs' exit w' := by
      intro vfs' exit w' hsame hne hexit hno hpassed
      refine .refused hsame (fun h => absurd h hne) hexit ?_ (hallocated ▸ hpassed)
      rintro _ ⟨⟩
      exact hno
    have hclose : ∀ {vfs' : Vfs} {exit : OpenNodeExit} {w1 : World} (handle : VfsHandle),
        vfs.Resorted vfs' → exit ≠ .outOfHandles → exit.handle = none →
        ¬NodeOpens vfs os w path → PassedBy w w1 0 →
        Exec.Returns (do vfsCloseHandle handle; return (vfs', exit)) os w1 fun r w' =>
          NodeRun vfs os w (some path) r.1 r.2 w' :=
      fun handle hsame hne hexit hno hpassed =>
        .close handle fun w' hclosed => hrefused hsame hne hexit hno (hpassed.trans hclosed)
    have hone : PassedBy w w.allocated 0 := .allocated w
    have htwo : PassedBy w w.allocated.allocated 0 := hone.trans (.allocated _)
    simp only [Bool.not_true, Bool.false_eq_true, if_false]
    obtain ⟨⟨sanitized, w1⟩, hrun⟩ := hsanitize path rfl (Nat.not_le.mp hroom) hhandle
    apply Exec.Returns.bind ⟨sanitized, w1, hrun, sanitizePath_ifReturns _ _ os _ _ _ hrun⟩
    rintro sanitized w1 ⟨hresult, hworld⟩
    rw [World.outcome_allocated] at hresult
    by_cases hsan : Sanitizable vfs.cwd.path path ∧ w.outcome 1 = true
    swap
    · rw [hresult, if_neg hsan]
      refine hclose _ (.setError _ _ _) (by simp) rfl
        (fun h => hsan ⟨h.sanitizable, h.path_memory⟩) ?_
      rcases hworld with ⟨rfl, -⟩ | rfl
      · exact hone
      · exact htwo
    rw [if_pos hsan] at hresult
    obtain rfl : w1 = w.allocated.allocated :=
      hworld.resolve_left fun h => absurd (hresult.symm.trans h.2) (by simp)
    obtain ⟨hsan, hpath⟩ := hsan
    rw [hresult]
    rw [show resolve vfs.cwd.path path = vfs.resolved path from rfl]
    by_cases hfrozen : vfs.inode.frozen = true
    swap
    · have hfrozen' : vfs.inode.frozen = false := by simpa using hfrozen
      simp only [vfsLookup, hfrozen', Bool.not_false, if_true]
      exact hclose _ ((Vfs.Resorted.setError _ _ _).trans (.setError _ _ _)) (by simp) rfl
        (fun h => hfrozen h.frozen) htwo
    have hlookup := vfsLookup_canonical hfrozen (canonical_absPath (vfs.resolved path))
    simp only [hlookup]
    show Exec.Returns (if hasFlag (vfs.flagsAt (vfs.resolved path)) vfsInodeFlagFilterAll then _
      else _) os _ _
    by_cases hall : hasFlag (vfs.flagsAt (vfs.resolved path)) vfsInodeFlagFilterAll = true
    · simp only [hall, if_true]
      exact hclose _ (.refl _) (by simp) rfl
        (fun h => by simpa [hall] using h.permits.notFiltered) htwo
    simp only [hall, Vfs.lookupAt]
    by_cases hhid : (hasFlag (vfs.flagsAt (vfs.resolved path)) vfsInodeFlagFilterHidden &&
        pathContainsHidden (absPath (vfs.resolved path))) = true
    · simp only [hhid, if_true]
      refine hclose _ (.refl _) (by simp) rfl (fun h => ?_) htwo
      rw [pathContainsHidden_absPath] at hhid
      obtain ⟨hflag, hany⟩ := (Bool.and_eq_true _ _).mp hhid
      rcases h.permits.notHidden with h | h
      · simp [hflag] at h
      · simp [hany] at h
    simp only [hhid]
    have hnot : hasFlag (vfs.flagsAt (vfs.resolved path)) vfsInodeFlagFilterHidden = false ∨
        (vfs.resolved path).any Name.isHidden = false := by
      rw [← pathContainsHidden_absPath]
      exact Bool.and_eq_false_iff.mp (by simpa using hhid)
    -- from here on only the scan for symlinks is left of the policy
    have hopens : (∀ mountpoint, vfs.mountAt (vfs.resolved path) = some mountpoint →
          hasFlag (vfs.flagsAt (vfs.resolved path)) vfsInodeFlagAllowSymlinks = false →
          ScanClean os (vfs.realPathAt mountpoint (vfs.resolved path))) →
        (vfs.nodeAt (vfs.resolved path) ≠ none ∨ vfs.mountAt (vfs.resolved path) ≠ none) →
        (vfs.mountAt (vfs.resolved path) ≠ none → w.outcome 2 = true) →
        NodeOpens vfs os w path :=
      fun hscan hthere hmapped => ⟨Nat.not_le.mp hroom, hsan, hfrozen,
        ⟨by simpa using hall, hnot, hscan⟩, hthere, hhandle, hpath, hmapped⟩
    rcases Option.eq_none_or_eq_some (vfs.mountAt (vfs.resolved path)) with hmount | ⟨mp, hmount⟩
    · rcases Option.eq_none_or_eq_some (vfs.nodeAt (vfs.resolved path)) with hnode | ⟨r, hnode⟩
      · simp only [hmount, hnode, Option.isNone_none, Bool.and_self, if_true]
        exact hclose _ (.refl _) (by simp) rfl
          (fun h => by simpa [hmount, hnode] using h.there) htwo
      · have hgiven := NodeRun.given
          (hopens (by simp [hmount]) (.inl (by simp [hnode])) (by simp [hmount])) htwo
        rw [Vfs.openHandle, Vfs.nodeHandle, hmount, hnode] at hgiven
        simp only [hmount, hnode, Option.isNone_none, Option.isNone_some, Bool.false_and,
          Bool.false_eq_true, if_false, if_true]
        exact .pure hgiven
    · have hmounted : (vfs.mountAt (vfs.resolved path)).isNone = false := by rw [hmount]; rfl
      simp only [hmounted, Bool.and_false, Bool.false_eq_true, if_false]
      have hmemory : w.allocated.allocated.outcome 0 = w.outcome 2 := by
        rw [World.outcome_allocated, World.outcome_allocated]
      apply vfsOpenNode_mounted hmount <;> rw [hmemory]
      · intro hmapped hscan w' hpassed
        refine .given (hopens (fun mp' hmp' => ?_) (.inr (by simp [hmount])) fun _ => hmapped)
          (htwo.trans hpassed)
        obtain rfl : mp = mp' := Option.some.inj (hmount.symm.trans hmp')
        exact hscan
      · intro hdirty vfs' exit w' hsame hne hexit hpassed
        refine hrefused hsame hne hexit (fun h => ?_) (htwo.trans hpassed)
        obtain ⟨hallow, hfound⟩ := hdirty (h.mapped_memory (by simp [hmount]))
        exact hfound (h.permits.noSymlinks mp hmount hallow)

/-- Whatever the path is, a run that comes back is one of these. -/
theorem vfsOpenNode_ifReturns (vfs : Vfs) (path : Option CStr) (os : Os) (w : World) :
    Exec.IfReturns (vfsOpenNode vfs path) os w fun r w' => NodeRun vfs os w path r.1 r.2 w' := by
  apply Exec.IfReturns.of_returns
  intro r w' hrun
  apply vfsOpenNode_returns_of
  rintro p rfl hroom hhandle
  unfold vfsOpenNode at hrun
  simp only [Nat.not_le.mpr hroom, if_false] at hrun
  rw [Exec.bind_apply, Exec.malloc_run, hhandle, Option.bind_some] at hrun
  simp only [Bool.not_true, Bool.false_eq_true, if_false] at hrun
  rw [Exec.bind_apply] at hrun
  obtain ⟨sanitized, hsanitize, -⟩ := Option.bind_eq_some_iff.mp hrun
  exact ⟨sanitized, hsanitize⟩

/-- Where sanitising comes back, so does the run. -/
theorem vfsOpenNode_returns {vfs : Vfs} {path : Option CStr} (h : vfs.Takes path) (os : Os)
    (w : World) :
    Exec.Returns (vfsOpenNode vfs path) os w fun r w' => NodeRun vfs os w path r.1 r.2 w' := by
  apply vfsOpenNode_returns_of
  intro p hp _ _
  obtain ⟨sanitized, w', hrun, -⟩ := sanitizePath_returns (h p hp) os w.allocated
  exact ⟨_, hrun⟩

/-- A relative path for which no array can be made. -/
theorem vfsOpenNode_unjoined {vfs : Vfs} {path : CStr}
    (hroom : vfs.handles.currentCount < vfs.handles.maxCount)
    (hpath : isAbsolutePath path = false)
    (h : ¬(joinedPath vfs.cwd.path path).length + 1 < 2 ^ 31) (os : Os) :
    (vfsOpenNode vfs (some path)).eval os = none := by
  have hsanitize := sanitizePath_unjoined hpath h os (World.allocated {})
  unfold Exec.eval vfsOpenNode
  simp only [Nat.not_le.mpr hroom, if_false]
  rw [Exec.bind_apply, Exec.malloc_run, Option.bind_some]
  show Option.map _ ((sanitizePath vfs.cwd.path path >>= _) os (World.allocated {})) = none
  rw [Exec.bind_apply, hsanitize]
  rfl

/-- What cannot be sanitised is not looked up: the call fails before it or there. -/
theorem vfsOpenNode_unsanitized {vfs : Vfs} {path : CStr} (h : ¬Sanitizable vfs.cwd.path path)
    (os : Os) (w : World) :
    Exec.IfReturns (vfsOpenNode vfs (some path)) os w fun r _ =>
      r.2 = .outOfHandles ∨ r.2 = .noHandleMemory ∨ r.2 = .notSanitized := by
  unfold vfsOpenNode
  dsimp only
  split
  · exact .pure (.inl rfl)
  apply Exec.IfReturns.malloc
  cases w.outcome 0 with
  | false => exact .pure (.inr (.inl rfl))
  | true =>
    simp only [Bool.not_true, Bool.false_eq_true, if_false]
    refine (sanitizePath_ifReturns _ _ os _).bind ?_
    rintro sanitized w1 hsanitized
    obtain rfl : sanitized = none := hsanitized.result.trans (if_neg fun hsan => h hsan.1)
    exact (Exec.Returns.close _ fun _ _ => .inr (.inr rfl)).ifReturns

end Umsftpd
