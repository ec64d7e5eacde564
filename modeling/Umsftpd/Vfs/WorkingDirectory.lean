import Umsftpd.Strings.Normalize
import Umsftpd.Vfs.Containment
import Umsftpd.Vfs.Outcomes

/-!
# The working directory

`vfs_set_cwd` keeps a buffer that only grows, copies the new path into it and cuts the slash of the
root. Whatever fails on the way, `cwd.path` is the path of names and the buffer is large enough for
it; and a path that is opened after a `vfs_chdir` is the path that is opened below the directory.
-/

namespace Umsftpd

open CLib Paths

/-! ## Runs -/

theorem VfsCwd.At.resorted {vfs vfs' : Vfs} {cs : List Name} (h : vfs.cwd.At cs)
    (hsame : vfs.Resorted vfs') : vfs'.cwd.At cs := by
  rw [hsame.cwd]
  exact h

/-- The step: a change of directory goes from a directory to a directory. -/
theorem ChdirOutcome.at {vfs vfs' : Vfs} {path : Option CStr} {code : VfsError}
    (h : ChdirOutcome vfs path vfs' code) (hcwd : ∃ cs, vfs.cwd.At cs) : ∃ cs, vfs'.cwd.At cs := by
  by_cases hok : code = .ok
  · obtain ⟨p, -, -, hmoved⟩ := h.moved hok
    exact ⟨_, hmoved.cwd⟩
  · obtain ⟨cs, hcs⟩ := hcwd
    exact ⟨cs, hcs.resorted (h.kept hok)⟩

theorem Reachable.cwd_at {vfs : Vfs} (h : Reachable vfs) : ∃ cs, vfs.cwd.At cs := by
  induction h with
  | init baseFlags => exact ⟨[], rfl, Nat.le_succ 1⟩
  | @step vfs vfs' hreach hstep ih =>
    obtain ⟨cs, hcs⟩ := ih
    rcases hstep.cases with
      ⟨d, os, ok, w, hadd⟩ | ⟨libc, rfl⟩ | ⟨cs', hmoved⟩ | hsame
    · refine ⟨cs, ?_⟩
      rw [(Vfs.SameSettings.add hadd).cwd]
      exact hcs
    · refine ⟨cs, ?_⟩
      rw [vfsFreezeInodes_cwd]
      exact hcs
    · exact ⟨cs', hmoved.cwd⟩
    · exact ⟨cs, hcs.resorted hsame⟩

/-- The file systems that calls of `vfs_chdir` lead to, whatever the system answers and whichever
allocations fail. -/
inductive ChdirRun (start : Vfs) : Vfs → Prop
  | start : ChdirRun start start
  | chdir {vfs vfs' : Vfs} (hrun : ChdirRun start vfs) (path : Option CStr) (os : Os)
      (w w' : World) (code : VfsError) (h : vfsChdir vfs path os w = some ((vfs', code), w')) :
      ChdirRun start vfs'

/-- The run: the working directory is always a directory. -/
theorem ChdirRun.cwd_at {start vfs : Vfs} (hcwd : ∃ cs, start.cwd.At cs)
    (hrun : ChdirRun start vfs) : ∃ cs, vfs.cwd.At cs := by
  induction hrun with
  | start => exact hcwd
  | chdir hrun path os w w' code h ih =>
    exact ((vfsChdir_yields _ path).result h).at ih

/-- The path that is stored for a directory: that of the root is empty. -/
theorem pathOf_eq_ite (cs : List Name) :
    pathOf cs = if absPath cs = ['/'] then [] else absPath cs := by
  cases cs with
  | nil => rfl
  | cons n cs =>
    rw [if_neg]
    · rfl
    · rw [absPath_cons, pathOf_cons]
      intro h
      exact n.ne_nil (List.append_eq_nil_iff.mp (List.cons.inj h).2).1

/-- **The working directory.** It is the root, stored as the empty string, or a normal path, and its
buffer is large enough. A `vfs_chdir` that returns anything but `VFS_OK` leaves it alone, one that
returns `VFS_OK` sets it to the sanitised path; and every call returns whose path can be sanitised
or has a length that an `int` holds. -/
theorem vfsChdir_cwd {start vfs : Vfs} (hreach : Reachable start) (hrun : ChdirRun start vfs) :
    (vfs.cwd.path = [] ∨ IsNormal vfs.cwd.path ∧ vfs.cwd.path ≠ ['/']) ∧
      vfs.cwd.path.length + 1 ≤ vfs.cwd.allocedSize ∧
      (∀ path os w vfs' code w', vfsChdir vfs path os w = some ((vfs', code), w') →
        (code ≠ .ok → vfs'.cwd.path = vfs.cwd.path) ∧
        (code = .ok → ∃ p s, path = some p ∧
          (sanitizePath vfs.cwd.path p).eval os = some (some s) ∧
          vfs'.cwd.path = if s = ['/'] then [] else s)) ∧
      ∀ path, vfs.Takes path → ∀ os w, ∃ r, vfsChdir vfs path os w = some r := by
  obtain ⟨cs, hcs⟩ := hrun.cwd_at hreach.cwd_at
  refine ⟨?_, hcs.fits, fun path os w vfs' code w' hcall => ?_, fun path htakes os w => ?_⟩
  · rw [hcs.path, pathOf_eq_ite]
    split
    · exact Or.inl rfl
    · next hroot => exact Or.inr ⟨isNormal_absPath cs, hroot⟩
  · obtain ⟨hmoved, hkept⟩ := (vfsChdir_yields _ path).result hcall
    refine ⟨fun hne => ?_, fun hok => ?_⟩
    · rw [(hkept hne).cwd]
    · obtain ⟨p, rfl, hsan, hmove⟩ := hmoved hok
      refine ⟨p, absPath (resolve vfs.cwd.path p), rfl,
        sanitizePath_eval_iff.mpr ⟨hsan, rfl⟩, ?_⟩
      rw [hmove.cwd.path, pathOf_eq_ite]
  · obtain ⟨r, w', hcall, -⟩ := vfsChdir_returns htakes os w
    exact ⟨_, hcall⟩

/-- When there is no memory for the longer path, the old one stays. -/
theorem vfsChdir_cwd_outOfMemory :
    ∃ vfs vfs' w', configured [⟨"/a".toList, none, 0, 0⟩] = some vfs ∧
      vfsChdir vfs (some "/a/".toList) Os.empty ⟨[true, true, false], []⟩ =
        some ((vfs', .internalError), w') ∧
      vfs'.cwd.path = vfs.cwd.path := by
  have hrun : ((configured [⟨"/a".toList, none, 0, 0⟩]).bind fun vfs =>
      (vfsChdir vfs (some "/a/".toList) Os.empty ⟨[true, true, false], []⟩).map fun r => r.1.2) =
      some .internalError := by
    decide
  obtain ⟨vfs, hvfs, h⟩ := Option.bind_eq_some_iff.mp hrun
  obtain ⟨⟨⟨vfs', code⟩, w'⟩, hchdir, hcode⟩ := Option.map_eq_some_iff.mp h
  obtain rfl : code = .internalError := hcode
  obtain ⟨-, -, hcalls, -⟩ := vfsChdir_cwd (reachable_configured hvfs).1 .start
  exact ⟨vfs, vfs', w', hvfs, hchdir, (hcalls _ _ _ vfs' _ w' hchdir).1 (by simp)⟩

/-! ## Going there and opening -/

section Moved

variable {vfs vfs' : Vfs} {cs : List Name}

/-- The working directory does not matter for the names. -/
theorem Vfs.Moved.openExit (h : vfs.Moved vfs' cs) (os : Os) (ds : List Name) :
    vfs'.openExit os ds = vfs.openExit os ds := by
  rw [h.rest]
  rfl

theorem Vfs.Moved.frozen (h : vfs.Moved vfs' cs) (hfrozen : vfs.inode.frozen = true) :
    vfs'.inode.frozen = true := by
  rw [h.rest]
  exact hfrozen

/-- Where a change of the directory leads. -/
theorem vfsChdir_moved {p : CStr} {os : Os}
    (hchdir : (vfsChdir vfs (some p)).eval os = some (vfs', .ok)) :
    vfs.Moved vfs' (resolve vfs.cwd.path p) := by
  obtain ⟨_, ⟨⟩, -, hmoved⟩ : ∃ p', some p = some p' ∧ Sanitizable vfs.cwd.path p' ∧
      vfs.Moved vfs' (resolve vfs.cwd.path p') :=
    ((vfsChdir_yields vfs (some p)).eval hchdir).moved rfl
  exact hmoved

end Moved

/-- Opening one path here and the other there comes back with the same code and the same handle. -/
def OpensAlike (os : Os) (vfs : Vfs) (path : CStr) (vfs' : Vfs) (path' : CStr) : Prop :=
  ∃ r r', (vfsOpenNode vfs (some path)).eval os = some r ∧
    (vfsOpenNode vfs' (some path')).eval os = some r' ∧
    r.2.code = r'.2.code ∧ r.2.handle = r'.2.handle

/-- Two lists of names are the same, or both are refused with one error before the system is
asked. -/
def Vfs.ServesAlike (vfs : Vfs) (cs ds : List Name) : Prop :=
  cs = ds ∨ vfs.refusal cs ≠ none ∧ vfs.refusal cs = vfs.refusal ds

/-- What it takes for two lists of names to have one exit on every system. -/
theorem Vfs.servesAlike_iff {vfs : Vfs} {cs ds : List Name} :
    vfs.ServesAlike cs ds ↔ ∀ os, (vfs.openExit os cs).code = (vfs.openExit os ds).code ∧
      (vfs.openExit os cs).handle = (vfs.openExit os ds).handle := by
  constructor
  · rintro (rfl | ⟨hrefused, hsame⟩) os
    · exact ⟨rfl, rfl⟩
    · obtain ⟨code, hcode⟩ := Option.ne_none_iff_exists'.mp hrefused
      obtain ⟨hcs, hnone⟩ := openExit_refusal hcode os
      obtain ⟨hds, hnone'⟩ := openExit_refusal (hsame.symm.trans hcode) os
      exact ⟨hcs.trans hds.symm, hnone.trans hnone'.symm⟩
  · intro hsame
    obtain ⟨hcode, hhandle⟩ := hsame Os.empty
    cases hcs : vfs.refusal cs with
    | some code =>
      obtain ⟨hexit, hnone⟩ := openExit_refusal hcs Os.empty
      cases hds : vfs.refusal ds with
      | some code' =>
        obtain ⟨hexit', -⟩ := openExit_refusal hds Os.empty
        refine .inr ⟨by simp [hcs], ?_⟩
        rw [hcs, hds, ← hexit, ← hexit', hcode]
      | none =>
        -- one is refused, the other opens
        obtain ⟨handle, hopen⟩ := openExit_unrefused hds
        rw [hnone, hopen] at hhandle
        exact absurd hhandle (Option.some_ne_none handle).symm
    | none =>
      -- the virtual path of the handle tells the names
      obtain ⟨handle, hopen⟩ := openExit_unrefused hcs
      rw [hopen] at hhandle
      have hopen' := OpenNodeExit.handle_eq_some.mp hhandle.symm
      left
      apply absPath_injective
      rw [show absPath cs = handle.virtualPath by rw [Vfs.openExit_opened hopen]; rfl,
        Vfs.openExit_opened hopen']
      rfl

/-- What it takes for a path below `p` to be the same before and after the change: both paths can
be sanitised, and what is read of them is served alike. -/
structure ReadsAlike (vfs : Vfs) (p q : CStr) : Prop where
  rest : Sanitizable (pathOf (resolve vfs.cwd.path p)) q
  whole : Sanitizable vfs.cwd.path (p ++ '/' :: q)
  alike : vfs.ServesAlike (resolve (pathOf (resolve vfs.cwd.path p)) q)
    (resolve vfs.cwd.path (p ++ '/' :: q))

/-- As long as an `int` holds the length of the whole path, the names are the same. -/
theorem ReadsAlike.of_length {vfs : Vfs} (hready : vfs.Ready) {p q : CStr} (hp : p ≠ [])
    (hq : isAbsolutePath q = false)
    (hlength : (joinedPath vfs.cwd.path (p ++ '/' :: q)).length + 1 < 2 ^ 31) :
    ReadsAlike vfs p q := by
  obtain ⟨hshorter, hnames⟩ := resolve_resolve hp hq (Nat.lt_of_succ_lt hlength)
  refine ⟨.of_length (.inr (isAbsolutePath_pathOf _)) ?_, hready.sanitizable hlength, .inl hnames⟩
  exact (Nat.add_le_add_right hshorter 1).trans_lt hlength

/-- **Changing directory and relative access.** What a relative path opens after a change to `p` is
what `p`, a slash and the path open before it, whatever the system holds, just where the two are
read alike; and they are where an `int` holds the length of the whole path. -/
theorem vfsOpenNode_chdir_iff {vfs vfs' : Vfs} (hreach : Reachable vfs)
    (hfrozen : vfs.inode.frozen = true) {p q : CStr} (hp : p ≠ []) {os : Os}
    (hchdir : (vfsChdir vfs (some p)).eval os = some (vfs', .ok))
    (hq : isAbsolutePath q = false) :
    ((∀ os', OpensAlike os' vfs' q vfs (p ++ '/' :: q)) ↔ ReadsAlike vfs p q) ∧
      ((joinedPath vfs.cwd.path (p ++ '/' :: q)).length + 1 < 2 ^ 31 → ReadsAlike vfs p q) := by
  have hmoved := vfsChdir_moved hchdir
  have hreach' : Reachable vfs' := hreach.step (.chdir (some p) os .ok hchdir)
  have hfrozen' := hmoved.frozen hfrozen
  have hrest (hsan : Sanitizable vfs'.cwd.path q) (os' : Os) :
      (vfsOpenNode vfs' (some q)).eval os' =
        some (vfs', vfs.openExit os' (resolve (pathOf (resolve vfs.cwd.path p)) q)) := by
    rw [vfsOpenNode_eval hreach' hfrozen' hsan, hmoved.openExit, hmoved.cwd.path]
  have hpath : vfs'.cwd.path = pathOf (resolve vfs.cwd.path p) := hmoved.cwd.path
  refine ⟨⟨fun halike => ?_, fun hreads os' => ?_⟩, .of_length hreach.valid.ready hp hq⟩
  · have hsan : Sanitizable vfs'.cwd.path q := by
      by_contra hnot
      obtain ⟨r, -, hrun, -⟩ := halike Os.empty
      have hready := hreach'.valid.ready
      rw [vfsOpenNode_unjoined hready.handles hq (mt hready.sanitizable hnot)] at hrun
      exact absurd hrun (by simp)
    have hsan' : Sanitizable vfs.cwd.path (p ++ '/' :: q) := by
      by_contra hnot
      obtain ⟨r, ⟨vfs1, exit'⟩, hrun, hrun', hcode, -⟩ := halike Os.empty
      obtain rfl := Option.some.inj ((hrest hsan Os.empty).symm.trans hrun)
      obtain ⟨hroom, hinternal⟩ := openExit_empty vfs
        (resolve (pathOf (resolve vfs.cwd.path p)) q)
      obtain ⟨⟨r', w'⟩, hcall, hr⟩ := Option.map_eq_some_iff.mp hrun'
      obtain rfl : r' = (vfs1, exit') := hr
      rcases (vfsOpenNode_unsanitized hnot Os.empty {}).result hcall with hexit | hexit | hexit
      · exact hroom (hcode.trans (congrArg _ hexit))
      · exact hinternal (hcode.trans (congrArg _ hexit))
      · exact hinternal (hcode.trans (congrArg _ hexit))
    refine ⟨hpath ▸ hsan, hsan', Vfs.servesAlike_iff.mpr fun os' => ?_⟩
    obtain ⟨r, r', hrun, hrun', hsame⟩ := halike os'
    obtain rfl := Option.some.inj ((hrest hsan os').symm.trans hrun)
    obtain rfl := Option.some.inj ((vfsOpenNode_eval hreach hfrozen hsan').symm.trans hrun')
    exact hsame
  · refine ⟨_, _, hrest (hpath ▸ hreads.rest) os', vfsOpenNode_eval hreach hfrozen hreads.whole, ?_⟩
    exact Vfs.servesAlike_iff.mp hreads.alike os'

theorem vfsOpenNode_chdir_dotdot :
    ∃ vfs vfs', configured [⟨"/a/b".toList, some "/srv".toList, 0, 0⟩] = some vfs ∧
      (vfsChdir vfs (some "a/../a//".toList)).eval Os.empty = some (vfs', .ok) ∧
      ∀ os, OpensAlike os vfs' "../../a/b/x".toList vfs
        ("a/../a//".toList ++ '/' :: "../../a/b/x".toList) := by
  have hrun : ((configured [⟨"/a/b".toList, some "/srv".toList, 0, 0⟩]).bind fun vfs =>
      ((vfsChdir vfs (some "a/../a//".toList)).eval Os.empty).map fun r => r.2) = some .ok := by
    decide
  obtain ⟨vfs, hvfs, h⟩ := Option.bind_eq_some_iff.mp hrun
  obtain ⟨⟨vfs', code⟩, hchdir, hcode⟩ := Option.map_eq_some_iff.mp h
  obtain rfl : code = .ok := hcode
  obtain ⟨hreach, hfrozen⟩ := reachable_configured hvfs
  have hq : isAbsolutePath "../../a/b/x".toList = false := by decide
  have hcwd : vfs.cwd.path = [] := by
    have hpath : (configured [⟨"/a/b".toList, some "/srv".toList, 0, 0⟩]).map
        (fun vfs => vfs.cwd.path) = some [] := by decide
    rw [hvfs] at hpath
    exact Option.some.inj hpath
  have hlength : (joinedPath vfs.cwd.path ("a/../a//".toList ++ '/' :: "../../a/b/x".toList)).length
      + 1 < 2 ^ 31 := by
    rw [hcwd]
    decide
  obtain ⟨hiff, hreads⟩ := vfsOpenNode_chdir_iff hreach hfrozen (by decide) hchdir hq
  exact ⟨vfs, vfs', hvfs, hchdir, hiff.mpr (hreads hlength)⟩

/-- Opening depends on a path only through what it is sanitised to. -/
theorem vfsOpenNode_congr {vfs : Vfs} {path path' : CStr} (h : Sanitizable vfs.cwd.path path)
    (h' : Sanitizable vfs.cwd.path path') (hnames : vfs.resolved path = vfs.resolved path') :
    vfsOpenNode vfs (some path) = vfsOpenNode vfs (some path') := by
  have hsanitize : sanitizePath vfs.cwd.path path = sanitizePath vfs.cwd.path path' := by
    rw [sanitizePath_eq h, sanitizePath_eq h']
    exact congrArg (fun cs => do return if ← Exec.malloc then some (absPath cs) else none) hnames
  unfold vfsOpenNode
  simp only [hsanitize]

/-- An absolute path no part of which is read is that of the root. -/
theorem vfsOpenNode_unread (vfs : Vfs) {path : CStr} (habs : isAbsolutePath path = true)
    (hpos : 1 ≤ intLength path) (hfits : intLength path + 1 < 2 ^ 31)
    (hread : namesRead path = []) :
    vfsOpenNode vfs (some path) = vfsOpenNode vfs (some ['/']) := by
  have hjoined : ∀ {path : CStr}, isAbsolutePath path = true →
      joinedPath vfs.cwd.path path = path := fun habs => if_pos habs
  refine vfsOpenNode_congr ⟨.inl habs, .inl habs, ?_, ?_⟩ (.of_length (.inl rfl) ?_) ?_
  · rwa [hjoined habs]
  · rwa [hjoined habs]
  · rw [hjoined rfl]
    decide
  · unfold Vfs.resolved resolve
    rw [hjoined habs, hjoined rfl, hread]
    rfl

/-- A name of `2 ^ 32` characters is left out at the end of a path, and what comes behind it as
well: in the directory the path opens, and behind the name it does not. -/
theorem vfsOpenNode_chdir_wraps :
    ∃ vfs vfs' after before, configured [⟨"/a".toList, none, 0, 0⟩] = some vfs ∧
      (vfsChdir vfs (some (absPath [nameOf (2 ^ 32) (by decide)]))).eval Os.empty =
        some (vfs', .ok) ∧
      (vfsOpenNode vfs' (some ['a'])).eval Os.empty = some (vfs', after) ∧
      (vfsOpenNode vfs (some (absPath [nameOf (2 ^ 32) (by decide)] ++ '/' :: ['a']))).eval
        Os.empty = some (vfs, before) ∧
      after.code = .ok ∧ before.code = .ok ∧
      after.handle.map VfsHandle.virtualPath = some "/a".toList ∧
      before.handle.map VfsHandle.virtualPath = some "/".toList := by
  have hlength := intLength_nameOf (k := 2 ^ 32) (n := 1) (by decide) (by decide) (by decide)
  have hlonger : intLength (absPath [nameOf (2 ^ 32) (by decide)] ++ '/' :: ['a']) = 3 := by
    apply intLength_of_mod (n := 3) _ (by decide)
    rw [List.length_append, absPath_nameOf, List.length_cons, List.length_replicate]
    rfl
  have hread := namesRead_nameOf (k := 2 ^ 32) (n := 1) (by decide) []
    (by rw [List.append_nil]; exact hlength) (by decide)
  have hread' := namesRead_nameOf (k := 2 ^ 32) (n := 3) (by decide) _ hlonger (by decide)
  rw [List.append_nil] at hread
  generalize nameOf (2 ^ 32) _ = name at hlength hlonger hread hread' ⊢
  have habs : isAbsolutePath (absPath [name]) = true := (canonical_absPath _).isAbsolutePath
  have habs' : isAbsolutePath (absPath [name] ++ '/' :: ['a']) = true := rfl
  have hrun : ((configured [⟨"/a".toList, none, 0, 0⟩]).bind fun vfs =>
      ((vfsChdir vfs (some ['/'])).eval Os.empty).bind fun moved =>
        ((vfsOpenNode moved.1 (some ['a'])).eval Os.empty).bind fun after =>
          ((vfsOpenNode vfs (some ['/'])).eval Os.empty).map fun before =>
            decide (moved.2 = .ok ∧ after.2.code = .ok ∧ before.2.code = .ok ∧
              after.2.handle.map VfsHandle.virtualPath = some "/a".toList ∧
              before.2.handle.map VfsHandle.virtualPath = some "/".toList)) = some true := by
    decide
  obtain ⟨vfs, hvfs, hrun⟩ := Option.bind_eq_some_iff.mp hrun
  obtain ⟨⟨vfs', code⟩, hchdir, hrun⟩ := Option.bind_eq_some_iff.mp hrun
  obtain ⟨⟨vfs1, after⟩, hafter, hrun⟩ := Option.bind_eq_some_iff.mp hrun
  obtain ⟨⟨vfs2, before⟩, hbefore, hrun⟩ := Option.map_eq_some_iff.mp hrun
  obtain ⟨hcode, hok, hok', hpaths⟩ := of_decide_eq_true hrun
  obtain rfl : code = .ok := hcode
  obtain ⟨hreach, hfrozen⟩ := reachable_configured hvfs
  have hreach' : Reachable vfs' := hreach.step (.chdir (some ['/']) Os.empty .ok hchdir)
  have hfrozen' := (vfsChdir_moved hchdir).frozen hfrozen
  obtain ⟨-, rfl, -⟩ := vfsOpenNode_eval_opened hreach hfrozen hbefore hok'
  obtain ⟨-, rfl, -⟩ := vfsOpenNode_eval_opened hreach' hfrozen' hafter hok
  have hroot := vfsOpenNode_unread vfs2 habs (by rw [hlength]; decide) (by rw [hlength]; decide)
    hread
  have hroot' := vfsOpenNode_unread vfs2 habs' (by rw [hlonger]; decide)
    (by rw [hlonger]; decide) hread'
  refine ⟨vfs2, vfs1, after, before, hvfs, ?_, hafter, ?_, hok, hok', hpaths⟩
  · unfold vfsChdir at hchdir ⊢
    rw [hroot]
    exact hchdir
  · rw [hroot']
    exact hbefore

end Umsftpd
