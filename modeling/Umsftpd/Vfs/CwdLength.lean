import Umsftpd.Vfs.AddingRuns
import Umsftpd.Vfs.Reachable

/-!
# The recorded length of the working directory

`vfs_set_cwd` notes the length of a path only where it takes a larger buffer for it. `cwd.length`
is therefore the length of the longest path of the run, the slash of `vfs_init` among them, which is
cut after it is counted. It is the length of `cwd.path` just where the directory is not the root and
none before it was longer.
-/

namespace Umsftpd

open CLib Paths

/-! ## Runs -/

/-- The file systems after `vfs_init`, calls that configure them and calls of `vfs_chdir`, whatever
the system answers and whichever allocations fail; with the directories that were changed to, the
last one first. -/
inductive CwdRun : List (List Name) → Vfs → Prop
  | init {vfs : Vfs} (os : Os) (w w' : World) (h : vfsInit os w = some (some vfs, w')) :
      CwdRun [] vfs
  | setBaseFlags {dirs : List (List Name)} {vfs : Vfs} (hrun : CwdRun dirs vfs)
      (baseFlags : Flags) :
      CwdRun dirs { vfs with inode := { vfs.inode with baseFlags := baseFlags } }
  | addInode {dirs : List (List Name)} {vfs vfs' : Vfs} (hrun : CwdRun dirs vfs)
      (d : Declaration) (os : Os) (w w' : World) (ok : Bool)
      (h : d.add vfs os w = some ((ok, vfs'), w')) : CwdRun dirs vfs'
  | freeze {dirs : List (List Name)} {vfs : Vfs} (hrun : CwdRun dirs vfs) (libc : LibC) :
      CwdRun dirs (vfsFreezeInodes libc vfs)
  | chdir {dirs : List (List Name)} {vfs vfs' : Vfs} (hrun : CwdRun dirs vfs) (path : CStr)
      (os : Os) (w w' : World) (h : vfsChdir vfs (some path) os w = some ((vfs', .ok), w')) :
      CwdRun (resolve vfs.cwd.path path :: dirs) vfs'
  | refused {dirs : List (List Name)} {vfs vfs' : Vfs} (hrun : CwdRun dirs vfs)
      (path : Option CStr) (os : Os) (w w' : World) (code : VfsError) (hne : code ≠ .ok)
      (h : vfsChdir vfs path os w = some ((vfs', code), w')) : CwdRun dirs vfs'

theorem CwdRun.addAll {ds : List Declaration} {dirs : List (List Name)} {vfs vfs' : Vfs}
    {oks : List Bool} {os : Os} (hrun : CwdRun dirs vfs)
    (h : (Umsftpd.addAll ds vfs).eval os = some (oks, vfs')) : CwdRun dirs vfs' := by
  obtain ⟨⟨r, w⟩, hall, rfl⟩ := Option.map_eq_some_iff.mp h
  refine addAll_induction (P := CwdRun dirs) ?_ hall hrun
  intro d vfs vfs' ok hrun hadd
  exact hrun.addInode d os _ _ ok hadd

theorem CwdRun.configured {ds : List Declaration} {vfs : Vfs}
    (h : Umsftpd.configured ds = some vfs) : CwdRun [] vfs := by
  obtain ⟨⟨oks, vfs'⟩, hadd, rfl⟩ := Option.map_eq_some_iff.mp h
  have hinit : CwdRun [] (initialVfs 0) := .init Os.empty ⟨[], []⟩ ⟨[], []⟩ (vfsInit_apply _ _)
  exact (hinit.addAll hadd).freeze _

/-! ## What is recorded -/

/-- The length of the longest path that was stored; the first was the slash. -/
def recordedLength : List (List Name) → Nat
  | [] => 1
  | cs :: dirs => max (recordedLength dirs) (absPath cs).length

/-- What `vfs.cwd` holds after the directories. -/
def recordedCwd (dirs : List (List Name)) : VfsCwd where
  allocedSize := recordedLength dirs + 1
  length := recordedLength dirs
  path := pathOf (dirs.headD [])

/-- The last directory is not the root, and none before it has a longer path. -/
def LongestSoFar : List (List Name) → Prop
  | [] => False
  | cs :: earlier => cs ≠ [] ∧ ∀ es ∈ earlier, (absPath es).length ≤ (absPath cs).length

theorem recordedLength_le_iff (dirs : List (List Name)) (n : Nat) :
    recordedLength dirs ≤ n ↔ 1 ≤ n ∧ ∀ cs ∈ dirs, (absPath cs).length ≤ n := by
  induction dirs with
  | nil => simp [recordedLength]
  | cons cs dirs ih =>
    rw [recordedLength, Nat.max_le, ih, List.forall_mem_cons]
    constructor
    · rintro ⟨⟨hpos, hdirs⟩, hcs⟩
      exact ⟨hpos, hcs, hdirs⟩
    · rintro ⟨hpos, hcs, hdirs⟩
      exact ⟨⟨hpos, hdirs⟩, hcs⟩

theorem recordedLength_pos (dirs : List (List Name)) : 1 ≤ recordedLength dirs :=
  ((recordedLength_le_iff dirs _).mp (Nat.le_refl _)).1

/-- The root is stored as the empty string, which nothing recorded is as short as. -/
theorem recordedLength_eq_iff (dirs : List (List Name)) :
    recordedLength dirs = (pathOf (dirs.headD [])).length ↔ LongestSoFar dirs := by
  cases dirs with
  | nil => simp [recordedLength, LongestSoFar]
  | cons cs earlier =>
    show recordedLength (cs :: earlier) = (pathOf cs).length ↔
      cs ≠ [] ∧ ∀ es ∈ earlier, (absPath es).length ≤ (absPath cs).length
    by_cases hroot : cs = []
    · subst hroot
      have hpos := recordedLength_pos ([] :: earlier)
      constructor
      · intro heq
        rw [heq] at hpos
        exact absurd hpos (Nat.not_succ_le_zero 0)
      · rintro ⟨hne, -⟩
        exact absurd rfl hne
    · have hpos : 1 ≤ (absPath cs).length := List.length_pos_of_ne_nil (absPath_ne_nil cs)
      rw [← absPath_of_ne_nil hroot, recordedLength, max_eq_right_iff, recordedLength_le_iff]
      constructor
      · rintro ⟨-, hle⟩
        exact ⟨hroot, hle⟩
      · rintro ⟨-, hle⟩
        exact ⟨hpos, hle⟩

/-! ## What a run records -/

/-- The step: a stored path is one more directory. -/
theorem recordedCwd_moved (dirs : List (List Name)) (cs : List Name) :
    (recordedCwd dirs).moved cs = recordedCwd (cs :: dirs) := by
  unfold VfsCwd.moved
  by_cases hlonger : (absPath cs).length + 1 > (recordedCwd dirs).allocedSize
  · have hle : recordedLength dirs ≤ (absPath cs).length :=
      Nat.le_of_lt (Nat.lt_of_succ_lt_succ hlonger)
    dsimp only
    rw [if_pos hlonger, recordedCwd, recordedLength, Nat.max_eq_right hle]
    rfl
  · have hle : (absPath cs).length ≤ recordedLength dirs :=
      Nat.le_of_succ_le_succ (Nat.not_lt.mp hlonger)
    dsimp only
    rw [if_neg hlonger, recordedCwd, recordedCwd, recordedLength, Nat.max_eq_left hle]
    rfl

/-- `vfs_init` stores the slash in a buffer that was empty. -/
theorem vfsInit_always :
    Exec.Always vfsInit fun r => ∀ vfs, r = some vfs → vfs.cwd = recordedCwd [] := by
  unfold vfsInit
  apply Exec.Always.malloc
  rintro (_ | _)
  · exact .pure fun vfs h => absurd h (by simp)
  · apply (vfsSetCwd_always {} []).bind
    rintro ⟨success, vfs1⟩ hset
    cases success with
    | false => exact .pure fun vfs h => absurd h (by simp)
    | true =>
      obtain rfl : vfs1 = { ({} : Vfs) with cwd := ({} : Vfs).cwd.moved [] } := hset
      apply Exec.Always.pure
      rintro vfs ⟨⟩
      rfl

/-- The run: `vfs.cwd` is what its directories record. -/
theorem CwdRun.cwd_eq {dirs : List (List Name)} {vfs : Vfs} (hrun : CwdRun dirs vfs) :
    vfs.cwd = recordedCwd dirs := by
  induction hrun with
  | init os w w' h => exact vfsInit_always.result h _ rfl
  | setBaseFlags _ _ ih => exact ih
  | addInode _ d os w w' ok h ih =>
    rw [(d.add_extends _ os w _ w' h).settings.cwd]
    exact ih
  | freeze _ libc ih =>
    rw [vfsFreezeInodes_cwd]
    exact ih
  | @chdir dirs vfs vfs' _ path os w w' h ih =>
    obtain ⟨p, hp, -, rfl⟩ := ((vfsChdir_effect vfs (some path)).result h).moved rfl
    obtain rfl : path = p := Option.some.inj hp
    show vfs.cwd.moved _ = _
    rw [ih, recordedCwd_moved]
  | @refused dirs vfs vfs' _ path os w w' code hne h ih =>
    rw [(((vfsChdir_effect vfs path).result h).kept hne).cwd]
    exact ih

/-- **The recorded length.** It is the length of the working directory just where that is not the
root and as long as every directory before it; after `vfs_init` it is not. -/
theorem CwdRun.length_eq_iff {dirs : List (List Name)} {vfs : Vfs} (hrun : CwdRun dirs vfs) :
    vfs.cwd.length = vfs.cwd.path.length ↔ LongestSoFar dirs := by
  rw [hrun.cwd_eq]
  exact recordedLength_eq_iff dirs

/-- The first directory of a run is longer than the slash. -/
theorem CwdRun.length_eq_first :
    ∃ dirs vfs, CwdRun dirs vfs ∧ vfs.cwd.path = "/a/b".toList ∧
      vfs.cwd.length = vfs.cwd.path.length := by
  have hrun : ((Umsftpd.configured [⟨"/a/b".toList, none, 0, 0⟩]).bind fun vfs =>
      (vfsChdir vfs (some "/a/b".toList) Os.empty ⟨[], []⟩).map fun r =>
        (r.1.2, r.1.1.cwd.path)) = some (.ok, "/a/b".toList) := by
    decide
  obtain ⟨vfs, hvfs, h⟩ := Option.bind_eq_some_iff.mp hrun
  obtain ⟨⟨⟨vfs', code⟩, w'⟩, hchdir, heq⟩ := Option.map_eq_some_iff.mp h
  obtain ⟨rfl, hpath⟩ : code = .ok ∧ vfs'.cwd.path = "/a/b".toList := Prod.mk.inj heq
  have hstart : CwdRun [] vfs := CwdRun.configured hvfs
  have hdir : resolve vfs.cwd.path "/a/b".toList ≠ [] := by
    rw [hstart.cwd_eq]
    decide
  refine ⟨_, vfs', hstart.chdir _ _ _ _ hchdir, hpath, ?_⟩
  exact (CwdRun.length_eq_iff (hstart.chdir _ _ _ _ hchdir)).mpr ⟨hdir, by simp⟩

/-- `cd /a/b` and then `cd ..`: the length stays that of the longer path. -/
theorem cwd_length_stale :
    ∃ vfs vfs1 vfs2 w1 w2, Umsftpd.configured [⟨"/a/b".toList, none, 0, 0⟩] = some vfs ∧
      vfsChdir vfs (some "/a/b".toList) Os.empty ⟨[], []⟩ = some ((vfs1, .ok), w1) ∧
      vfsChdir vfs1 (some "..".toList) Os.empty ⟨[], []⟩ = some ((vfs2, .ok), w2) ∧
      (∃ dirs, CwdRun dirs vfs2) ∧ vfs2.cwd.path = "/a".toList ∧ vfs2.cwd.length = 4 ∧
      vfs2.cwd.length ≠ vfs2.cwd.path.length := by
  have hrun : ((Umsftpd.configured [⟨"/a/b".toList, none, 0, 0⟩]).bind fun vfs =>
      (vfsChdir vfs (some "/a/b".toList) Os.empty ⟨[], []⟩).bind fun r =>
        (vfsChdir r.1.1 (some "..".toList) Os.empty ⟨[], []⟩).map fun r' =>
          (r.1.2, r'.1.2, r'.1.1.cwd.path, r'.1.1.cwd.length)) =
      some (.ok, .ok, "/a".toList, 4) := by
    decide
  obtain ⟨vfs, hvfs, h⟩ := Option.bind_eq_some_iff.mp hrun
  obtain ⟨⟨⟨vfs1, code1⟩, w1⟩, hdown, h⟩ := Option.bind_eq_some_iff.mp h
  obtain ⟨⟨⟨vfs2, code2⟩, w2⟩, hup, heq⟩ := Option.map_eq_some_iff.mp h
  obtain ⟨rfl, rfl, hpath, hlength⟩ :
      code1 = .ok ∧ code2 = .ok ∧ vfs2.cwd.path = "/a".toList ∧ vfs2.cwd.length = 4 := by
    simpa using heq
  have hlonger : CwdRun _ vfs1 := (CwdRun.configured hvfs).chdir _ _ _ _ hdown
  refine ⟨vfs, vfs1, vfs2, w1, w2, hvfs, hdown, hup, ⟨_, hlonger.chdir _ _ _ _ hup⟩, hpath,
    hlength, ?_⟩
  rw [hpath, hlength]
  decide

end Umsftpd
