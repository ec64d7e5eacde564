import Umsftpd.Vfs.NodeRuns
import Umsftpd.Vfs.Outcomes
import Umsftpd.Vfs.Readers

/-!
# Opening directories and files in any state

What `vfs_opendir` and `vfs_open` make of a node, from any state and with any outcomes of their
allocations: whose the handle is afterwards, what can be read through it, and which files are
created.
-/

namespace Umsftpd

open CLib Paths

/-! ## Readable handles -/

/-- There is something to read through the handle. -/
def VfsHandle.Readable (handle : VfsHandle) : Prop := handle.inode ≠ none ∨ handle.dir ≠ none

/-- Through a directory handle that is not readable every call fails. -/
theorem vfsReaddir_unreadable (libc : LibC) (vfs : Vfs) {handle : VfsHandle}
    (h : ¬handle.Readable) (before : VfsDirent) :
    vfsReaddir libc vfs handle before = some (.internalError, vfs, handle, before) := by
  obtain ⟨hinode, hdir⟩ : handle.inode = none ∧ handle.dir = none := by
    simpa [VfsHandle.Readable] using h
  unfold vfsReaddir
  simp only [hinode, hdir, Option.isNone_none, Bool.and_self, if_true, ite_self]

theorem vfsReaddirLoop_internalError {libc : LibC} {handle : VfsHandle} {dir : Dir}
    {entries rest : List (Except Errno Dirent)} {vfs vfs' : Vfs} {before after : VfsDirent}
    (h : vfsReaddirLoop libc handle dir entries vfs before =
      some (.internalError, vfs', rest, after)) : ∃ errno, .error errno ∈ entries := by
  induction entries generalizing vfs before with
  | nil => simp [vfsReaddirLoop] at h
  | cons entry entries ih =>
    cases entry with
    | error errno => exact ⟨errno, List.mem_cons_self⟩
    | ok dirent =>
      have hmore : ∀ {vfs before}, vfsReaddirLoop libc handle dir entries vfs before =
          some (.internalError, vfs', rest, after) →
          ∃ errno, .error errno ∈ Except.ok dirent :: entries :=
        fun h => (ih h).imp fun _ => List.mem_cons_of_mem _
      rw [vfsReaddirLoop] at h
      split at h
      · exact hmore h
      · obtain ⟨⟨found, vfs1⟩, -, h⟩ := Option.bind_eq_some_iff.mp h
        dsimp only at h
        split at h
        · exact hmore h
        · split at h
          · exact hmore h
          · split at h
            · exact hmore h
            · exact absurd h (by simp)

/-- Through a directory handle that is readable a call fails only with an error of `readdir`. -/
theorem VfsHandle.Readable.readdir {libc : LibC} {vfs vfs' : Vfs} {handle handle' : VfsHandle}
    {before after : VfsDirent} (h : handle.Readable) (htype : handle.type = .dirHandle)
    (hrun : vfsReaddir libc vfs handle before = some (.internalError, vfs', handle', after)) :
    ∃ dir errno, handle.dir = some dir ∧ .error errno ∈ dir.entries := by
  have hreal : vfsReaddirReal libc vfs handle before =
        some (.internalError, vfs', handle', after) →
      ∃ dir errno, handle.dir = some dir ∧ .error errno ∈ dir.entries := by
    intro h
    unfold vfsReaddirReal at h
    cases hdir : handle.dir with
    | none => simp [hdir] at h
    | some dir =>
      rw [hdir] at h
      obtain ⟨⟨code, vfs1, rest, after1⟩, hloop, hrest⟩ := Option.bind_eq_some_iff.mp h
      obtain rfl : code = .internalError := congrArg Prod.fst (Option.some.inj hrest)
      obtain ⟨errno, hmem⟩ := vfsReaddirLoop_internalError hloop
      exact ⟨dir, errno, rfl, hmem⟩
  have hthere : ¬(handle.inode.isNone && handle.dir.isNone) = true := by
    rcases h with h | h <;> simp [h]
  unfold vfsReaddir at hrun
  rw [if_neg (by simp [htype]), if_neg hthere] at hrun
  split at hrun
  · exact hreal hrun
  · obtain ⟨list, -, hrun⟩ := Option.bind_eq_some_iff.mp hrun
    split at hrun
    · exact absurd hrun (by simp)
    · exact hreal hrun

/-- Success of `vfs_opendir` is a readable handle, and without a virtual directory the success of
`opendir`. -/
structure ReadableSuccess (vfs : Vfs) (os : Os) (path : CStr)
    (r : Vfs × VfsError × Option VfsHandle) : Prop where
  readable : r.2.1 = .ok → ∃ handle, r.2.2 = some handle ∧ handle.Readable ∧
    ∀ libc before vfs' handle' after,
      vfsReaddir libc r.1 handle before = some (.internalError, vfs', handle', after) →
      ∃ dir errno, handle.dir = some dir ∧ .error errno ∈ dir.entries
  refused : vfs.nodeAt (vfs.resolved path) = none →
    (∀ dir, os.opendir (vfs.openHandle (vfs.resolved path)).mappedPath ≠ .ok dir) → r.2.1 ≠ .ok

/-- **Readable handles.** What `vfs_opendir` answers to a path means what it says unless the path
opens, has no inode and its real path cannot be opened. An answer comes of every path that can be
sanitised, unless it opens unmapped and `opendir(NULL)` is called. -/
theorem vfsOpendir_readable_iff (vfs : Vfs) (path : CStr) (os : Os) (w : World) :
    (∀ r w', vfsOpendir vfs (some path) os w = some (r, w') →
      (ReadableSuccess vfs os path r ↔
        (NodeOpens vfs os w path → vfs.nodeAt (vfs.resolved path) ≠ none ∨
          ∃ dir, os.opendir ((vfs.mountAt (vfs.resolved path)).map fun mountpoint =>
            vfs.realPathAt mountpoint (vfs.resolved path)) = .ok dir))) ∧
    (vfs.Takes (some path) → vfs.OpensMapped os w (some path) →
      ∃ r, vfsOpendir vfs (some path) os w = some r) := by
  refine ⟨fun r w' hrun => ?_, fun htakes hmapped => ?_⟩
  swap
  · obtain ⟨r, w', hrun, -⟩ := vfsOpendir_returns htakes hmapped
    exact ⟨_, hrun⟩
  have hopendir := (vfsOpendir_ifReturns vfs (some path) os w).result hrun
  have hok : r.2.1 = .ok ↔ NodeOpens vfs os w path := by
    rw [hopendir.ok_iff]
    simp
  constructor
  · intro h hopens
    -- a path that opens is answered with `VFS_OK`, whatever comes of `opendir`
    by_contra hno
    obtain ⟨hnode, hdir⟩ := not_or.mp hno
    exact h.refused (not_not.mp hnode) (fun dir hd => hdir ⟨dir, hd⟩) (hok.mpr hopens)
  · intro h
    refine ⟨fun hcode => ?_, fun hnode hdir hcode => ?_⟩
    · obtain ⟨handle, hhandle⟩ := Option.ne_none_iff_exists'.mp (hopendir.given hcode)
      obtain ⟨-, -, p, hp, rfl⟩ := hopendir.opened handle hhandle
      obtain rfl := Option.some.inj hp
      have hreadable : (vfs.openDirectory os (vfs.resolved path)).Readable := by
        refine (h (hok.mp hcode)).imp id fun ⟨dir, hdir⟩ => ?_
        show (os.opendir _).toOption ≠ none
        rw [show os.opendir (vfs.openHandle (vfs.resolved path)).mappedPath = .ok dir from hdir]
        simp [Except.toOption]
      exact ⟨_, hhandle, hreadable, fun _ _ _ _ _ => hreadable.readdir rfl⟩
    · rcases h (hok.mp hcode) with hthere | ⟨dir, hd⟩
      · exact hthere hnode
      · exact hdir dir hd

/-- A directory that is not there opens, and its first entry is an error. -/
theorem vfsOpendir_missing :
    ∃ vfs handle, configured [⟨"/".toList, some "/srv".toList, 0, 0⟩] = some vfs ∧
      Reachable vfs ∧ vfs.inode.frozen = true ∧
      (vfsOpendir vfs (some "/x".toList)).eval Os.empty = some (vfs, .ok, some handle) ∧
      handle.inode = none ∧ handle.dir = none ∧
      (∀ path, Os.empty.opendir path = .error Errno.ENOENT) ∧
      vfsReaddir LibC.reference vfs handle {} = some (.internalError, vfs, handle, {}) := by
  have hrun : ((configured [⟨"/".toList, some "/srv".toList, 0, 0⟩]).bind fun vfs =>
      ((vfsOpendir vfs (some "/x".toList)).eval Os.empty).bind fun r =>
        r.2.2.map fun handle => (r.2.1, handle.inode.isNone, handle.dir.isNone)) =
      some (.ok, true, true) := by
    decide
  obtain ⟨vfs, hvfs, h⟩ := Option.bind_eq_some_iff.mp hrun
  obtain ⟨⟨vfs', code, opened⟩, hopendir, h⟩ := Option.bind_eq_some_iff.mp h
  obtain ⟨handle, rfl, heq⟩ := Option.map_eq_some_iff.mp h
  obtain ⟨rfl, hinode, hdir⟩ : code = .ok ∧ handle.inode.isNone = true ∧
      handle.dir.isNone = true := by
    simpa using heq
  obtain ⟨hreach, hfrozen⟩ := reachable_configured hvfs
  obtain ⟨rfl, -⟩ := vfsOpendir_eval hopendir
  rw [Option.isNone_iff_eq_none] at hinode hdir
  have hunreadable : ¬handle.Readable := by simp [VfsHandle.Readable, hinode, hdir]
  exact ⟨vfs', handle, hvfs, hreach, hfrozen, hopendir, hinode, hdir, fun _ => rfl,
    vfsReaddir_unreadable LibC.reference vfs' hunreadable {}⟩

/-! ## Whose the handle is -/

/-- A call that failed leaves no handle behind, with the one that it allocated closed once; a call
that succeeded leaves one that is open. -/
structure HandleOwned (allocated : Bool) (closed : Nat) (code : VfsError)
    (handle : Option VfsHandle) : Prop where
  failed : code ≠ .ok → handle = none ∧ closed = allocated.toNat
  given : code = .ok → handle ≠ none ∧ closed = 0

/-- A caller that closes every handle it finds closes none for the second time. -/
theorem HandleOwned.once {allocated : Bool} {closed : Nat} {code : VfsError}
    {handle : Option VfsHandle} (h : HandleOwned allocated closed code handle) :
    closed + handle.isSome.toNat ≤ 1 := by
  by_cases hcode : code = .ok
  · obtain ⟨-, rfl⟩ := h.given hcode
    rw [Nat.zero_add]
    exact Bool.toNat_le _
  · obtain ⟨rfl, rfl⟩ := h.failed hcode
    exact Bool.toNat_le _

/-- **Ownership of handles.** `vfs_opendir` leaves handles with whom they belong to, `vfs_open` does
unless the path opens and the file does not: then the handle is closed and its caller has it.
Otherwise no handle is closed twice when the caller closes the one that it finds. -/
theorem vfsOpen_handleOwned_iff (vfs : Vfs) (path : Option CStr) (mode : VfsFilemode) (os : Os)
    (w : World) :
    (∀ r w', vfsOpendir vfs path os w = some (r, w') → ∃ closed,
      w'.freed = w.freed + closed ∧ closed + r.2.2.isSome.toNat ≤ 1 ∧
      HandleOwned (handleAllocated vfs path w) closed r.2.1 r.2.2) ∧
    (∀ r w', vfsOpen vfs path mode os w = some (r, w') → ∃ closed,
      w'.freed = w.freed + closed ∧
      (HandleOwned (handleAllocated vfs path w) closed r.2.1 r.2.2 ↔
        ∀ p, path = some p → NodeOpens vfs os w p →
          FileOpens os (vfs.openHandle (vfs.resolved p)) mode) ∧
      (HandleOwned (handleAllocated vfs path w) closed r.2.1 r.2.2 →
        closed + r.2.2.isSome.toNat ≤ 1)) ∧
    (vfs.Takes path → (∃ r, vfsOpen vfs path mode os w = some r) ∧
      (vfs.OpensMapped os w path → ∃ r, vfsOpendir vfs path os w = some r)) := by
  refine ⟨fun r w' hrun => ?_, fun r w' hrun => ?_, fun htakes => ⟨?_, fun hmapped => ?_⟩⟩
  rotate_left 2
  · obtain ⟨r, w', hrun, -⟩ := vfsOpen_returns htakes mode os w
    exact ⟨_, hrun⟩
  · obtain ⟨r, w', hrun, -⟩ := vfsOpendir_returns htakes hmapped
    exact ⟨_, hrun⟩
  · have h := (vfsOpendir_ifReturns vfs path os w).result hrun
    have howned : HandleOwned (handleAllocated vfs path w)
        (if r.2.1 = .ok then 0 else (handleAllocated vfs path w).toNat) r.2.1 r.2.2 := by
      refine ⟨fun hcode => ⟨?_, if_neg hcode⟩, fun hcode => ⟨h.given hcode, if_pos hcode⟩⟩
      cases hhandle : r.2.2 with
      | none => rfl
      | some handle => exact absurd (h.opened handle hhandle).1 hcode
    exact ⟨_, h.freed, howned.once, howned⟩
  · have h := (vfsOpen_ifReturns vfs path mode os w).result hrun
    refine ⟨_, h.freed, ?_, HandleOwned.once⟩
    constructor
    · intro howned p hp hopens
      -- the handle is given away as soon as the path opens
      by_contra hno
      have hcode : r.2.1 ≠ .ok := by
        intro hok
        obtain ⟨p', hp', -, hfile⟩ := h.ok_iff.mp hok
        obtain rfl : p = p' := Option.some.inj (hp.symm.trans hp')
        exact hno hfile
      exact h.given_iff.mpr ⟨p, hp, hopens⟩ (howned.failed hcode).1
    · intro hfile
      have hgiven : r.2.2 ≠ none → r.2.1 = .ok := by
        intro hsome
        obtain ⟨p, hp, hopens⟩ := h.given_iff.mp hsome
        exact h.ok_iff.mpr ⟨p, hp, hopens, hfile p hp hopens⟩
      refine ⟨fun hcode => ⟨not_not.mp (mt hgiven hcode), if_neg hcode⟩, fun hcode =>
        ⟨?_, if_pos hcode⟩⟩
      obtain ⟨p, hp, hopens, -⟩ := h.ok_iff.mp hcode
      exact h.given_iff.mpr ⟨p, hp, hopens⟩

/-- A file that is not there: the handle is closed, and the caller has it. -/
theorem vfsOpen_missing :
    ∃ vfs vfs' handle w', configured [⟨"/".toList, some "/srv".toList, 0, 0⟩] = some vfs ∧
      vfsOpen vfs (some "/x".toList) .read Os.empty {} =
        some ((vfs', .noSuchFileOrDirectory, some handle), w') ∧
      w'.freed = 1 ∧
      ¬HandleOwned (handleAllocated vfs (some "/x".toList) {}) w'.freed .noSuchFileOrDirectory
        (some handle) := by
  have hrun : ((configured [⟨"/".toList, some "/srv".toList, 0, 0⟩]).bind fun vfs =>
      (vfsOpen vfs (some "/x".toList) .read Os.empty {}).map fun r =>
        (r.1.2.1, r.1.2.2.isSome, r.2.freed)) = some (.noSuchFileOrDirectory, true, 1) := by
    decide
  obtain ⟨vfs, hvfs, h⟩ := Option.bind_eq_some_iff.mp hrun
  obtain ⟨⟨⟨vfs', code, opened⟩, w'⟩, hopen, heq⟩ := Option.map_eq_some_iff.mp h
  obtain ⟨rfl, hsome, hfreed⟩ : code = .noSuchFileOrDirectory ∧ opened.isSome = true ∧
      w'.freed = 1 := by
    simpa using heq
  obtain ⟨handle, rfl⟩ := Option.isSome_iff_exists.mp hsome
  refine ⟨vfs, vfs', handle, w', hvfs, hopen, hfreed, fun howned => ?_⟩
  exact absurd (howned.failed (by simp)).1 (by simp)

/-! ## Creating files -/

/-- What a lookup that forbids the creation of files asks of `vfs_open` where there is no file: it
fails, and opens nothing to write or append to. -/
structure CreationRefused (code : VfsError) (calls : List SysCall) : Prop where
  failed : code ≠ .ok
  notWritten : ∀ q, SysCall.fopen q ['w'] ∉ calls
  notAppended : ∀ q, SysCall.fopen q ['a'] ∉ calls

/-- **Creation policy.** The flag that forbids the creation of files has no effect: creation is
refused only if the path does not open at all, or is read-only as well. -/
theorem vfsOpen_creationRefused_iff {vfs : Vfs} (hfrozen : vfs.inode.frozen = true)
    (path : CStr) {mode : VfsFilemode} (hmode : mode ≠ .read)
    (os : Os) (mallocs : List Bool) {p m : CStr} {lookup : VfsLookupResult}
    (hsan : (sanitizePath vfs.cwd.path path).eval os = some (some p))
    (hlookup : vfsLookup vfs p = (vfs, some lookup))
    (hflag : hasFlag lookup.flags vfsInodeFlagDisallowCreateFile = true)
    (hmap : (vfsMapPath vfs (some lookup) (some p)).eval os = some (vfs, some m))
    (hmissing : os.stat (some m) = .error Errno.ENOENT) :
    ∃ r w', vfsOpen vfs (some path) mode os ⟨mallocs, []⟩ = some (r, w') ∧
      (CreationRefused r.2.1 w'.calls ↔
        ¬NodeOpens vfs os ⟨mallocs, []⟩ path ∨
          hasFlag lookup.flags vfsInodeFlagReadOnly = true) := by
  obtain ⟨hsanitizable, rfl⟩ := sanitizePath_eval_iff.mp hsan
  rw [vfsLookup_canonical hfrozen (canonical_absPath _)] at hlookup
  obtain rfl : vfs.lookupAt (vfs.resolved path) = lookup :=
    Option.some.inj (Prod.mk.inj hlookup).2
  obtain ⟨mountpoint, hmount, rfl⟩ := vfsMapPath_mounted hmap
  have hmapped : (vfs.openHandle (vfs.resolved path)).mappedPath =
      some (vfs.realPathAt mountpoint (vfs.resolved path)) := by
    show (vfs.mountAt (vfs.resolved path)).map _ = _
    rw [hmount]
    rfl
  obtain ⟨r, w', hrun, h⟩ := vfsOpen_returns (.of_sanitizable hsanitizable) mode os ⟨mallocs, []⟩
  refine ⟨r, w', hrun, ?_⟩
  obtain ⟨calls, hcalls, hfopens⟩ := h.fopens
  obtain rfl : w'.calls = calls := hcalls
  -- with nothing there, only the flag for reading keeps the code from `fopen`
  have hreaches : ReachesFopen os (vfs.openHandle (vfs.resolved path)) mode ↔
      hasFlag (vfs.lookupAt (vfs.resolved path)).flags vfsInodeFlagReadOnly = false := by
    constructor
    · exact fun h => h.writable.resolve_right hmode
    · exact fun hwritable => ⟨.inl (by rw [hmapped, hmissing]), .inl hwritable⟩
  have hsome : ∀ q m, SysCall.fopen q m ∈ w'.calls ↔ NodeOpens vfs os ⟨mallocs, []⟩ path ∧
      hasFlag (vfs.lookupAt (vfs.resolved path)).flags vfsInodeFlagReadOnly = false ∧
      q = (vfs.openHandle (vfs.resolved path)).mappedPath ∧ m = modeStringMapping mode := by
    intro q m
    rw [hfopens]
    simp [hreaches]
  constructor
  · intro hrefused
    by_contra hno
    obtain ⟨hopens, hwritable⟩ := not_or.mp hno
    have hmem := (hsome _ _).mpr ⟨not_not.mp hopens, by simpa using hwritable, rfl, rfl⟩
    cases mode with
    | read => exact hmode rfl
    | write => exact hrefused.notWritten _ hmem
    | append => exact hrefused.notAppended _ hmem
  · intro hrefused
    have hno : ∀ q m, SysCall.fopen q m ∉ w'.calls := by
      intro q m hmem
      obtain ⟨hopens, hwritable, -⟩ := (hsome q m).mp hmem
      rcases hrefused with h | h
      · exact h hopens
      · exact absurd (hwritable.symm.trans h) (by simp)
    refine ⟨fun hok => ?_, fun q => hno q _, fun q => hno q _⟩
    obtain ⟨_, ⟨⟩, hopens, hfile⟩ := h.ok_iff.mp hok
    exact hno _ _ ((hsome _ _).mpr ⟨hopens, hreaches.mp hfile.toReachesFopen, rfl, rfl⟩)

/-- A system without files that lets them be created. -/
def CLib.Os.creating : Os := { Os.empty with fopen := fun _ _ => .ok () }

/-- Below a directory in which no files are to be created. -/
def noCreation (flags : Flags) : List Declaration :=
  [⟨"/".toList, some "/srv".toList, vfsInodeFlagDisallowCreateFile ||| flags, 0⟩]

/-- There `/x` has the flags of the directory, and a real path with nothing at its end. -/
theorem noCreation_lookup {flags : Flags} (hflags : flags = 0 ∨ flags = vfsInodeFlagReadOnly) :
    ∃ vfs lookup, configured (noCreation flags) = some vfs ∧
      (sanitizePath vfs.cwd.path "/x".toList).eval Os.creating = some (some "/x".toList) ∧
      vfsLookup vfs "/x".toList = (vfs, some lookup) ∧
      lookup.flags = (vfsInodeFlagDisallowCreateFile ||| flags) ∧
      (vfsMapPath vfs (some lookup) (some "/x".toList)).eval Os.creating =
        some (vfs, some "/srv/x".toList) := by
  have hrun : ((configured (noCreation flags)).bind fun vfs =>
      ((sanitizePath vfs.cwd.path "/x".toList).eval Os.creating).bind fun p =>
        (vfsLookup vfs "/x".toList).2.bind fun lookup =>
          ((vfsMapPath vfs (some lookup) (some "/x".toList)).eval Os.creating).bind fun m =>
            m.2.map fun m => (p, lookup.flags, m)) =
      some (some "/x".toList, vfsInodeFlagDisallowCreateFile ||| flags, "/srv/x".toList) := by
    rcases hflags with rfl | rfl <;> decide
  obtain ⟨vfs, hvfs, h⟩ := Option.bind_eq_some_iff.mp hrun
  obtain ⟨p, hsan, h⟩ := Option.bind_eq_some_iff.mp h
  obtain ⟨lookup, hlookup, h⟩ := Option.bind_eq_some_iff.mp h
  obtain ⟨⟨vfs', m⟩, hmap, h⟩ := Option.bind_eq_some_iff.mp h
  obtain ⟨m, rfl, heq⟩ := Option.map_eq_some_iff.mp h
  obtain ⟨rfl, hlookupFlags, rfl⟩ : p = some "/x".toList ∧
      lookup.flags = (vfsInodeFlagDisallowCreateFile ||| flags) ∧ m = "/srv/x".toList := by
    simpa using heq
  obtain ⟨hreach, hfrozen⟩ := reachable_configured hvfs
  have hat := vfsLookup_canonical hfrozen (canonical_absPath [⟨"x".toList, by decide⟩])
  obtain rfl : vfs.lookupAt [⟨"x".toList, by decide⟩] = lookup :=
    Option.some.inj ((congrArg Prod.snd hat).symm.trans hlookup)
  obtain ⟨mountpoint, hmount, hm⟩ := vfsMapPath_mounted hmap
  refine ⟨vfs, _, hvfs, hsan, hat, hlookupFlags, ?_⟩
  rw [hm]
  exact vfsMapPath_eval hmount _

/-- Where the directory is read-only as well, nothing is created. -/
theorem vfsOpen_creationRefused_readOnly :
    ∃ vfs r w', configured (noCreation vfsInodeFlagReadOnly) = some vfs ∧
      vfsOpen vfs (some "/x".toList) .write Os.creating {} = some (r, w') ∧
      CreationRefused r.2.1 w'.calls := by
  obtain ⟨vfs, lookup, hvfs, hsan, hlookup, hflags, hmap⟩ :=
    noCreation_lookup (.inr rfl : vfsInodeFlagReadOnly = 0 ∨ _)
  obtain ⟨hreach, hfrozen⟩ := reachable_configured hvfs
  obtain ⟨r, w', hrun, h⟩ := vfsOpen_creationRefused_iff hfrozen "/x".toList
    (nofun : VfsFilemode.write ≠ .read) Os.creating [] hsan hlookup (by rw [hflags]; decide) hmap
    rfl
  exact ⟨vfs, r, w', hvfs, hrun, h.mpr (.inr (by rw [hflags]; decide))⟩

/-- Where it is not, the file is opened to be written: the flag is looked up and not tested. -/
theorem vfsOpen_creates :
    ∃ vfs vfs' lookup handle w', configured (noCreation 0) = some vfs ∧ Reachable vfs ∧
      vfs.inode.frozen = true ∧
      (sanitizePath vfs.cwd.path "/x".toList).eval Os.creating = some (some "/x".toList) ∧
      vfsLookup vfs "/x".toList = (vfs, some lookup) ∧
      hasFlag lookup.flags vfsInodeFlagDisallowCreateFile = true ∧
      (vfsMapPath vfs (some lookup) (some "/x".toList)).eval Os.creating =
        some (vfs, some "/srv/x".toList) ∧
      Os.creating.stat (some "/srv/x".toList) = .error Errno.ENOENT ∧
      vfsOpen vfs (some "/x".toList) .write Os.creating {} =
        some ((vfs', .ok, some handle), w') ∧
      .fopen (some "/srv/x".toList) ['w'] ∈ w'.calls := by
  have hrun : ((configured (noCreation 0)).bind fun vfs =>
      (vfsOpen vfs (some "/x".toList) .write Os.creating {}).bind fun r =>
        r.1.2.2.map fun _ =>
          (r.1.2.1, decide (.fopen (some "/srv/x".toList) ['w'] ∈ r.2.calls))) =
      some (.ok, true) := by
    decide
  obtain ⟨vfs, lookup, hvfs, hsan, hlookup, hflags, hmap⟩ := noCreation_lookup (.inl rfl)
  obtain ⟨hreach, hfrozen⟩ := reachable_configured hvfs
  rw [hvfs, Option.bind_some] at hrun
  obtain ⟨⟨⟨vfs', code, opened⟩, w'⟩, hopen, h⟩ := Option.bind_eq_some_iff.mp hrun
  obtain ⟨handle, rfl, heq⟩ := Option.map_eq_some_iff.mp h
  obtain ⟨hcode, hmem⟩ := Prod.mk.inj heq
  obtain rfl : code = .ok := hcode
  have hmem := of_decide_eq_true hmem
  exact ⟨vfs, vfs', lookup, handle, w', hvfs, hreach, hfrozen, hsan, hlookup,
    by rw [hflags]; decide, hmap, rfl, hopen, hmem⟩

end Umsftpd
