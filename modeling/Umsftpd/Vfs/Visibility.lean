import Umsftpd.Strings.Normalize
import Umsftpd.Vfs.Listed
import Umsftpd.Vfs.Policy

/-!
# Listing and opening

`vfs_readdir` has filters of its own and applies none of the policy of `vfs_open_node`, so a listing
may show what does not open. Given that the directory itself opens, what decides is what the child
adds to it: flags of its own inode, a name that starts with a dot, a symlink.
-/

namespace Umsftpd

open CLib Paths

/-! ## What a child adds -/

/-- A flag is one bit. -/
theorem hasFlag_twoPow (flags : Flags) {i : Nat} (hi : i < 32) :
    hasFlag flags (BitVec.twoPow 32 i) = flags.getLsbD i := by
  have hne : BitVec.twoPow 32 i ≠ 0#32 := by
    intro h
    have hbit := congrArg (fun x => x.getLsbD i) h
    simp [hi] at hbit
  unfold hasFlag
  rw [BitVec.and_twoPow]
  cases flags.getLsbD i <;> simp [hne]

/-- After an inode a flag is in effect that was before or is set, and is not reset. -/
theorem hasFlag_applyFlags (flags : Flags) (d : Declaration) {i : Nat} (hi : i < 32) :
    hasFlag (applyFlags flags d) (BitVec.twoPow 32 i) =
      ((hasFlag flags (BitVec.twoPow 32 i) || hasFlag d.flagsSet (BitVec.twoPow 32 i)) &&
        !hasFlag d.flagsReset (BitVec.twoPow 32 i)) := by
  simp only [hasFlag_twoPow _ hi, applyFlags, BitVec.getLsbD_and, BitVec.getLsbD_or,
    BitVec.getLsbD_not, hi, decide_true, Bool.true_and]

namespace Vfs

/-- The flags of a directory, changed by the inode of its child `n` if there is one. -/
def childFlags (vfs : Vfs) (cs : List Name) (n : Name) : Flags :=
  (vfs.nodeAt (cs ++ [n])).elim (vfs.flagsAt cs)
    fun r => applyFlags (vfs.flagsAt cs) (vfs.deref r).declaration

theorem flagsAt_child (vfs : Vfs) (cs : List Name) (n : Name) :
    vfs.flagsAt (cs ++ [n]) = vfs.childFlags cs n :=
  PathTree.inherit_concat _ _ _ _ _

/-- What an entry of an open directory needs to open as well: its inode does not filter it, it is
not a hidden name where these are filtered, and there are no symlinks on its real path where these
are not allowed. -/
structure ChildPermits (vfs : Vfs) (os : Os) (cs : List Name) (n : Name) : Prop where
  notFiltered : ∀ r, vfs.nodeAt (cs ++ [n]) = some r →
    hasFlag (vfs.deref r).flagsSet vfsInodeFlagFilterAll = true →
    hasFlag (vfs.deref r).flagsReset vfsInodeFlagFilterAll = true
  notHidden : hasFlag (vfs.childFlags cs n) vfsInodeFlagFilterHidden = true →
    n.isHidden = false ∧
      (hasFlag (vfs.flagsAt cs) vfsInodeFlagFilterHidden = false → cs.any Name.isHidden = false)
  noSymlinks : ∀ mountpoint, vfs.mountAt (cs ++ [n]) = some mountpoint →
    hasFlag (vfs.childFlags cs n) vfsInodeFlagAllowSymlinks = false →
    ScanClean os (vfs.realPathAt mountpoint (cs ++ [n]))

/-- Below a directory that is permitted, the policy comes down to what the child adds. -/
theorem Permits.child_iff {vfs : Vfs} {os : Os} {cs : List Name} (h : vfs.Permits os cs)
    (n : Name) : vfs.Permits os (cs ++ [n]) ↔ vfs.ChildPermits os cs n := by
  have hfilter : hasFlag (vfs.childFlags cs n) vfsInodeFlagFilterAll = false ↔
      ∀ r, vfs.nodeAt (cs ++ [n]) = some r →
        hasFlag (vfs.deref r).flagsSet vfsInodeFlagFilterAll = true →
        hasFlag (vfs.deref r).flagsReset vfsInodeFlagFilterAll = true := by
    unfold childFlags
    cases hnode : vfs.nodeAt (cs ++ [n]) with
    | none => simpa using h.notFiltered
    | some r =>
      have hflag : vfsInodeFlagFilterAll = BitVec.twoPow 32 1 := rfl
      have hdir := h.notFiltered
      rw [hflag] at hdir ⊢
      rw [Option.elim_some, hasFlag_applyFlags _ _ (by decide), hdir, Bool.false_or]
      show (hasFlag (vfs.deref r).flagsSet _ && !hasFlag (vfs.deref r).flagsReset _) = false ↔ _
      simp
  have hhidden : (hasFlag (vfs.childFlags cs n) vfsInodeFlagFilterHidden = false ∨
        (cs ++ [n]).any Name.isHidden = false) ↔
      (hasFlag (vfs.childFlags cs n) vfsInodeFlagFilterHidden = true →
        n.isHidden = false ∧ (hasFlag (vfs.flagsAt cs) vfsInodeFlagFilterHidden = false →
          cs.any Name.isHidden = false)) := by
    have hany : (cs ++ [n]).any Name.isHidden = (cs.any Name.isHidden || n.isHidden) := by simp
    rw [hany]
    have hdir := h.notHidden
    grind
  constructor
  · rintro ⟨hall, hhid, hlinks⟩
    rw [flagsAt_child] at hall hhid hlinks
    exact ⟨hfilter.mp hall, hhidden.mp hhid, hlinks⟩
  · rintro ⟨hall, hhid, hlinks⟩
    refine ⟨?_, ?_, ?_⟩ <;> rw [flagsAt_child]
    · exact hfilter.mpr hall
    · exact hhidden.mpr hhid
    · exact hlinks

/-! ## Reordered names change nothing for opening -/

section Resorted

variable {vfs vfs' : Vfs} (h : vfs.Resorted vfs')
include h

theorem Resorted.nodeAt (cs : List Name) : vfs'.nodeAt cs = vfs.nodeAt cs := by
  unfold Vfs.nodeAt vfsFindInode
  rw [h.inode]
  exact congrArg (fun p => vfs.inode.data.find? p) (funext fun r => by rw [h.virtualPath])

theorem Resorted.targetPath (r : InodeRef) :
    (vfs'.deref r).targetPath = (vfs.deref r).targetPath :=
  congrArg NodeInfo.targetPath (h.info r)

theorem Resorted.declaration (r : InodeRef) :
    (vfs'.deref r).declaration = (vfs.deref r).declaration :=
  VfsInode.declaration_congr (h.info r)

theorem Resorted.realPathAt (mountpoint : InodeRef) (cs : List Name) :
    vfs'.realPathAt mountpoint cs = vfs.realPathAt mountpoint cs := by
  unfold Vfs.realPathAt VfsInode.mapped
  rw [VfsInode.vlen_eq, VfsInode.vlen_eq, h.virtualPath, h.targetPath]

theorem Resorted.mountAt (cs : List Name) : vfs'.mountAt cs = vfs.mountAt cs := by
  have hnode : vfs'.nodeAt = vfs.nodeAt := funext h.nodeAt
  unfold Vfs.mountAt
  rw [hnode]
  simp only [h.targetPath]

theorem Resorted.openExit (os : Os) (cs : List Name) :
    vfs'.openExit os cs = vfs.openExit os cs := by
  have hnode : vfs'.nodeAt = vfs.nodeAt := funext h.nodeAt
  have hflags : vfs'.flagsAt cs = vfs.flagsAt cs := by
    unfold Vfs.flagsAt
    rw [h.inode, hnode]
    simp only [h.declaration]
  unfold Vfs.openExit Vfs.nodeHandle
  simp only [hflags, h.mountAt, hnode, h.realPathAt]

end Resorted

end Vfs

/-! ## Visibility -/

/-- **Listing and opening.** A name that a directory handle lists is not refused by the policy,
when it is opened, if and only if the child permits it. A name that is not a component (`.` and
`..` can be declared) and the path that starts at the root because `d` is empty do not stand for a
child of the directory, and there the policy of the place they stand for decides, as it does for a
path whose length an `int` does not hold, if that is sanitised at all. -/
theorem listed_opens_iff (libc : LibC) {vfs : Vfs} (hreach : Reachable vfs)
    (hfrozen : vfs.inode.frozen = true) {d : CStr} {os : Os} {vfs' : Vfs} {handle : VfsHandle}
    (hopendir : (vfsOpendir vfs (some d)).eval os = some (vfs', .ok, some handle))
    {buffers : List VfsDirent} {answers : List (Nat × ReaddirAnswer)} {s : Readers}
    (hrun : Readers.readAll libc (buffers.map (ReadCall.mk 0)) ⟨vfs, [handle]⟩ =
      some (answers, s))
    {dirent : VfsDirent} (hlisted : .entry dirent ∈ answersOf 0 answers) :
    (∀ vfs1 exit, (vfsOpenNode s.vfs (some (d ++ '/' :: dirent.filename))).eval os =
        some (vfs1, exit) →
      (∀ n : Name, d ≠ [] → n.val = dirent.filename →
        (joinedPath vfs.cwd.path (d ++ '/' :: dirent.filename)).length + 1 < 2 ^ 31 →
        (exit.refusedByPolicy = false ↔ vfs.ChildPermits os (resolve vfs.cwd.path d) n)) ∧
      (d = [] ∨ ¬ValidName dirent.filename ∨
          ¬(joinedPath vfs.cwd.path (d ++ '/' :: dirent.filename)).length + 1 < 2 ^ 31 →
        (exit.refusedByPolicy = false ↔
          (Sanitizable vfs.cwd.path (d ++ '/' :: dirent.filename) →
            vfs.Permits os (resolve vfs.cwd.path (d ++ '/' :: dirent.filename)))))) ∧
    ((joinedPath vfs.cwd.path (d ++ '/' :: dirent.filename)).length + 1 < 2 ^ 31 →
      ∃ exit, (vfsOpenNode s.vfs (some (d ++ '/' :: dirent.filename))).eval os =
        some (s.vfs, exit)) := by
  obtain ⟨hne, hslash⟩ := listed_component libc hreach ⟨_, _, _, hopendir⟩ rfl hrun hlisted
  have hsame : vfs.Resorted s.vfs := Readers.readAll_resorted libc hrun
  have hfrozen' : s.vfs.inode.frozen = true := by rw [hsame.inode, hfrozen]
  have hready := hsame.ready hreach.valid.ready
  have hopen : Sanitizable vfs.cwd.path (d ++ '/' :: dirent.filename) →
      (vfsOpenNode s.vfs (some (d ++ '/' :: dirent.filename))).eval os =
        some (s.vfs, vfs.openExit os (resolve vfs.cwd.path (d ++ '/' :: dirent.filename))) := by
    intro hsan
    rw [← hsame.cwd] at hsan
    rw [(vfsOpenNode_gives hfrozen' hready hsan os).eval, hsame.cwd, hsame.openExit]
  have hshort : (joinedPath vfs.cwd.path (d ++ '/' :: dirent.filename)).length + 1 < 2 ^ 31 →
      Sanitizable vfs.cwd.path (d ++ '/' :: dirent.filename) := hreach.valid.ready.sanitizable
  refine ⟨fun vfs1 exit hnode => ?_, fun hlength => ⟨_, hopen (hshort hlength)⟩⟩
  by_cases hsan : Sanitizable vfs.cwd.path (d ++ '/' :: dirent.filename)
  swap
  · have hnot : exit.refusedByPolicy = false := by
      obtain ⟨⟨r, w'⟩, hcall, hr⟩ := Option.map_eq_some_iff.mp hnode
      obtain rfl : r = (vfs1, exit) := hr
      rw [← hsame.cwd] at hsan
      rcases (vfsOpenNode_unsanitized hsan os {}).result hcall with hexit | hexit | hexit <;>
        rw [show exit = _ from hexit] <;> rfl
    exact ⟨fun n _ _ hlength => absurd (hshort hlength) hsan,
      fun _ => iff_of_true hnot fun h => absurd h hsan⟩
  rw [hopen hsan] at hnode
  obtain ⟨rfl, rfl⟩ := Prod.mk.inj (Option.some.inj hnode)
  refine ⟨fun n hd hn hlength => ?_, fun _ => ?_⟩
  · obtain ⟨-, p, node, hp, -, hexit, -⟩ := vfsOpendir_eval hopendir
    obtain rfl := Option.some.inj hp
    have hpermits : vfs.Permits os (resolve vfs.cwd.path d) := by
      rw [← openExit_refused, hexit]
      rfl
    rw [openExit_refused, resolve_append hd hslash (Nat.lt_of_succ_lt hlength), ← hn,
      pushToken_name]
    exact hpermits.child_iff n
  · rw [openExit_refused]
    exact ⟨fun h _ => h, fun h => h hsan⟩

def fileSecret : Dirent := ⟨".secret".toList, .reg, by decide, by decide, by decide⟩

theorem mem_listedNames {answers : List ReaddirAnswer} {name : CStr} :
    name ∈ listedNames answers ↔ ∃ d, .entry d ∈ answers ∧ d.filename = name := by
  unfold listedNames
  rw [List.mem_filterMap]
  constructor
  · rintro ⟨answer, hmem, h⟩
    cases answer with
    | entry d => exact ⟨d, hmem, Option.some.inj h⟩
    | eof => exact absurd h (by simp)
    | failed code => exact absurd h (by simp)
  · rintro ⟨d, hmem, rfl⟩
    exact ⟨.entry d, hmem, rfl⟩

/-- A hidden file is listed in a directory where hidden names are refused. -/
theorem listed_refused_secret :
    ∃ vfs handle answers s vfs' exit,
      openRoot [⟨"/".toList, some "/srv".toList, vfsInodeFlagFilterHidden, 0⟩] fileSecret =
        some (vfs, handle) ∧
      Reachable vfs ∧ vfs.inode.frozen = true ∧
      (vfsOpendir vfs (some "/".toList)).eval (Os.oneFile fileSecret) =
        some (vfs, .ok, some handle) ∧
      Readers.readAll LibC.reference [⟨0, {}⟩] ⟨vfs, [handle]⟩ = some (answers, s) ∧
      listedNames (answersOf 0 answers) = [".secret".toList] ∧
      (vfsOpenNode s.vfs (some ("/".toList ++ '/' :: ".secret".toList))).eval
        (Os.oneFile fileSecret) = some (vfs', exit) ∧
      exit.refusedByPolicy = true := by
  have hrun : ((openRoot [⟨"/".toList, some "/srv".toList, vfsInodeFlagFilterHidden, 0⟩]
      fileSecret).bind fun opened =>
        (Readers.readAll LibC.reference [⟨0, {}⟩] ⟨opened.1, [opened.2]⟩).bind fun run =>
          ((vfsOpenNode run.2.vfs (some ("/".toList ++ '/' :: ".secret".toList))).eval
            (Os.oneFile fileSecret)).map
              fun node => (listedNames (answersOf 0 run.1), node.2.refusedByPolicy)) =
      some ([".secret".toList], true) := by
    decide
  obtain ⟨⟨vfs, handle⟩, hopen, h⟩ := Option.bind_eq_some_iff.mp hrun
  obtain ⟨⟨answers, s⟩, hread, h⟩ := Option.bind_eq_some_iff.mp h
  obtain ⟨⟨vfs', exit⟩, hnode, h⟩ := Option.map_eq_some_iff.mp h
  obtain ⟨hlisted, hrefused⟩ := Prod.mk.inj h
  obtain ⟨hreach, hfrozen, hopendir⟩ := openRoot_eq_some hopen
  exact ⟨vfs, handle, answers, s, vfs', exit, hopen, hreach, hfrozen, hopendir, hread, hlisted,
    hnode, hrefused⟩

theorem listed_opens_iff_secret :
    ∃ vfs handle answers s dirent exit,
      openRoot [⟨"/".toList, some "/srv".toList, vfsInodeFlagFilterHidden, 0⟩] fileSecret =
        some (vfs, handle) ∧
      Readers.readAll LibC.reference [⟨0, {}⟩] ⟨vfs, [handle]⟩ = some (answers, s) ∧
      .entry dirent ∈ answersOf 0 answers ∧ dirent.filename = ".secret".toList ∧
      (vfsOpenNode s.vfs (some ("/".toList ++ '/' :: dirent.filename))).eval
        (Os.oneFile fileSecret) = some (s.vfs, exit) ∧
      (exit.refusedByPolicy = false ↔ vfs.ChildPermits (Os.oneFile fileSecret)
        (resolve vfs.cwd.path "/".toList) ⟨".secret".toList, by decide⟩) := by
  have hrun : ((openRoot [⟨"/".toList, some "/srv".toList, vfsInodeFlagFilterHidden, 0⟩]
      fileSecret).bind fun opened =>
        (Readers.readAll LibC.reference [⟨0, {}⟩] ⟨opened.1, [opened.2]⟩).map fun run =>
          listedNames (answersOf 0 run.1)) = some [".secret".toList] := by
    decide
  obtain ⟨⟨vfs, handle⟩, hopen, h⟩ := Option.bind_eq_some_iff.mp hrun
  obtain ⟨⟨answers, s⟩, hread, hlisted⟩ := Option.map_eq_some_iff.mp h
  obtain ⟨hreach, hfrozen, hopendir⟩ := openRoot_eq_some hopen
  have hmem : ".secret".toList ∈ listedNames (answersOf 0 answers) := by
    rw [show listedNames (answersOf 0 answers) = [".secret".toList] from hlisted]
    exact List.mem_singleton_self _
  obtain ⟨dirent, hentry, hname⟩ := mem_listedNames.mp hmem
  have hread' : Readers.readAll LibC.reference ([({} : VfsDirent)].map (ReadCall.mk 0))
      ⟨vfs, [handle]⟩ = some (answers, s) := hread
  obtain ⟨hall, hexists⟩ :=
    listed_opens_iff LibC.reference hreach hfrozen hopendir hread' hentry
  have hlength : (joinedPath vfs.cwd.path ("/".toList ++ '/' :: dirent.filename)).length + 1 <
      2 ^ 31 := by
    rw [hname, joinedPath, if_pos (by decide)]
    decide
  obtain ⟨exit, hnode⟩ := hexists hlength
  exact ⟨vfs, handle, answers, s, dirent, exit, hopen, hread, hentry, hname, hnode,
    (hall _ exit hnode).1 ⟨".secret".toList, by decide⟩ (by decide) hname.symm hlength⟩

end Umsftpd
