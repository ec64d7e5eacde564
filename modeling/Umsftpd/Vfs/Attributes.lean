import Umsftpd.Vfs.Mapped
import Umsftpd.Vfs.Visibility

/-!
# Listed attributes

`vfs_readdir` and `vfs_stat` describe a node with the same two functions, but the one passes the
flags of the directory and the other those of the node. Both start from a status or from nothing, so
what they agree on is what they start from and which flags they pass.
-/

namespace Umsftpd

open CLib Paths

/-! ## What is compared -/

/-- Type and permissions of a node with this status, as the flags leave them; a virtual directory
has no status. -/
def attributes (flags : Flags) : Option Stat → Bool × BitVec 16
  | none =>
    let dirent := vfsStatVirtualDirectory [] flags
    (dirent.isFile, dirent.permissions)
  | some statbuf =>
    let dirent := vfsStatStatbuf statbuf {} flags
    (dirent.isFile, dirent.permissions)

/-- The part of an entry that is told of a listed node. -/
structure SameAttributes (d d' : VfsDirent) : Prop where
  filename : d.filename = d'.filename
  isFile : d.isFile = d'.isFile
  permissions : d.permissions = d'.permissions

theorem sameAttributes_iff {d d' : VfsDirent} {flags flags' : Flags} {status status' : Option Stat}
    (h : (d.isFile, d.permissions) = attributes flags status)
    (h' : (d'.isFile, d'.permissions) = attributes flags' status') :
    SameAttributes d d' ↔
      d.filename = d'.filename ∧ attributes flags' status' = attributes flags status := by
  rw [← h, ← h', Prod.mk.injEq]
  constructor
  · rintro ⟨hname, hfile, hperm⟩
    exact ⟨hname, hfile.symm, hperm.symm⟩
  · rintro ⟨hname, hfile, hperm⟩
    exact ⟨hname, hfile.symm, hperm.symm⟩

/-! ## Type and mode -/

/-- A virtual directory is no regular file. -/
def isRegular (status : Option Stat) : Bool := status.any Stat.isReg

/-- The mode of a node. A virtual directory has that of a directory its owner may write to. -/
def modeOf : Option Stat → BitVec 16
  | none => 0o755
  | some statbuf => statbuf.stMode.setWidth 16 &&& 0o777

/-- The write bits that are left of a mode. -/
def writeBits (readOnly : Bool) (mode : BitVec 16) : BitVec 16 :=
  if readOnly then 0#16 else mode &&& 0o222

/-- Two nodes have the same type and mode. Of the write bits those count that are left: none where
the node is read-only. -/
structure SameMode (readOnly readOnly' : Bool) (status status' : Option Stat) : Prop where
  isRegular : isRegular status = isRegular status'
  access : modeOf status &&& 0o555 = modeOf status' &&& 0o555
  writing : writeBits readOnly (modeOf status) = writeBits readOnly' (modeOf status')

/-- A mode is its write bits and the others. -/
theorem modeOf_split (status : Option Stat) :
    modeOf status &&& 0o555 ||| modeOf status &&& 0o222 = modeOf status := by
  rw [← BitVec.and_or_distrib_left]
  cases status with
  | none => rfl
  | some statbuf =>
    show (_ &&& 0o777) &&& 0o777 = _
    rw [BitVec.and_assoc]
    rfl

/-- The flags take the write bits away or leave the mode as it is. -/
theorem attributes_eq (flags : Flags) (status : Option Stat) :
    attributes flags status = (isRegular status, modeOf status &&& 0o555 |||
      writeBits (hasFlag flags vfsInodeFlagReadOnly) (modeOf status)) := by
  cases status with
  | none =>
    simp only [attributes, vfsStatVirtualDirectory]
    cases hasFlag flags vfsInodeFlagReadOnly <;> rfl
  | some statbuf =>
    simp only [attributes, vfsStatStatbuf]
    refine Prod.ext rfl ?_
    cases hasFlag flags vfsInodeFlagReadOnly with
    | false => exact (modeOf_split (some statbuf)).symm
    | true =>
      show (_ &&& 0o777) &&& ~~~0o222 = ((_ &&& 0o777) &&& 0o555) ||| 0#16
      rw [BitVec.or_zero, BitVec.and_assoc, BitVec.and_assoc]
      rfl

/-- The write bits and the others do not mix. -/
theorem writeBits_masks (readOnly : Bool) (mode : BitVec 16) :
    (mode &&& 0o555 ||| writeBits readOnly mode) &&& 0o555 = mode &&& 0o555 ∧
      (mode &&& 0o555 ||| writeBits readOnly mode) &&& 0o222 = writeBits readOnly mode := by
  have hapart : (0o555 &&& 0o222 : BitVec 16) = 0#16 ∧ (0o222 &&& 0o555 : BitVec 16) = 0#16 := by
    decide
  unfold writeBits
  cases readOnly with
  | true => simp [BitVec.and_assoc]
  | false =>
    simp only [Bool.false_eq_true, if_false, BitVec.and_or_distrib_right, BitVec.and_assoc,
      BitVec.and_self, hapart, BitVec.and_zero, BitVec.or_zero, BitVec.zero_or, and_self]

theorem attributes_eq_iff (flags flags' : Flags) (status status' : Option Stat) :
    attributes flags status = attributes flags' status' ↔
      SameMode (hasFlag flags vfsInodeFlagReadOnly) (hasFlag flags' vfsInodeFlagReadOnly)
        status status' := by
  rw [attributes_eq, attributes_eq, Prod.mk.injEq]
  constructor
  · rintro ⟨hregular, hmode⟩
    obtain ⟨haccess, hwriting⟩ := writeBits_masks (hasFlag flags vfsInodeFlagReadOnly)
      (modeOf status)
    rw [hmode, (writeBits_masks _ _).1] at haccess
    rw [hmode, (writeBits_masks _ _).2] at hwriting
    exact ⟨hregular, haccess.symm, hwriting.symm⟩
  · intro h
    exact ⟨h.isRegular, by rw [h.access, h.writing]⟩

/-- Two virtual directories differ in the read-only flag only. -/
theorem sameMode_virtual (readOnly readOnly' : Bool) :
    SameMode readOnly readOnly' none none ↔ readOnly = readOnly' := by
  constructor
  · intro h
    have hwriting := h.writing
    cases readOnly <;> cases readOnly' <;> first | rfl | exact absurd hwriting (by decide)
  · rintro rfl
    exact ⟨rfl, rfl, rfl⟩

theorem ListedFrom.attributes_eq {vfs : Vfs} {handle : VfsHandle} {d : VfsDirent}
    {status : Option Stat} (h : ListedFrom vfs handle d status) :
    (d.isFile, d.permissions) = attributes handle.flags status := by
  cases h with
  | virtual name hname heq => rw [heq]; rfl
  | real fstatat dirent statbuf hdir hsupp hover hstat heq => rw [heq]; rfl

/-! ## What a status is made from -/

/-- What the answer of `vfs_stat` is made from: nothing for the path of an inode, the status of the
real path for another one. -/
inductive Vfs.FoundAt (vfs : Vfs) (os : Os) (cs : List Name) : Option Stat → Prop
  | virtual (r : InodeRef) (hnode : vfs.nodeAt cs = some r) : vfs.FoundAt os cs none
  | real (mountpoint : InodeRef) (statbuf : Stat) (hnode : vfs.nodeAt cs = none)
      (hmount : vfs.mountAt cs = some mountpoint)
      (hstat : os.stat (some (vfs.realPathAt mountpoint cs)) = .ok statbuf) :
      vfs.FoundAt os cs (some statbuf)

theorem Vfs.statAnswer_ok {vfs : Vfs} {os : Os} {cs : List Name} {before after : VfsDirent}
    (h : vfs.statAnswer os cs before = (.ok, after)) :
    ∃ status, vfs.FoundAt os cs status ∧ after.filename = filenameOf (lastName cs) ∧
      (after.isFile, after.permissions) = attributes (vfs.flagsAt cs) status := by
  unfold statAnswer at h
  generalize hexit : vfs.openExit os cs = exit at h
  cases exit with
  | opened handle =>
    have hhandle := Vfs.openExit_opened hexit
    have hinode : handle.inode = vfs.nodeAt cs := by rw [hhandle]; rfl
    have hflags : handle.flags = vfs.flagsAt cs := by rw [hhandle]; rfl
    dsimp only at h
    rw [hinode, hflags] at h
    cases hnode : vfs.nodeAt cs with
    | some r =>
      rw [hnode, Option.isSome_some, if_pos rfl] at h
      obtain ⟨-, rfl⟩ := Prod.mk.inj h
      exact ⟨none, .virtual r hnode, rfl, rfl⟩
    | none =>
      rw [hnode, Option.isSome_none, if_neg (by simp)] at h
      have hmapped := openExit_mapped hexit (hinode.trans hnode)
      cases hstat : os.stat handle.mappedPath with
      | error errno =>
        rw [hstat] at h
        exact absurd (Prod.mk.inj h).1 (vfsErrnoToVfsError_ne errno).1
      | ok statbuf =>
        rw [hstat] at h
        obtain ⟨-, rfl⟩ := Prod.mk.inj h
        obtain ⟨mountpoint, hmount⟩ : ∃ mountpoint, vfs.mountAt cs = some mountpoint := by
          rw [hhandle, Option.isSome_map] at hmapped
          exact Option.isSome_iff_exists.mp hmapped
        rw [hhandle, hmount] at hstat
        exact ⟨some statbuf, .real mountpoint statbuf hnode hmount hstat, rfl, rfl⟩
  | _ => exact absurd (Prod.mk.inj h).1 (by simp [OpenNodeExit.code])

/-! ## Names -/

theorem lastName_valid (cs : List Name) : lastName cs = [] ∨ ValidName (lastName cs) := by
  induction cs using List.reverseRecOn with
  | nil => exact Or.inl rfl
  | append_singleton cs n _ =>
    rw [lastName_concat]
    exact Or.inr n.valid

/-- A listed name is that of its path exactly when it is a name: `.` and `..` stand for another
node. -/
theorem filenameOf_lastName_push {name : CStr} (hne : name ≠ []) (hslash : '/' ∉ name)
    (hlen : name.length < vfsMaxFilenameLength) (cs : List Name) :
    filenameOf (lastName (pushToken cs name)) = name ↔ ValidName name := by
  unfold pushToken
  by_cases hvalid : ValidName name
  · rw [dif_pos hvalid, lastName_concat]
    exact iff_of_true (List.take_of_length_le (Nat.le_sub_one_of_lt hlen)) hvalid
  · rw [dif_neg hvalid]
    refine iff_of_false (fun h => ?_) hvalid
    -- a name that is cut short is longer than the two dots
    have hdots : name = ['.'] ∨ name = ['.', '.'] := by
      by_contra hno
      exact hvalid ⟨hne, hslash, fun h => hno (Or.inl h), fun h => hno (Or.inr h)⟩
    generalize (if name = ['.', '.'] then cs.dropLast else cs) = ds at h
    have hshort : (lastName ds).length ≤ vfsMaxFilenameLength - 1 := by
      have hmin := congrArg List.length h
      unfold filenameOf at hmin
      rw [List.length_take] at hmin
      have htwo : name.length ≤ 2 := by rcases hdots with rfl | rfl <;> simp
      unfold vfsMaxFilenameLength at hmin ⊢
      omega
    have hsame : lastName ds = name := (List.take_of_length_le hshort).symm.trans h
    rcases lastName_valid ds with hnil | hname
    · exact hne (hsame.symm.trans hnil)
    · exact hvalid (hsame ▸ hname)

/-- What a slash and a name stand for. -/
theorem resolve_root {n : CStr} (hn : '/' ∉ n) {cwd : CStr}
    (h : (joinedPath cwd ('/' :: n)).length < 2 ^ 31) :
    resolve cwd ('/' :: n) = pushToken [] n := by
  have hjoined : joinedPath cwd ('/' :: n) = '/' :: n := rfl
  rw [resolve_eq h, hjoined, tokensOf, List.tail_cons, List.splitOn_eq_singleton hn]
  rfl

/-- What a directory and a listed name stand for; without a directory the path starts at the
root. -/
theorem resolve_listed {n : CStr} (hn : '/' ∉ n) {cwd d : CStr}
    (h : (joinedPath cwd (d ++ '/' :: n)).length < 2 ^ 31) :
    resolve cwd (d ++ '/' :: n) = pushToken (if d = [] then [] else resolve cwd d) n := by
  by_cases hd : d = []
  · subst hd
    exact resolve_root hn h
  · rw [if_neg hd, resolve_append hd hn h]

/-! ## Real entries -/

/-- The path of a name in a directory. -/
def joinPath (p name : CStr) : CStr := if p.getLast? = some '/' then p ++ name else p ++ '/' :: name

/-- `fstatat` on the stream of a directory gives what `stat` gives on the path. -/
def CLib.Os.StatsAgree (os : Os) : Prop :=
  ∀ p dir name, os.opendir (some p) = .ok dir → name ≠ [] → '/' ∉ name →
    dir.fstatat name = os.stat (some (joinPath p name))

theorem realPath_of_ne_nil {suf : List Name} (h : suf ≠ []) (target : CStr) (pre : List Name) :
    realPath target pre suf = target ++ pathOf suf := by
  unfold realPath
  rw [if_neg fun hsuf => h hsuf.1, ← absPath_of_ne_nil h, absPath_eq_cons]
  simp

/-- The real path of a child is that of the directory with the name. -/
theorem joinPath_realPath {target : CStr} (htarget : Truncated target) (pre suf : List Name)
    (n : Name) : joinPath (realPath target pre suf) n.val = realPath target pre (suf ++ [n]) := by
  have hchild : suf ++ [n] ≠ [] := by simp
  rw [realPath_of_ne_nil hchild, pathOf_append]
  by_cases hsuf : suf = []
  · subst hsuf
    by_cases hpre : pre = []
    · subst hpre
      have hroot : realPath target [] [] = target ++ ['/'] := by simp [realPath, joinNames]
      rw [hroot, joinPath, if_pos (by simp)]
      simp
    · have hmount : realPath target pre [] = target := if_pos ⟨rfl, hpre⟩
      rw [hmount, joinPath, if_neg htarget]
      simp
  · have hlast : (target ++ pathOf suf).getLast? ≠ some '/' := by
      rw [List.getLast?_append_of_ne_nil _ fun h => hsuf (pathOf_eq_nil_iff.mp h)]
      exact pathOf_getLast? suf
    rw [realPath_of_ne_nil hsuf, joinPath, if_neg hlast]
    simp

/-- Without an inode of its own a child has the flags and the mountpoint of its directory. -/
theorem Vfs.child_of_no_node {vfs : Vfs} {cs : List Name} {n : Name}
    (h : vfs.nodeAt (cs ++ [n]) = none) :
    vfs.flagsAt (cs ++ [n]) = vfs.flagsAt cs ∧ vfs.mountAt (cs ++ [n]) = vfs.mountAt cs := by
  unfold flagsAt mountAt
  rw [PathTree.inherit_concat, PathTree.inherit_concat, h]
  exact ⟨rfl, rfl⟩

/-- The real path of a child without an inode is where its directory has it. -/
theorem Vfs.realPathAt_child {vfs : Vfs} {cs : List Name} {mountpoint : InodeRef}
    (hmount : vfs.mountAt cs = some mountpoint) (n : Name) :
    joinPath (vfs.realPathAt mountpoint cs) n.val = vfs.realPathAt mountpoint (cs ++ [n]) := by
  obtain ⟨pre, ⟨suf, rfl⟩, hat, htarget⟩ := Vfs.mountAt_some hmount
  obtain ⟨target, htarget⟩ := Option.isSome_iff_exists.mp htarget
  have hpath := (Vfs.nodeAt_some hat).2
  unfold Vfs.realPathAt
  rw [List.append_assoc, mapped_absPath hpath htarget, mapped_absPath hpath htarget]
  exact joinPath_realPath ((vfs.deref mountpoint).targetPath_truncated target htarget) pre suf n

/-- Where stat and fstatat agree, a real entry is found as it was listed. -/
theorem ListedFrom.found {vfs : Vfs} {os : Os} (hagree : os.StatsAgree) {cs : List Name}
    {handle : VfsHandle} {d : VfsDirent}
    (hdir : handle.dir =
      (os.opendir ((vfs.mountAt cs).map fun mountpoint => vfs.realPathAt mountpoint cs)).toOption)
    {statbuf statbuf' : Stat} (hlisted : ListedFrom vfs handle d (some statbuf)) {n : Name}
    (hn : n.val = d.filename) (hfound : vfs.FoundAt os (cs ++ [n]) (some statbuf')) :
    statbuf = statbuf' ∧ vfs.flagsAt (cs ++ [n]) = vfs.flagsAt cs := by
  cases hfound with
  | real mountpoint _ hnode hmount hstat' =>
  cases hlisted with
  | real fstatat dirent _ hstats hsupp hover hstat heq =>
  obtain ⟨hflags, hmount'⟩ := Vfs.child_of_no_node hnode
  rw [hmount'] at hmount
  rw [hdir, hmount, Option.map_some] at hstats
  obtain ⟨dir, hopened, rfl⟩ := Option.map_eq_some_iff.mp hstats
  have hname : dirent.dName = n.val := by rw [hn, heq]; rfl
  have hopendir : os.opendir (some (vfs.realPathAt mountpoint cs)) = .ok dir := by
    cases hresult : os.opendir (some (vfs.realPathAt mountpoint cs)) with
    | error errno =>
      rw [hresult] at hopened
      exact absurd hopened (by simp [Except.toOption])
    | ok dir' =>
      rw [hresult] at hopened
      rw [show dir' = dir from Option.some.inj hopened]
  have hsame := hagree _ dir n.val hopendir n.ne_nil n.no_slash
  rw [Vfs.realPathAt_child hmount, hstat', ← hname, hstat] at hsame
  exact ⟨Except.ok.inj hsame, hflags⟩

/-- What `vfs_stat` answers about a file system whose contents are in another order. -/
theorem Vfs.Resorted.foundAt {vfs vfs' vfs'' : Vfs} (hsame : vfs.Resorted vfs')
    (hreach : Reachable vfs) (hfrozen : vfs.inode.frozen = true) {path : CStr} {os : Os}
    {before after : VfsDirent}
    (hstat : (vfsStat vfs' (some path) before).eval os = some (vfs'', .ok, after)) :
    ∃ status, vfs.FoundAt os (resolve vfs.cwd.path path) status ∧
      after.filename = filenameOf (lastName (resolve vfs.cwd.path path)) ∧
      (after.isFile, after.permissions) =
        attributes (vfs.flagsAt (resolve vfs.cwd.path path)) status := by
  have hfrozen' : vfs'.inode.frozen = true := by rw [hsame.inode, hfrozen]
  have hsan : Sanitizable vfs'.cwd.path path := by
    obtain ⟨⟨r, w'⟩, hcall, hr⟩ := Option.map_eq_some_iff.mp hstat
    obtain rfl : r = (vfs'', .ok, after) := hr
    exact ((vfsStat_ok vfs' _ before os {}).result hcall rfl).sanitizable
  have hgives := vfsStat_gives hfrozen' (hsame.ready hreach.valid.ready) hsan os before
  have hanswer : vfs.statAnswer os (resolve vfs.cwd.path path) before = (.ok, after) := by
    rw [Vfs.statAnswer, ← hsame.openExit, ← hsame.cwd]
    exact (Prod.mk.inj (Option.some.inj (hgives.eval.symm.trans hstat))).2
  exact Vfs.statAnswer_ok hanswer

/-- The flags and the stream of a directory that is opened are those of its names. -/
theorem vfsOpendir_handle {vfs vfs' : Vfs} {d : CStr} {os : Os} {handle : VfsHandle}
    (hopendir : (vfsOpendir vfs (some d)).eval os = some (vfs', .ok, some handle)) :
    handle.flags = vfs.flagsAt (resolve vfs.cwd.path d) ∧
      handle.dir = (os.opendir ((vfs.mountAt (resolve vfs.cwd.path d)).map fun mountpoint =>
        vfs.realPathAt mountpoint (resolve vfs.cwd.path d))).toOption := by
  obtain ⟨-, p, node, hp, -, hexit, hhandle⟩ := vfsOpendir_eval hopendir
  obtain rfl := Option.some.inj hp
  rw [hhandle, Vfs.openExit_opened hexit]
  exact ⟨rfl, rfl⟩

/-- A real entry that is found as a real file has the name and the mode that it was listed with. -/
theorem ListedFrom.sameMode {vfs : Vfs} {os : Os} (hagree : os.StatsAgree) {handle : VfsHandle}
    {d : CStr}
    (hdir : handle.dir = (os.opendir ((vfs.mountAt (resolve vfs.cwd.path d)).map fun mountpoint =>
      vfs.realPathAt mountpoint (resolve vfs.cwd.path d))).toOption)
    {entry : VfsDirent} {listed found : Option Stat} (hlisted : ListedFrom vfs handle entry listed)
    (hslash : '/' ∉ entry.filename)
    (hlength : (joinedPath vfs.cwd.path (d ++ '/' :: entry.filename)).length < 2 ^ 31)
    (hfound : vfs.FoundAt os (resolve vfs.cwd.path (d ++ '/' :: entry.filename)) found)
    (hd : d ≠ []) (hreal : listed ≠ none) (hreal' : found ≠ none) :
    ValidName entry.filename ∧
      SameMode (hasFlag (vfs.flagsAt (resolve vfs.cwd.path d)) vfsInodeFlagReadOnly)
        (hasFlag (vfs.flagsAt (resolve vfs.cwd.path (d ++ '/' :: entry.filename)))
          vfsInodeFlagReadOnly) listed found := by
  obtain ⟨statbuf, rfl⟩ := Option.ne_none_iff_exists'.mp hreal
  obtain ⟨statbuf', rfl⟩ := Option.ne_none_iff_exists'.mp hreal'
  have hvalid := hlisted.validName
  have hpush : pushToken (resolve vfs.cwd.path d) entry.filename =
      resolve vfs.cwd.path d ++ [⟨entry.filename, hvalid⟩] := dif_pos hvalid
  rw [resolve_append hd hslash hlength, hpush] at hfound ⊢
  obtain ⟨rfl, hflags⟩ := hlisted.found hagree hdir rfl hfound
  rw [hflags]
  exact ⟨hvalid, rfl, rfl, rfl⟩

/-! ## Listing and status -/

/-- **Listing and status.** What `vfs_stat` says of a listed name is what the listing says of it, if
and only if the name is neither `.` nor `..` and the node that is found has the type and mode of the
one that is listed, write bits counting where the node is not read-only. Two virtual directories
differ in nothing but the read-only flag; a real entry that is found as a real file in its directory
is found as it was listed. Where an `int` does not hold the length of the path, it may end in
another name. -/
theorem listed_stat_iff (libc : LibC) {vfs : Vfs} (hreach : Reachable vfs)
    (hfrozen : vfs.inode.frozen = true) {d : CStr} {os : Os} (hagree : os.StatsAgree) {vfs' : Vfs}
    {handle : VfsHandle}
    (hopendir : (vfsOpendir vfs (some d)).eval os = some (vfs', .ok, some handle))
    {handles : List VfsHandle} {i : Nat} (hi : handles[i]? = some handle) {calls : List ReadCall}
    {answers : List (Nat × ReaddirAnswer)} {s : Readers}
    (hrun : Readers.readAll libc calls ⟨vfs, handles⟩ = some (answers, s)) {entry : VfsDirent}
    (hlisted : .entry entry ∈ answersOf i answers) {before after : VfsDirent} {vfs'' : Vfs}
    (hstat : (vfsStat s.vfs (some (d ++ '/' :: entry.filename)) before).eval os =
      some (vfs'', .ok, after)) :
    ∃ listed found, ListedFrom vfs handle entry listed ∧
      vfs.FoundAt os (resolve vfs.cwd.path (d ++ '/' :: entry.filename)) found ∧
      (SameAttributes after entry ↔
        (if (joinedPath vfs.cwd.path (d ++ '/' :: entry.filename)).length + 1 < 2 ^ 31 then
          ValidName entry.filename
        else filenameOf (lastName (resolve vfs.cwd.path (d ++ '/' :: entry.filename))) =
          entry.filename) ∧
        SameMode (hasFlag (vfs.flagsAt (resolve vfs.cwd.path d)) vfsInodeFlagReadOnly)
          (hasFlag (vfs.flagsAt (resolve vfs.cwd.path (d ++ '/' :: entry.filename)))
            vfsInodeFlagReadOnly) listed found) ∧
      ((joinedPath vfs.cwd.path (d ++ '/' :: entry.filename)).length + 1 < 2 ^ 31 →
        (listed = none → found = none →
          (SameAttributes after entry ↔ ValidName entry.filename ∧
            hasFlag (vfs.flagsAt (resolve vfs.cwd.path d)) vfsInodeFlagReadOnly =
              hasFlag (vfs.flagsAt (resolve vfs.cwd.path (d ++ '/' :: entry.filename)))
                vfsInodeFlagReadOnly)) ∧
        (d ≠ [] → listed ≠ none → found ≠ none → SameAttributes after entry)) := by
  obtain ⟨htype, -, hnames⟩ := Vfs.Opened.fresh hreach ⟨_, _, _, hopendir⟩
  obtain ⟨hflags, hdir⟩ := vfsOpendir_handle hopendir
  obtain ⟨listed, hfrom⟩ := Readers.readAll_listedFrom libc hi htype hnames hrun hlisted
  obtain ⟨hne, hslash⟩ := listed_component libc hreach ⟨_, _, _, hopendir⟩ hi hrun hlisted
  -- the status is asked for in a file system with the same nodes
  obtain ⟨found, hfound, hname, hattrs⟩ :=
    (Readers.readAll_resorted libc hrun).foundAt hreach hfrozen hstat
  have hlistedAttrs := hfrom.attributes_eq
  rw [hflags] at hlistedAttrs
  have hiff := sameAttributes_iff hattrs hlistedAttrs
  rw [attributes_eq_iff] at hiff
  refine ⟨listed, found, hfrom, hfound, ?_⟩
  by_cases hlength : (joinedPath vfs.cwd.path (d ++ '/' :: entry.filename)).length + 1 < 2 ^ 31
  swap
  · rw [hname] at hiff
    refine ⟨?_, fun h => absurd h hlength⟩
    rw [if_neg hlength]
    exact hiff
  have hfilename : after.filename = entry.filename ↔ ValidName entry.filename := by
    rw [hname, resolve_listed hslash (Nat.lt_of_succ_lt hlength)]
    exact filenameOf_lastName_push hne hslash hfrom.length_filename _
  rw [hfilename] at hiff
  refine ⟨?_, fun _ => ⟨?_, ?_⟩⟩
  · rw [if_pos hlength]
    exact hiff
  · rintro rfl rfl
    rw [hiff, sameMode_virtual]
  · intro hd hreal hreal'
    exact hiff.mpr (hfrom.sameMode hagree hdir hslash (Nat.lt_of_succ_lt hlength) hfound hd hreal
      hreal')

/-- The first entry of the root of a configuration that does not open, and what `vfs_stat` says of
it. -/
def statFirst (ds : List Declaration) : Option (VfsDirent × VfsDirent) := do
  let vfs ← configured ds
  let (_, code, handle) ← (vfsOpendir vfs (some ['/'])).eval Os.empty
  let handle ← handle
  let (answers, s) ← Readers.readAll LibC.reference [⟨0, {}⟩] ⟨vfs, [handle]⟩
  match answersOf 0 answers with
  | [.entry entry] =>
    let (_, code', after) ←
      (vfsStat s.vfs (some (['/'] ++ '/' :: entry.filename)) {}).eval Os.empty
    if code = .ok ∧ code' = .ok then some (entry, after) else none
  | _ => none

theorem statFirst_eq_some {ds : List Declaration} {entry after : VfsDirent}
    (h : statFirst ds = some (entry, after)) :
    ∃ vfs handle answers s vfs', Reachable vfs ∧ vfs.inode.frozen = true ∧
      (vfsOpendir vfs (some ['/'])).eval Os.empty = some (vfs, .ok, some handle) ∧
      Readers.readAll LibC.reference [⟨0, {}⟩] ⟨vfs, [handle]⟩ = some (answers, s) ∧
      .entry entry ∈ answersOf 0 answers ∧
      (vfsStat s.vfs (some (['/'] ++ '/' :: entry.filename)) {}).eval Os.empty =
        some (vfs', .ok, after) := by
  obtain ⟨vfs, hvfs, h⟩ := Option.bind_eq_some_iff.mp h
  obtain ⟨⟨vfs1, code, opened⟩, hopendir, h⟩ := Option.bind_eq_some_iff.mp h
  obtain ⟨handle, hhandle, hrest⟩ := Option.bind_eq_some_iff.mp h
  obtain rfl : opened = some handle := hhandle
  obtain ⟨⟨answers, s⟩, hread, h⟩ := Option.bind_eq_some_iff.mp hrest
  dsimp only at h
  split at h
  · next first hanswers =>
    obtain ⟨⟨vfs', code', after'⟩, hstat, h⟩ := Option.bind_eq_some_iff.mp h
    dsimp only at h
    split at h
    · next hcodes =>
      obtain ⟨rfl, rfl⟩ := Prod.mk.inj (Option.some.inj h)
      obtain ⟨rfl, rfl⟩ := hcodes
      obtain ⟨hreach, hfrozen⟩ := reachable_configured hvfs
      obtain ⟨rfl, -⟩ := vfsOpendir_eval hopendir
      refine ⟨vfs1, handle, answers, s, vfs', hreach, hfrozen, hopendir, hread, ?_, hstat⟩
      rw [hanswers]
      exact List.mem_singleton_self _
    · exact absurd h (by simp)
  · exact absurd h (by simp)

theorem CLib.Os.empty_statsAgree : Os.empty.StatsAgree := by
  intro p dir name h
  exact absurd h (by simp [Os.empty])

/-- A virtual directory that is read-only itself is listed as writable. -/
theorem listed_stat_readOnly :
    ∃ entry after vfs handle answers s vfs',
      statFirst [⟨"/".toList, some "/srv".toList, 0, 0⟩,
        ⟨"/a".toList, none, vfsInodeFlagReadOnly, 0⟩] = some (entry, after) ∧
      Reachable vfs ∧ vfs.inode.frozen = true ∧ Os.empty.StatsAgree ∧
      (vfsOpendir vfs (some ['/'])).eval Os.empty = some (vfs, .ok, some handle) ∧
      Readers.readAll LibC.reference [⟨0, {}⟩] ⟨vfs, [handle]⟩ = some (answers, s) ∧
      .entry entry ∈ answersOf 0 answers ∧
      (vfsStat s.vfs (some (['/'] ++ '/' :: entry.filename)) {}).eval Os.empty =
        some (vfs', .ok, after) ∧
      entry.permissions = 0o755 ∧ after.permissions = 0o555 ∧ ¬SameAttributes after entry := by
  have hrun : (statFirst [⟨"/".toList, some "/srv".toList, 0, 0⟩,
      ⟨"/a".toList, none, vfsInodeFlagReadOnly, 0⟩]).map
      (fun r => (r.1.permissions, r.2.permissions)) = some (0o755, 0o555) := by
    decide
  obtain ⟨⟨entry, after⟩, hfirst, hperms⟩ := Option.map_eq_some_iff.mp hrun
  obtain ⟨hentry, hafter⟩ : entry.permissions = 0o755 ∧ after.permissions = 0o555 := by
    simpa using hperms
  obtain ⟨vfs, handle, answers, s, vfs', hreach, hfrozen, hopendir, hread, hmem, hstat⟩ :=
    statFirst_eq_some hfirst
  refine ⟨entry, after, vfs, handle, answers, s, vfs', hfirst, hreach, hfrozen,
    Os.empty_statsAgree, hopendir, hread, hmem, hstat, hentry, hafter, fun hsame => ?_⟩
  have hpermissions := hsame.permissions
  rw [hentry, hafter] at hpermissions
  exact absurd hpermissions (by decide)

theorem listed_stat_iff_inherited :
    ∃ (entry after : VfsDirent) (vfs : Vfs) (listed found : Option Stat),
      statFirst [⟨"/".toList, some "/srv".toList, vfsInodeFlagReadOnly, 0⟩,
        ⟨"/a".toList, none, 0, 0⟩] = some (entry, after) ∧
      SameAttributes after entry ∧
      SameMode (hasFlag (vfs.flagsAt (resolve vfs.cwd.path ['/'])) vfsInodeFlagReadOnly)
        (hasFlag (vfs.flagsAt (resolve vfs.cwd.path (['/'] ++ '/' :: entry.filename)))
          vfsInodeFlagReadOnly) listed found := by
  have hrun : (statFirst [⟨"/".toList, some "/srv".toList, vfsInodeFlagReadOnly, 0⟩,
      ⟨"/a".toList, none, 0, 0⟩]).map (fun r => decide (r.2.filename = r.1.filename ∧
        r.2.isFile = r.1.isFile ∧ r.2.permissions = r.1.permissions)) = some true := by
    decide
  obtain ⟨⟨entry, after⟩, hfirst, hsame⟩ := Option.map_eq_some_iff.mp hrun
  obtain ⟨hname, hfile, hperm⟩ := of_decide_eq_true hsame
  obtain ⟨vfs, handle, answers, s, vfs', hreach, hfrozen, hopendir, hread, hmem, hstat⟩ :=
    statFirst_eq_some hfirst
  obtain ⟨listed, found, -, -, hiff, -⟩ := listed_stat_iff LibC.reference hreach hfrozen
    Os.empty_statsAgree hopendir (i := 0) rfl hread hmem hstat
  have hsame : SameAttributes after entry := ⟨hname, hfile, hperm⟩
  exact ⟨entry, after, vfs, listed, found, hfirst, hsame, (hiff.mp hsame).2⟩

end Umsftpd
