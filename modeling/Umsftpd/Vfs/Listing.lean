import Umsftpd.Vfs.Reachable

/-!
# What a directory handle lists

A `Listing` is what one handle has still to give, on its own: the virtual names it has not come to,
and then the entries of the real directory that are not overridden. `vfs_readdir` gives its next
answer (`vfsReaddir_step`), but out of a list that all handles on the inode share and that the call
may sort.
-/

namespace Umsftpd

open CLib

/-! ## Answers -/

/-- What a caller of `vfs_readdir` learns. The buffer counts only when there is an entry in it. -/
inductive ReaddirAnswer where
  | entry (dirent : VfsDirent)
  | eof
  | failed (code : VfsError)
  deriving DecidableEq

def readdirAnswer (code : VfsError) (dirent : VfsDirent) : ReaddirAnswer :=
  if code ≠ .ok then .failed code
  else if dirent.eof then .eof
  else .entry dirent

/-- Of the buffer only the name survives `vfs_stat_statbuf`. -/
theorem vfsStatStatbuf_congr (statbuf : Stat) {dirent dirent' : VfsDirent} (flags : Flags)
    (h : dirent.filename = dirent'.filename) :
    vfsStatStatbuf statbuf dirent flags = vfsStatStatbuf statbuf dirent' flags := by
  unfold vfsStatStatbuf
  rw [h]

/-! ## Listings -/

/-- The next answer out of a real directory, and the entries left after it. -/
def nextReal (overridden : CStr → Bool) (flags : Flags) (dir : Dir) :
    List (Except Errno Dirent) → ReaddirAnswer × List (Except Errno Dirent)
  | [] => (.eof, [])
  | .error _ :: rest => (.failed .internalError, rest)
  | .ok dirent :: rest =>
    if !direntSupported dirent || overridden dirent.dName then nextReal overridden flags dir rest
    else
      match dir.fstatat (filenameOf dirent.dName) with
      | .error _ => nextReal overridden flags dir rest
      | .ok statbuf =>
        if !statbuf.isDir && !statbuf.isReg then nextReal overridden flags dir rest
        else
          (.entry (vfsStatStatbuf statbuf { filename := filenameOf dirent.dName } flags), rest)

/-- What a handle has still to list: `left` are the virtual names to come, `overridden` those that
are not taken from the real directory. -/
@[ext] structure Listing where
  left : List CStr
  overridden : CStr → Bool
  isInode : Bool
  flags : Flags
  dir : Option Dir

namespace Listing

def next (listing : Listing) : ReaddirAnswer × Listing :=
  match listing.left with
  | name :: left =>
    (.entry (vfsStatVirtualDirectory name listing.flags), { listing with left := left })
  | [] =>
    match listing.dir with
    | none => (if listing.isInode then .eof else .failed .internalError, listing)
    | some dir =>
      let (answer, rest) := nextReal listing.overridden listing.flags dir dir.entries
      (answer, { listing with dir := some { dir with entries := rest } })

theorem next_virtual {listing : Listing} {name : CStr} {left : List CStr}
    (h : listing.left = name :: left) :
    listing.next =
      (.entry (vfsStatVirtualDirectory name listing.flags), { listing with left := left }) := by
  unfold next
  rw [h]

theorem next_end {listing : Listing} (h : listing.left = []) (hdir : listing.dir = none) :
    listing.next = (if listing.isInode then .eof else .failed .internalError, listing) := by
  unfold next
  rw [h, hdir]

theorem next_real {listing : Listing} {dir : Dir} (h : listing.left = [])
    (hdir : listing.dir = some dir) :
    listing.next =
      ((nextReal listing.overridden listing.flags dir dir.entries).1,
        { listing with dir := some { dir with
            entries := (nextReal listing.overridden listing.flags dir dir.entries).2 } }) := by
  unfold next
  rw [h, hdir]

/-- The answers of the coming `k` calls. -/
def answers (listing : Listing) : Nat → List ReaddirAnswer
  | 0 => []
  | k + 1 => listing.next.1 :: listing.next.2.answers k

end Listing

namespace Vfs

/-- The names of the virtual children, in the order in which they are stored. -/
def virtualNames (vfs : Vfs) (inode : Option InodeRef) : List CStr :=
  ((inode.bind fun r => (vfs.deref r).virtualSubdirs).map StringList.strings).getD []

/-- What `handle` would list on its own from here on. -/
def listing (vfs : Vfs) (handle : VfsHandle) : Listing where
  left := (vfs.virtualNames handle.inode).drop handle.internalNodeIndex
  overridden name := decide (name ∈ vfs.virtualNames handle.inode)
  isInode := handle.inode.isSome
  flags := handle.flags
  dir := handle.dir

/-- The string list of the inode is there. -/
def HasNames (vfs : Vfs) (inode : Option InodeRef) : Prop :=
  ∀ r, inode = some r → ∃ list, (vfs.deref r).virtualSubdirs = some list

theorem virtualNames_none (vfs : Vfs) : vfs.virtualNames none = [] := rfl

theorem virtualNames_some {vfs : Vfs} {r : InodeRef} {list : StringList}
    (h : (vfs.deref r).virtualSubdirs = some list) :
    vfs.virtualNames (some r) = list.strings := by
  unfold virtualNames
  rw [Option.bind_some, h]
  rfl

theorem HasNames.resorted {vfs vfs' : Vfs} {inode : Option InodeRef} (h : vfs.HasNames inode)
    (hsame : vfs.Resorted vfs') : vfs'.HasNames inode := by
  intro r hr
  obtain ⟨list, hlist⟩ := h r hr
  obtain ⟨list', hlist', -⟩ := hsame.subdirs r list hlist
  exact ⟨list', hlist'⟩

theorem Resorted.virtualNames_perm {vfs vfs' : Vfs} {inode : Option InodeRef}
    (hsame : vfs.Resorted vfs') (h : vfs.HasNames inode) :
    (vfs'.virtualNames inode).Perm (vfs.virtualNames inode) := by
  cases inode with
  | none => exact List.Perm.refl _
  | some r =>
    obtain ⟨list, hlist⟩ := h r rfl
    obtain ⟨list', hlist', hperm⟩ := hsame.subdirs r list hlist
    rw [virtualNames_some hlist, virtualNames_some hlist']
    exact hperm

/-- The listing of a handle depends on the names it has still to give, and on which there are. -/
theorem listing_congr {vfs vfs' : Vfs} {handle : VfsHandle}
    (hleft : (vfs'.virtualNames handle.inode).drop handle.internalNodeIndex =
      (vfs.virtualNames handle.inode).drop handle.internalNodeIndex)
    (hmem : ∀ name, name ∈ vfs'.virtualNames handle.inode ↔
      name ∈ vfs.virtualNames handle.inode) : vfs'.listing handle = vfs.listing handle := by
  refine Listing.ext hleft ?_ rfl rfl rfl
  funext name
  exact decide_eq_decide.mpr (hmem name)

/-- Past the virtual names their order does not matter. -/
theorem listing_past {vfs vfs' : Vfs} {handle : VfsHandle}
    (hperm : (vfs'.virtualNames handle.inode).Perm (vfs.virtualNames handle.inode))
    (hend : (vfs.virtualNames handle.inode).length ≤ handle.internalNodeIndex)
    (dir : Option Dir) :
    vfs'.listing { handle with dir := dir } = { vfs.listing handle with dir := dir } := by
  have hend' : (vfs'.virtualNames handle.inode).length ≤ handle.internalNodeIndex :=
    hperm.length_eq ▸ hend
  show vfs'.listing { handle with dir := dir } = vfs.listing { handle with dir := dir }
  apply listing_congr
  · rw [List.drop_eq_nil_of_le hend, List.drop_eq_nil_of_le hend']
  · intro name
    exact hperm.mem_iff

end Vfs

/-! ## Searching -/

section Searching

variable (libc : LibC)

/-- The file system after a search among the children of the inode. -/
def Vfs.searched (vfs : Vfs) : Option InodeRef → Vfs
  | none => vfs
  | some r =>
    vfs.setSubdirs r ((vfs.deref r).virtualSubdirs.map (stringlistSearched libc))

theorem virtualSubdirsContain_eq {vfs : Vfs} {inode : Option InodeRef} (h : vfs.HasNames inode)
    (name : CStr) :
    virtualSubdirsContain libc vfs inode name =
      some (decide (name ∈ vfs.virtualNames inode), vfs.searched libc inode) := by
  cases inode with
  | none => simp [virtualSubdirsContain, Vfs.virtualNames_none, Vfs.searched]
  | some r =>
    obtain ⟨list, hlist⟩ := h r rfl
    rw [Vfs.virtualNames_some hlist]
    simp only [virtualSubdirsContain, Vfs.searched, hlist, Option.bind_eq_bind, Option.bind_some,
      stringlistContains_eq, Option.map_some]
    rfl

theorem Vfs.searched_resorted {vfs : Vfs} {inode : Option InodeRef} (h : vfs.HasNames inode) :
    vfs.Resorted (vfs.searched libc inode) :=
  virtualSubdirsContain_resorted libc (virtualSubdirsContain_eq libc h [])

theorem Vfs.searched_idem (vfs : Vfs) (inode : Option InodeRef) :
    (vfs.searched libc inode).searched libc inode = vfs.searched libc inode := by
  cases inode with
  | none => rfl
  | some r =>
    have hagain : ((vfs.searched libc (some r)).deref r).virtualSubdirs.map
        (stringlistSearched libc) = (vfs.deref r).virtualSubdirs.map (stringlistSearched libc) := by
      show (((vfs.setSubdirs r _).deref r).virtualSubdirs).map _ = _
      rw [vfs.deref_setSubdirs_self, Option.map_map]
      exact congrArg (fun f => (vfs.deref r).virtualSubdirs.map f)
        (funext fun list => stringlistSearched_idem libc list)
    show (vfs.searched libc (some r)).setSubdirs r _ = _
    rw [hagain]
    exact vfs.setSubdirs_setSubdirs r _ _

/-! ## One call -/

/-- Does the loop over the real entries come to one that it searches for? -/
def reachesSupported : List (Except Errno Dirent) → Bool
  | [] => false
  | .error _ :: _ => false
  | .ok dirent :: rest => direntSupported dirent || reachesSupported rest

/-- Does the next call on the handle search the names of the inode? -/
def VfsHandle.searches (handle : VfsHandle) (vfs : Vfs) : Bool :=
  decide ((vfs.virtualNames handle.inode).length ≤ handle.internalNodeIndex) &&
    handle.dir.any fun dir => reachesSupported dir.entries

theorem vfsReaddirLoop_eq {handle : VfsHandle} (dir : Dir) {overridden : CStr → Bool}
    (entries : List (Except Errno Dirent)) {vfs : Vfs} (hnames : vfs.HasNames handle.inode)
    (hover : ∀ name, overridden name = decide (name ∈ vfs.virtualNames handle.inode))
    (before : VfsDirent) :
    ∃ code after, vfsReaddirLoop libc handle dir entries vfs before =
        some (code, if reachesSupported entries then vfs.searched libc handle.inode else vfs,
          (nextReal overridden handle.flags dir entries).2, after) ∧
      readdirAnswer code after = (nextReal overridden handle.flags dir entries).1 := by
  induction entries generalizing vfs before with
  | nil => exact ⟨.ok, _, rfl, rfl⟩
  | cons entry entries ih =>
    cases entry with
    | error errno => exact ⟨.internalError, before, rfl, rfl⟩
    | ok dirent =>
      cases hsupp : direntSupported dirent with
      | false =>
        obtain ⟨code, after, hrun, hanswer⟩ := ih hnames hover before
        exact ⟨code, after, by simpa [vfsReaddirLoop, reachesSupported, nextReal, hsupp] using hrun,
          by simpa [nextReal, hsupp] using hanswer⟩
      | true =>
        -- whatever comes now comes after the search, and another search changes nothing
        have hsame := Vfs.searched_resorted libc hnames
        have hnames' := hnames.resorted hsame
        have hover' : ∀ name, overridden name =
            decide (name ∈ (vfs.searched libc handle.inode).virtualNames handle.inode) := by
          intro name
          rw [hover, decide_eq_decide]
          exact (hsame.virtualNames_perm hnames).mem_iff.symm
        have hrest : ∀ before', ∃ code after,
            vfsReaddirLoop libc handle dir entries (vfs.searched libc handle.inode) before' =
              some (code, vfs.searched libc handle.inode,
                (nextReal overridden handle.flags dir entries).2, after) ∧
            readdirAnswer code after = (nextReal overridden handle.flags dir entries).1 := by
          intro before'
          obtain ⟨code, after, hrun, hanswer⟩ := ih hnames' hover' before'
          rw [Vfs.searched_idem, ite_self] at hrun
          exact ⟨code, after, hrun, hanswer⟩
        have hstep := virtualSubdirsContain_eq libc hnames dirent.dName
        rw [← hover dirent.dName] at hstep
        simp only [vfsReaddirLoop, reachesSupported, nextReal, hsupp, hstep, Bool.not_true,
          Bool.true_or, Bool.false_or, Bool.false_eq_true, if_false, if_true, Option.bind_eq_bind,
          Option.bind_some]
        cases overridden dirent.dName with
        | true => exact hrest _
        | false =>
          simp only [Bool.false_eq_true, if_false]
          cases dir.fstatat (filenameOf dirent.dName) with
          | error errno => exact hrest _
          | ok statbuf =>
            by_cases hkind : (!statbuf.isDir && !statbuf.isReg) = true
            · simp only [if_pos hkind]
              exact hrest _
            · simp only [if_neg hkind]
              exact ⟨.ok, _, rfl, congrArg ReaddirAnswer.entry (vfsStatStatbuf_congr _ _ rfl)⟩

/-- What one call does for a handle: it gives the next answer of the listing and leaves the rest of
it, and the file system changes only by a search. -/
structure ReaddirStep (vfs : Vfs) (handle : VfsHandle) (answer : ReaddirAnswer) (vfs' : Vfs)
    (handle' : VfsHandle) : Prop where
  answer_eq : answer = (vfs.listing handle).next.1
  listing_eq : vfs'.listing handle' = (vfs.listing handle).next.2
  vfs_eq : vfs' = if handle.searches vfs then vfs.searched libc handle.inode else vfs
  type_eq : handle'.type = handle.type
  inode_eq : handle'.inode = handle.inode

/-- The calls after the virtual names. -/
theorem vfsReaddirReal_step {vfs : Vfs} {handle : VfsHandle} (hnames : vfs.HasNames handle.inode)
    (hend : (vfs.virtualNames handle.inode).length ≤ handle.internalNodeIndex)
    (hthere : (handle.inode.isNone && handle.dir.isNone) = false) (before : VfsDirent) :
    ∃ code vfs' handle' after,
      vfsReaddirReal libc vfs handle before = some (code, vfs', handle', after) ∧
      ReaddirStep libc vfs handle (readdirAnswer code after) vfs' handle' := by
  have hleft : (vfs.listing handle).left = [] := List.drop_eq_nil_of_le hend
  cases hdir : handle.dir with
  | none =>
    have hinode : (vfs.listing handle).isInode = true := by simpa [Vfs.listing, hdir] using hthere
    have hnext := Listing.next_end hleft hdir
    rw [hinode, if_pos rfl] at hnext
    refine ⟨.ok, vfs, handle, { before with eof := true }, ?_, ?_, ?_, ?_, rfl, rfl⟩
    · simp [vfsReaddirReal, hdir]
    · rw [hnext]
      rfl
    · rw [hnext]
    · simp [VfsHandle.searches, hdir]
  | some dir =>
    have hnext := Listing.next_real hleft hdir
    have hover : ∀ name, (vfs.listing handle).overridden name =
        decide (name ∈ vfs.virtualNames handle.inode) := fun _ => rfl
    obtain ⟨code, after, hrun, hanswer⟩ :=
      vfsReaddirLoop_eq libc dir dir.entries hnames hover before
    have hsearch : handle.searches vfs = reachesSupported dir.entries := by
      simp [VfsHandle.searches, hdir, hend]
    rw [← hsearch] at hrun
    have hsame : ((if handle.searches vfs then vfs.searched libc handle.inode
        else vfs).virtualNames handle.inode).Perm (vfs.virtualNames handle.inode) := by
      split
      · exact (Vfs.searched_resorted libc hnames).virtualNames_perm hnames
      · exact List.Perm.refl _
    refine ⟨code, _, { handle with dir := some { dir with
      entries := (nextReal (vfs.listing handle).overridden handle.flags dir dir.entries).2 } },
      after, ?_, ?_, ?_, rfl, rfl, rfl⟩
    · simp only [vfsReaddirReal, hdir, hrun, Option.bind_eq_bind, Option.bind_some]
      rfl
    · rw [hnext]
      exact hanswer
    · rw [hnext]
      exact Vfs.listing_past hsame hend _

/-- **One call of `vfs_readdir`** on an open directory. -/
theorem vfsReaddir_step {vfs : Vfs} {handle : VfsHandle} (htype : handle.type = .dirHandle)
    (hnames : vfs.HasNames handle.inode) (before : VfsDirent) :
    ∃ code vfs' handle' after,
      vfsReaddir libc vfs handle before = some (code, vfs', handle', after) ∧
      ReaddirStep libc vfs handle (readdirAnswer code after) vfs' handle' := by
  unfold vfsReaddir
  rw [if_neg (by simp [htype])]
  cases hthere : handle.inode.isNone && handle.dir.isNone with
  | true =>
    obtain ⟨hinode, hdir⟩ : handle.inode = none ∧ handle.dir = none := by
      simpa using hthere
    have hleft : (vfs.listing handle).left = [] := by simp [Vfs.listing, hinode, Vfs.virtualNames]
    have hnext := Listing.next_end hleft hdir
    have hno : (vfs.listing handle).isInode = false := by simp [Vfs.listing, hinode]
    rw [hno, if_neg (by simp)] at hnext
    refine ⟨.internalError, vfs, handle, before, if_pos rfl, ?_, ?_, ?_, rfl, rfl⟩
    · rw [hnext]
      rfl
    · rw [hnext]
    · simp [VfsHandle.searches, hdir]
  | false =>
    simp only [Bool.false_eq_true, if_false]
    cases hinode : handle.inode with
    | none =>
      have hend : (vfs.virtualNames handle.inode).length ≤ handle.internalNodeIndex := by
        simp [hinode, Vfs.virtualNames]
      exact vfsReaddirReal_step libc hnames hend hthere before
    | some r =>
      obtain ⟨list, hlist⟩ := hnames r hinode
      have hstrings : vfs.virtualNames handle.inode = list.strings := by
        rw [hinode, Vfs.virtualNames_some hlist]
      simp only [hlist, Option.bind_eq_bind, Option.bind_some]
      cases hname : list.strings[handle.internalNodeIndex]? with
      | none =>
        have hend : (vfs.virtualNames handle.inode).length ≤ handle.internalNodeIndex := by
          rw [hstrings]
          exact List.getElem?_eq_none_iff.mp hname
        exact vfsReaddirReal_step libc hnames hend hthere before
      | some name =>
        obtain ⟨hlt, hat⟩ := List.getElem?_eq_some_iff.mp hname
        have hleft : (vfs.listing handle).left =
            name :: list.strings.drop (handle.internalNodeIndex + 1) := by
          show (vfs.virtualNames handle.inode).drop _ = _
          rw [hstrings, List.drop_eq_getElem_cons hlt, hat]
        have hnext := Listing.next_virtual hleft
        refine ⟨.ok, vfs, { handle with internalNodeIndex := handle.internalNodeIndex + 1 },
          vfsStatVirtualDirectory name handle.flags, ?_, ?_, ?_, ?_, rfl, rfl⟩
        · rw [hinode]
          rfl
        · rw [hnext]
          rfl
        · rw [hnext]
          refine Listing.ext ?_ rfl rfl rfl rfl
          show (vfs.virtualNames handle.inode).drop (handle.internalNodeIndex + 1) = _
          rw [hstrings]
        · simp [VfsHandle.searches, hstrings, Nat.not_le.mpr hlt]

end Searching

end Umsftpd
