import Umsftpd.Vfs.Readers

/-!
# Listed entries

An entry that `vfs_readdir` gives is made from a virtual child, or from an entry of the real
directory and its status. Whoever reads directories in between, what a handle lists comes from what
it had when it was opened.
-/

namespace Umsftpd

open CLib Paths

/-! ## Names -/

/-- The part after the last slash has no slash, and a path without a slash at its end has it. -/
theorem constBasename_some {path name : CStr} (h : constBasename path = some name) :
    '/' ∉ name ∧ (Truncated path → name ≠ []) := by
  unfold constBasename afterLast at h
  split at h
  · next hslash =>
    obtain rfl := Option.some.inj h
    refine ⟨fun hmem => by simpa using List.mem_rtakeWhile_imp hmem, fun htrunc hnil => ?_⟩
    have hpath : path ≠ [] := List.ne_nil_of_mem hslash
    have hlast : path.getLast hpath = '/' := by
      simpa using List.rtakeWhile_eq_nil_iff.mp hnil hpath
    exact htrunc (by rw [List.getLast?_eq_getLast_of_ne_nil hpath, hlast])
  · exact absurd h (by simp)

/-- The virtual names of an inode are single components. -/
theorem Vfs.WellFormed.virtualNames {vfs : Vfs} (h : vfs.WellFormed) {inode : Option InodeRef}
    (hinode : ∀ r, inode = some r → r ∈ vfs.inode.data) {name : CStr}
    (hname : name ∈ vfs.virtualNames inode) : name ≠ [] ∧ '/' ∉ name := by
  cases inode with
  | none => exact absurd hname List.not_mem_nil
  | some r =>
    obtain ⟨list, hlist, hperm⟩ := h.subdirs r (hinode r rfl)
    rw [Vfs.virtualNames_some hlist] at hname
    have hchild := hperm.mem_iff.mp (List.mem_map_of_mem hname)
    obtain ⟨c, -, hc⟩ := List.mem_map.mp hchild
    obtain ⟨hslash, hne⟩ := constBasename_some hc
    exact ⟨hne (vfs.deref c).virtualPath_truncated, hslash⟩

/-! ## What a listing is made from -/

/-- What an entry of a directory handle was made from: nothing for a virtual name, the status of a
supported name that is not overridden for a real one. -/
inductive ListedFrom (vfs : Vfs) (handle : VfsHandle) (d : VfsDirent) : Option Stat → Prop
  | virtual (name : CStr) (hname : name ∈ vfs.virtualNames handle.inode)
      (heq : d = vfsStatVirtualDirectory name handle.flags) : ListedFrom vfs handle d none
  | real (fstatat : CStr → Except Errno Stat) (dirent : Dirent) (statbuf : Stat)
      (hdir : handle.dir.map Dir.fstatat = some fstatat) (hsupp : direntSupported dirent = true)
      (hover : dirent.dName ∉ vfs.virtualNames handle.inode)
      (hstat : fstatat dirent.dName = .ok statbuf)
      (heq : d = vfsStatStatbuf statbuf { filename := dirent.dName } handle.flags) :
      ListedFrom vfs handle d (some statbuf)

section ListedFrom

variable {vfs vfs' : Vfs} {handle handle' : VfsHandle} {d : VfsDirent} {status : Option Stat}

/-- An entry is made from the same when the handle goes on and names are reordered. -/
theorem ListedFrom.mono (h : ListedFrom vfs' handle' d status) (hsame : vfs.Resorted vfs')
    (hnames : vfs.HasNames handle.inode) (hinode : handle'.inode = handle.inode)
    (hflags : handle'.flags = handle.flags)
    (hdir : handle'.dir.map Dir.fstatat = handle.dir.map Dir.fstatat) :
    ListedFrom vfs handle d status := by
  have hperm := hsame.virtualNames_perm hnames
  cases h with
  | virtual name hname heq =>
    rw [hinode, hperm.mem_iff] at hname
    rw [hflags] at heq
    exact .virtual name hname heq
  | real fstatat dirent statbuf hstats hsupp hover hstat heq =>
    rw [hinode, hperm.mem_iff] at hover
    rw [hflags] at heq
    exact .real fstatat dirent statbuf (hdir.symm.trans hstats) hsupp hover hstat heq

/-- The answer of a listing is made from what the listing has. -/
theorem listedFrom_next (h : (vfs.listing handle).next.1 = .entry d) :
    ∃ status, ListedFrom vfs handle d status := by
  cases hleft : (vfs.listing handle).left with
  | cons name left =>
    rw [Listing.next_virtual hleft] at h
    have hmem : name ∈ (vfs.listing handle).left := by
      rw [hleft]
      exact List.mem_cons_self
    exact ⟨none, .virtual name (List.mem_of_mem_drop hmem) (ReaddirAnswer.entry.inj h).symm⟩
  | nil =>
    cases hdir : handle.dir with
    | none =>
      rw [Listing.next_end hleft hdir] at h
      dsimp only at h
      split at h <;> exact absurd h (by simp)
    | some dir =>
      rw [Listing.next_real hleft hdir] at h
      obtain ⟨dirent, statbuf, hsupp, hover, hstat, heq⟩ := nextReal_entry h
      exact ⟨some statbuf, .real dir.fstatat dirent statbuf (by rw [hdir]; rfl) hsupp
        (of_decide_eq_false hover) hstat heq⟩

/-- A call leaves the flags and the directory of a handle, up to the entries it has read. -/
theorem Listing.next_keeps (listing : Listing) :
    listing.next.2.flags = listing.flags ∧
      listing.next.2.dir.map Dir.fstatat = listing.dir.map Dir.fstatat := by
  cases hleft : listing.left with
  | cons name left =>
    rw [next_virtual hleft]
    exact ⟨rfl, rfl⟩
  | nil =>
    cases hdir : listing.dir with
    | none =>
      rw [next_end hleft hdir]
      exact ⟨rfl, by rw [hdir]⟩
    | some dir =>
      rw [next_real hleft hdir]
      exact ⟨rfl, rfl⟩

/-- What comes after a call was there before it. -/
theorem ReaddirStep.listedFrom {libc : LibC} {answer : ReaddirAnswer}
    (hstep : ReaddirStep libc vfs handle answer vfs' handle') (hnames : vfs.HasNames handle.inode)
    (hsame : vfs.Resorted vfs') (h : ListedFrom vfs' handle' d status) :
    ListedFrom vfs handle d status := by
  obtain ⟨hflags, hdir⟩ := Listing.next_keeps (vfs.listing handle)
  rw [← hstep.listing_eq] at hflags hdir
  exact h.mono hsame hnames hstep.inode_eq hflags hdir

end ListedFrom

/-- A name in a listing fits into the entry. -/
theorem ListedFrom.length_filename {vfs : Vfs} {handle : VfsHandle} {d : VfsDirent}
    {status : Option Stat} (h : ListedFrom vfs handle d status) :
    d.filename.length < vfsMaxFilenameLength := by
  cases h with
  | virtual name hname heq =>
    rw [heq]
    exact Nat.lt_of_le_of_lt (List.length_take_le _ _) (by decide)
  | real fstatat dirent statbuf hdir hsupp hover hstat heq =>
    rw [heq]
    exact Nat.lt_of_le_of_lt dirent.dName_length (by decide)

/-- And is one component. -/
theorem ListedFrom.component {vfs : Vfs} {handle : VfsHandle} {d : VfsDirent}
    {status : Option Stat} (h : ListedFrom vfs handle d status) (hwf : vfs.WellFormed)
    (hinode : ∀ r, handle.inode = some r → r ∈ vfs.inode.data) :
    d.filename ≠ [] ∧ '/' ∉ d.filename := by
  cases h with
  | virtual name hname heq =>
    obtain ⟨hne, hslash⟩ := hwf.virtualNames hinode hname
    rw [heq]
    refine ⟨fun hnil => ?_, fun hmem => hslash (List.mem_of_mem_take hmem)⟩
    exact (List.take_eq_nil_iff.mp hnil).elim (by decide) hne
  | real fstatat dirent statbuf hdir hsupp hover hstat heq =>
    rw [heq]
    exact ⟨dirent.dName_ne_nil, dirent.dName_no_slash⟩

/-- A real entry has a name, since the dots are left out. -/
theorem ListedFrom.validName {vfs : Vfs} {handle : VfsHandle} {d : VfsDirent} {statbuf : Stat}
    (h : ListedFrom vfs handle d (some statbuf)) : ValidName d.filename := by
  cases h with
  | real fstatat dirent _ hdir hsupp hover hstat heq =>
  obtain ⟨⟨hdot, hdotdot⟩, -⟩ :
      (dirent.dName ≠ ['.'] ∧ dirent.dName ≠ ['.', '.']) ∧ _ := by
    simpa [direntSupported] using hsupp
  rw [heq]
  exact ⟨dirent.dName_ne_nil, dirent.dName_no_slash, hdot, hdotdot⟩

/-! ## Runs of readers -/

/-- Reading directories only reorders names. -/
theorem Readers.readAll_resorted (libc : LibC) {calls : List ReadCall} {s s' : Readers}
    {answers : List (Nat × ReaddirAnswer)}
    (h : Readers.readAll libc calls s = some (answers, s')) : s.vfs.Resorted s'.vfs := by
  induction calls generalizing s answers with
  | nil =>
    obtain ⟨-, rfl⟩ := Prod.mk.inj (Option.some.inj h)
    exact Vfs.Resorted.refl _
  | cons call calls ih =>
    obtain ⟨⟨answer, s1⟩, hread, hrest⟩ := Option.bind_eq_some_iff.mp h
    obtain ⟨⟨answers1, s2⟩, hall, heq⟩ := Option.bind_eq_some_iff.mp hrest
    obtain ⟨-, rfl⟩ := Prod.mk.inj (Option.some.inj heq)
    obtain ⟨handle, -, hcall⟩ := Option.bind_eq_some_iff.mp hread
    obtain ⟨⟨code, vfs1, handle1, after⟩, hrun, heq1⟩ := Option.bind_eq_some_iff.mp hcall
    obtain ⟨-, rfl⟩ := Prod.mk.inj (Option.some.inj heq1)
    exact (vfsReaddir_resorted libc hrun).trans (ih hall)

/-- The run: whoever reads in between, an entry of a reader is made from what its handle has. -/
theorem Readers.readAll_listedFrom (libc : LibC) {calls : List ReadCall} {s s' : Readers}
    {answers : List (Nat × ReaddirAnswer)} {i : Nat} {handle : VfsHandle} {d : VfsDirent}
    (hi : s.handles[i]? = some handle) (htype : handle.type = .dirHandle)
    (hnames : s.vfs.HasNames handle.inode)
    (hrun : Readers.readAll libc calls s = some (answers, s'))
    (hlisted : .entry d ∈ answersOf i answers) : ∃ status, ListedFrom s.vfs handle d status := by
  induction calls generalizing s answers handle with
  | nil =>
    obtain ⟨rfl, -⟩ := Prod.mk.inj (Option.some.inj hrun)
    exact absurd hlisted List.not_mem_nil
  | cons call calls ih =>
    obtain ⟨⟨answer, s1⟩, hread, hrest⟩ := Option.bind_eq_some_iff.mp hrun
    obtain ⟨⟨answers1, s2⟩, hall, heq⟩ := Option.bind_eq_some_iff.mp hrest
    obtain ⟨rfl, rfl⟩ := Prod.mk.inj (Option.some.inj heq)
    obtain ⟨reader, hreader, hcall⟩ := Option.bind_eq_some_iff.mp hread
    obtain ⟨⟨code, vfs1, reader1, after⟩, hreaddir, heq1⟩ := Option.bind_eq_some_iff.mp hcall
    obtain ⟨rfl, rfl⟩ := Prod.mk.inj (Option.some.inj heq1)
    have hsame := vfsReaddir_resorted libc hreaddir
    by_cases hown : call.reader = i
    · subst hown
      obtain rfl := Option.some.inj (hi.symm.trans hreader)
      obtain ⟨code', vfs', handle', after', hreaddir', hstep⟩ :=
        vfsReaddir_step libc htype hnames call.buffer
      obtain ⟨rfl, rfl, rfl, rfl⟩ :
          code' = code ∧ vfs' = vfs1 ∧ handle' = reader1 ∧ after' = after := by
        simpa using hreaddir'.symm.trans hreaddir
      have hlisted' : .entry d = readdirAnswer code' after' ∨
          .entry d ∈ answersOf call.reader answers1 := by
        simpa [answersOf] using hlisted
      rcases hlisted' with hnow | hlater
      · exact listedFrom_next (hstep.answer_eq ▸ hnow.symm)
      · have hat : (s.handles.set call.reader handle')[call.reader]? = some handle' := by
          rw [List.getElem?_set_self (List.getElem?_eq_some_iff.mp hi).1]
        have hnames' : vfs'.HasNames handle'.inode := by
          rw [hstep.inode_eq]
          exact hnames.resorted hsame
        obtain ⟨status, hfrom⟩ := ih hat (hstep.type_eq.trans htype) hnames' hall hlater
        exact ⟨status, hstep.listedFrom hnames hsame hfrom⟩
    · have hat : (s.handles.set call.reader reader1)[i]? = some handle := by
        rw [List.getElem?_set_ne hown, hi]
      have hlater : .entry d ∈ answersOf i answers1 := by
        have hno : (call.reader == i) = false := by simpa using hown
        simpa [answersOf, List.filter_cons, hno] using hlisted
      obtain ⟨status, hfrom⟩ := ih hat htype (hnames.resorted hsame) hall hlater
      exact ⟨status, hfrom.mono hsame hnames rfl rfl rfl⟩

/-- The inode of an open directory is one of the file system. -/
theorem Vfs.Opened.inode_mem {vfs : Vfs} {handle : VfsHandle} (h : vfs.Opened handle) :
    ∀ r, handle.inode = some r → r ∈ vfs.inode.data := by
  obtain ⟨path, os, vfs', hopendir⟩ := h
  obtain ⟨-, p, node, -, -, hexit, rfl⟩ := vfsOpendir_eval hopendir
  intro r hr
  rw [Vfs.openExit_opened hexit] at hr
  exact (Vfs.nodeAt_some hr).1

/-- Everything a directory handle lists is a single component. -/
theorem listed_component (libc : LibC) {vfs : Vfs} (hreach : Reachable vfs) {handle : VfsHandle}
    (hopened : vfs.Opened handle) {handles : List VfsHandle} {i : Nat}
    (hi : handles[i]? = some handle) {calls : List ReadCall}
    {answers : List (Nat × ReaddirAnswer)} {s : Readers}
    (hrun : Readers.readAll libc calls ⟨vfs, handles⟩ = some (answers, s)) {d : VfsDirent}
    (hlisted : .entry d ∈ answersOf i answers) : d.filename ≠ [] ∧ '/' ∉ d.filename := by
  obtain ⟨htype, -, hnames⟩ := hopened.fresh hreach
  obtain ⟨status, hfrom⟩ := Readers.readAll_listedFrom libc hi htype hnames hrun hlisted
  exact hfrom.component hreach.valid.table hopened.inode_mem

end Umsftpd
