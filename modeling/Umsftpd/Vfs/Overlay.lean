import Umsftpd.Vfs.Readers

/-!
# A directory read to its end

What all calls of `vfs_readdir` on one handle give together: the names of the virtual children, cut
to the size of the buffer, then the real entries that are supported, not overridden and there, and
then the end, however often it is asked for. Calls on directories of other inodes may come between.
-/

namespace Umsftpd

open CLib Paths

/-! ## What there is to list -/

/-- A real entry that is listed: it is not `.` or `..`, of a supported type, not the name of a
virtual child, and `fstatat` finds a regular file or a directory. -/
structure CLib.Dirent.Shown (overridden : CStr → Bool) (fstatat : CStr → Except Errno Stat)
    (dirent : Dirent) (statbuf : Stat) : Prop where
  notDot : dirent.dName ≠ ['.'] ∧ dirent.dName ≠ ['.', '.']
  type : dirent.dType = .reg ∨ dirent.dType = .dir ∨ dirent.dType = .lnk
  notOverridden : overridden dirent.dName = false
  status : fstatat dirent.dName = .ok statbuf
  kind : statbuf.isReg = true ∨ statbuf.isDir = true

/-- The status of an entry that is listed. -/
def shownStatus (overridden : CStr → Bool) (fstatat : CStr → Except Errno Stat)
    (dirent : Dirent) : Option Stat :=
  if direntSupported dirent && !overridden dirent.dName then
    match fstatat dirent.dName with
    | .ok statbuf => if statbuf.isReg || statbuf.isDir then some statbuf else none
    | .error _ => none
  else none

theorem shownStatus_eq_some {overridden : CStr → Bool} {fstatat : CStr → Except Errno Stat}
    {dirent : Dirent} {statbuf : Stat} :
    shownStatus overridden fstatat dirent = some statbuf ↔
      dirent.Shown overridden fstatat statbuf := by
  have hsupported : direntSupported dirent = true ↔
      (dirent.dName ≠ ['.'] ∧ dirent.dName ≠ ['.', '.']) ∧
        (dirent.dType = .reg ∨ dirent.dType = .dir ∨ dirent.dType = .lnk) := by
    simp [direntSupported, or_assoc]
  unfold shownStatus
  constructor
  · intro h
    split at h
    · next hlooked =>
      obtain ⟨hsupp, hover⟩ := (Bool.and_eq_true _ _).mp hlooked
      obtain ⟨hdots, htype⟩ := hsupported.mp hsupp
      split at h
      · next found hfound =>
        split at h
        · next hkind =>
          obtain rfl := Option.some.inj h
          exact ⟨hdots, htype, by simpa using hover, hfound, by simpa using hkind⟩
        · exact absurd h (by simp)
      · exact absurd h (by simp)
    · exact absurd h (by simp)
  · intro h
    rw [if_pos (by simp [hsupported.mpr ⟨h.notDot, h.type⟩, h.notOverridden]), h.status]
    exact if_pos (by simpa using h.kind)

namespace Listing

/-- The entries that a listing has still to give, when `entries` are left in its directory. -/
def remaining (listing : Listing) (fstatat : CStr → Except Errno Stat) (entries : List Dirent) :
    List VfsDirent :=
  listing.left.map (fun name => vfsStatVirtualDirectory name listing.flags) ++
    entries.filterMap fun dirent =>
      (shownStatus listing.overridden fstatat dirent).map fun statbuf =>
        vfsStatStatbuf statbuf { filename := dirent.dName } listing.flags

/-- The directory of the listing has `entries` left, or there is none and they are none. -/
def Holds (dir : Option Dir) (fstatat : CStr → Except Errno Stat) (entries : List Dirent) : Prop :=
  dir = some ⟨entries.map .ok, fstatat⟩ ∨ dir = none ∧ entries = []

end Listing

/-- The answer of the `n`-th call when `entries` are to be given. -/
def answerAt (entries : List VfsDirent) (n : Nat) : ReaddirAnswer :=
  (entries[n]?.map ReaddirAnswer.entry).getD .eof

/-! ## Draining a listing -/

theorem nextReal_cons {overridden : CStr → Bool} {flags : Flags} {dir : Dir} (dirent : Dirent)
    (rest : List (Except Errno Dirent)) :
    nextReal overridden flags dir (.ok dirent :: rest) =
      match shownStatus overridden dir.fstatat dirent with
      | some statbuf => (.entry (vfsStatStatbuf statbuf { filename := dirent.dName } flags), rest)
      | none => nextReal overridden flags dir rest := by
  rw [nextReal, filenameOf_dName]
  unfold shownStatus
  cases direntSupported dirent with
  | false => rfl
  | true =>
    cases overridden dirent.dName with
    | true => rfl
    | false =>
      cases dir.fstatat dirent.dName with
      | error errno => rfl
      | ok statbuf =>
        cases hreg : statbuf.isReg <;> cases hdir : statbuf.isDir <;> simp [hreg, hdir]

/-- Only the oracle of the directory is asked. -/
theorem nextReal_congr {overridden : CStr → Bool} {flags : Flags} {dir dir' : Dir}
    (h : dir.fstatat = dir'.fstatat) (entries : List (Except Errno Dirent)) :
    nextReal overridden flags dir entries = nextReal overridden flags dir' entries := by
  induction entries with
  | nil => rfl
  | cons entry entries ih =>
    cases entry with
    | error errno => rfl
    | ok dirent => rw [nextReal_cons, nextReal_cons, h, ih]

namespace Listing

/-- One entry, and then what the rest of the listing gives. -/
theorem answers_cons {listing listing' : Listing} {d : VfsDirent} {entries : List VfsDirent}
    (hnext : listing.next = (.entry d, listing'))
    (hrest : ∀ k, listing'.answers k = (List.range k).map (answerAt entries)) (k : Nat) :
    listing.answers k = (List.range k).map (answerAt (d :: entries)) := by
  cases k with
  | zero => rfl
  | succ k =>
    rw [answers, hnext, hrest, List.range_succ_eq_map, List.map_cons, List.map_map]
    rfl

/-- At the end a listing stays there. -/
theorem answers_end {listing : Listing} (hnext : listing.next = (.eof, listing)) (k : Nat) :
    listing.answers k = (List.range k).map (answerAt []) := by
  induction k with
  | zero => rfl
  | succ k ih =>
    rw [answers, hnext, ih, List.range_succ_eq_map, List.map_cons, List.map_map]
    rfl

/-- Two listings that give the same next answer go on in the same way. -/
theorem answers_congr {listing listing' : Listing} (hnext : listing.next = listing'.next)
    (k : Nat) : listing.answers k = listing'.answers k := by
  cases k with
  | zero => rfl
  | succ k => rw [answers, answers, hnext]

/-- After the virtual names: by induction on the entries that are left. -/
theorem answers_real {listing : Listing} {fstatat : CStr → Except Errno Stat}
    {entries : List Dirent} (hleft : listing.left = []) (hholds : Holds listing.dir fstatat entries)
    (hthere : listing.isInode = true ∨ listing.dir ≠ none) (k : Nat) :
    listing.answers k = (List.range k).map (answerAt (listing.remaining fstatat entries)) := by
  unfold remaining
  rw [hleft, List.map_nil, List.nil_append]
  induction entries generalizing listing k with
  | nil =>
    apply answers_end
    rcases hholds with hdir | ⟨hdir, -⟩
    · rw [next_real hleft hdir]
      exact Prod.ext rfl (Listing.ext rfl rfl rfl rfl hdir.symm)
    · rw [next_end hleft hdir, if_pos (hthere.resolve_right (not_not.mpr hdir))]
  | cons dirent entries ih =>
    have hdir : listing.dir = some ⟨(dirent :: entries).map .ok, fstatat⟩ :=
      hholds.resolve_right (by simp)
    let rest : Listing := { listing with dir := some ⟨entries.map .ok, fstatat⟩ }
    -- the names are given, so the listing that is left differs in its directory only
    have hrest : ∀ k, rest.answers k = _ :=
      ih hleft (.inl rfl) (.inr (Option.some_ne_none _))
    have hnext := next_real hleft hdir
    rw [List.map_cons, nextReal_cons] at hnext
    rw [List.filterMap_cons]
    cases hshown : shownStatus listing.overridden fstatat dirent with
    | some statbuf =>
      rw [hshown] at hnext
      exact answers_cons hnext hrest k
    | none =>
      -- an entry that is not listed makes no difference
      have hskip : rest.next = _ := next_real hleft rfl
      have hsame : nextReal listing.overridden listing.flags ⟨(dirent :: entries).map .ok, fstatat⟩
          (entries.map .ok) = nextReal listing.overridden listing.flags ⟨entries.map .ok, fstatat⟩
            (entries.map .ok) := by
        apply nextReal_congr
        rfl
      rw [hshown] at hnext
      dsimp only at hnext
      rw [← List.map_cons, hsame] at hnext
      exact (answers_congr (hnext.trans hskip.symm) k).trans (hrest k)

/-- **A listing drained.** Every call gives the next entry, and the end after the last one. -/
theorem answers_eq {listing : Listing} {fstatat : CStr → Except Errno Stat}
    {entries : List Dirent} (hholds : Holds listing.dir fstatat entries)
    (hthere : listing.isInode = true ∨ listing.dir ≠ none) (k : Nat) :
    listing.answers k = (List.range k).map (answerAt (listing.remaining fstatat entries)) := by
  obtain ⟨left, overridden, isInode, flags, dir⟩ := listing
  induction left generalizing k with
  | nil => exact answers_real rfl hholds hthere k
  | cons name left ih =>
    exact answers_cons (next_virtual rfl) (fun k => ih k hholds hthere) k

end Listing

/-! ## The names of a listing -/

theorem Listing.filename_remaining (listing : Listing) (fstatat : CStr → Except Errno Stat)
    (entries : List Dirent) :
    (listing.remaining fstatat entries).map VfsDirent.filename =
      listing.left.map filenameOf ++ (entries.filter fun dirent =>
        (shownStatus listing.overridden fstatat dirent).isSome).map Dirent.dName := by
  unfold remaining
  rw [List.map_append, List.map_map]
  congr 1
  induction entries with
  | nil => rfl
  | cons dirent entries ih =>
    rw [List.filterMap_cons, List.filter_cons]
    cases shownStatus listing.overridden fstatat dirent with
    | none => exact ih
    | some statbuf => exact congrArg (dirent.dName :: ·) ih

instance (overridden : CStr → Bool) (fstatat : CStr → Except Errno Stat) (dirent : Dirent) :
    Decidable (∃ statbuf, dirent.Shown overridden fstatat statbuf) :=
  decidable_of_iff ((shownStatus overridden fstatat dirent).isSome = true) <|
    Option.isSome_iff_exists.trans (exists_congr fun _ => shownStatus_eq_some)

theorem decide_shown (overridden : CStr → Bool) (fstatat : CStr → Except Errno Stat)
    (dirent : Dirent) :
    decide (∃ statbuf, dirent.Shown overridden fstatat statbuf) =
      (shownStatus overridden fstatat dirent).isSome := by
  rw [Bool.eq_iff_iff, decide_eq_true_iff, Option.isSome_iff_exists]
  exact exists_congr fun _ => shownStatus_eq_some.symm

/-- The names that a directory handle has to list: the virtual ones, cut to the size of the buffer,
and those of the real entries that are listed. -/
def Vfs.overlayNames (vfs : Vfs) (inode : Option InodeRef) (fstatat : CStr → Except Errno Stat)
    (entries : List Dirent) : List CStr :=
  (vfs.virtualNames inode).map filenameOf ++ (entries.filter fun dirent =>
    ∃ statbuf, dirent.Shown (fun name => name ∈ vfs.virtualNames inode) fstatat statbuf).map
      Dirent.dName

theorem Vfs.filename_overlay (vfs : Vfs) {handle : VfsHandle}
    (hfresh : handle.internalNodeIndex = 0) (fstatat : CStr → Except Errno Stat)
    (entries : List Dirent) :
    ((vfs.listing handle).remaining fstatat entries).map VfsDirent.filename =
      vfs.overlayNames handle.inode fstatat entries := by
  rw [Listing.filename_remaining]
  unfold overlayNames Vfs.listing
  simp only [hfresh, List.drop_zero, decide_shown]

/-- Distinct names that fit into the buffer are listed once each. -/
theorem Vfs.overlayNames_nodup {vfs : Vfs} {inode : Option InodeRef}
    {fstatat : CStr → Except Errno Stat} {entries : List Dirent}
    (hsubdirs : (vfs.virtualNames inode).Nodup) (hentries : (entries.map Dirent.dName).Nodup)
    (hshort : ∀ name ∈ vfs.virtualNames inode, name.length < vfsMaxFilenameLength) :
    (vfs.overlayNames inode fstatat entries).Nodup := by
  have hwhole : (vfs.virtualNames inode).map filenameOf = vfs.virtualNames inode := by
    refine (List.map_congr_left fun name hname => ?_).trans (List.map_id _)
    exact List.take_of_length_le (Nat.le_pred_of_lt (hshort name hname))
  unfold overlayNames
  rw [hwhole, List.nodup_append]
  -- a real entry with the name of a virtual child is not listed
  refine ⟨hsubdirs, hentries.sublist (List.filter_sublist.map _), ?_⟩
  intro name hname real hreal heq
  obtain ⟨dirent, hdirent, rfl⟩ := List.mem_map.mp hreal
  obtain ⟨statbuf, hshown⟩ := of_decide_eq_true (List.mem_filter.mp hdirent).2
  have hover := hshown.notOverridden
  rw [← heq] at hover
  exact absurd hname (of_decide_eq_false hover)

/-! ## Reading beside other readers -/

namespace Readers

/-- The inode whose directory a reader has open. -/
def inodeOf (s : Readers) (i : Nat) : Option InodeRef := s.handles[i]?.bind VfsHandle.inode

/-- Readers on other inodes do not search the names of this one. -/
theorem spares_of_inode_ne (libc : LibC) {vfs : Vfs} {handle other : VfsHandle}
    (h : ∀ r, handle.inode = some r → other.inode ≠ some r) : vfs.Spares libc handle other :=
  fun _ r hr hother => absurd hother (h r hr)

/-- The run: a reader whose inode no other reader uses gets the answers of its listing. -/
theorem Valid.readAll_apart (libc : LibC) {s : Readers} (h : s.Valid) {calls : List ReadCall}
    (hcalls : ∀ call ∈ calls, call.reader < s.handles.length) {i : Nat} {handle : VfsHandle}
    (hi : s.handles[i]? = some handle)
    (hapart : ∀ call ∈ calls, call.reader ≠ i → ∀ r, s.inodeOf call.reader = some r →
      handle.inode ≠ some r) :
    ∃ answers s', Readers.readAll libc calls s = some (answers, s') ∧
      answersOf i answers = (s.vfs.listing handle).answers (callsOf i calls).length := by
  induction calls generalizing s handle with
  | nil => exact ⟨[], s, rfl, rfl⟩
  | cons call calls ih =>
    obtain ⟨hlt, hcalls'⟩ := List.forall_mem_cons.mp hcalls
    obtain ⟨hcall, hapart'⟩ := List.forall_mem_cons.mp hapart
    have hreader := List.getElem?_eq_getElem hlt
    obtain ⟨s1, reader', hread, hvalid, hset, hinode, hown, hothers⟩ := h.read libc hreader
    have hlength : s1.handles.length = s.handles.length := by rw [hset, List.length_set]
    have hinodes : ∀ j, s1.inodeOf j = s.inodeOf j := by
      intro j
      unfold inodeOf
      rw [hset]
      by_cases hj : call.reader = j
      · subst hj
        rw [List.getElem?_set_self hlt, hreader]
        exact hinode
      · rw [List.getElem?_set_ne hj]
    -- the handle that goes on is the same as before, or one call further
    obtain ⟨handle', hi', hsame, hanswers⟩ : ∃ handle', s1.handles[i]? = some handle' ∧
        handle'.inode = handle.inode ∧ ∀ answers k,
          answersOf i answers = (s1.vfs.listing handle').answers k →
          answersOf i ((call.reader, (s.vfs.listing s.handles[call.reader]).next.1) :: answers) =
            (s.vfs.listing handle).answers ((callsOf i [call]).length + k) := by
      by_cases hj : call.reader = i
      · subst hj
        obtain rfl : s.handles[call.reader] = handle := Option.some.inj (hreader.symm.trans hi)
        refine ⟨reader', by rw [hset, List.getElem?_set_self hlt], hinode, fun answers k hk => ?_⟩
        simp only [answersOf, callsOf, List.filter_cons, beq_self_eq_true, if_true, List.map_cons,
          List.filter_nil, List.length_cons, List.length_nil]
        rw [Nat.add_comm, Listing.answers, ← hown]
        exact congrArg _ hk
      · refine ⟨handle, by rw [hset, List.getElem?_set_ne hj, hi], rfl, fun answers k hk => ?_⟩
        have hno : (call.reader == i) = false := by simpa using hj
        have hspares : s.vfs.Spares libc s.handles[call.reader] handle := by
          apply spares_of_inode_ne
          intro r hr
          exact hcall hj r (by rw [inodeOf, hreader]; exact hr)
        rw [hothers handle hspares] at hk
        simpa [answersOf, callsOf, List.filter_cons, hno] using hk
    obtain ⟨answers, s2, hrun, hrest⟩ := ih hvalid (fun c hc => hlength ▸ hcalls' c hc) hi'
      (fun c hc hne r hr => by
        rw [hsame]
        exact hapart' c hc hne r (hinodes c.reader ▸ hr))
    refine ⟨(call.reader, (s.vfs.listing s.handles[call.reader]).next.1) :: answers, s2, ?_, ?_⟩
    · simp only [Readers.readAll, hread, hrun, Option.bind_eq_bind, Option.bind_some]
      rfl
    · rw [hanswers answers _ hrest, ← List.length_append]
      congr 2
      exact (List.filter_append ..).symm

end Readers

/-! ## The overlay -/

/-- **A directory read to its end.** A handle that is fresh from `vfs_opendir` and has an inode or
an open directory gives, one after the other, the names of the virtual children, each cut to the
size of the buffer, and the real entries that are listed, and then the end on every further call.
No name comes twice when the virtual ones fit into the buffer. -/
theorem vfsReaddir_overlay (libc : LibC) {vfs : Vfs} (hreach : Reachable vfs)
    {handles : List VfsHandle}
    (hopened : ∀ handle ∈ handles, vfs.Opened handle) {calls : List ReadCall}
    (hcalls : ∀ call ∈ calls, call.reader < handles.length) {i : Nat} {handle : VfsHandle}
    (hi : handles[i]? = some handle) (hthere : handle.inode ≠ none ∨ handle.dir ≠ none)
    (hapart : ∀ call ∈ calls, call.reader ≠ i → ∀ r,
      Readers.inodeOf ⟨vfs, handles⟩ call.reader = some r → handle.inode ≠ some r)
    {fstatat : CStr → Except Errno Stat} {entries : List Dirent}
    (hholds : Listing.Holds handle.dir fstatat entries)
    (hsubdirs : (vfs.virtualNames handle.inode).Nodup)
    (hentries : (entries.map Dirent.dName).Nodup) :
    ∃ answers s listed, Readers.readAll libc calls ⟨vfs, handles⟩ = some (answers, s) ∧
      answersOf i answers = (List.range (callsOf i calls).length).map (answerAt listed) ∧
      listed.map VfsDirent.filename = vfs.overlayNames handle.inode fstatat entries ∧
      ((∀ name ∈ vfs.virtualNames handle.inode, name.length < vfsMaxFilenameLength) →
        (listed.map VfsDirent.filename).Nodup) := by
  have hvalid := Readers.valid_of_opened hreach hopened
  have hfresh := (hopened handle (List.mem_of_getElem? hi)).fresh hreach
  obtain ⟨answers, s, hrun, hanswers⟩ := hvalid.readAll_apart libc hcalls hi hapart
  have hthere' : (vfs.listing handle).isInode = true ∨ (vfs.listing handle).dir ≠ none :=
    hthere.imp_left Option.isSome_iff_ne_none.mpr
  have hnames := vfs.filename_overlay hfresh.2.1 fstatat entries
  refine ⟨answers, s, (vfs.listing handle).remaining fstatat entries, hrun, ?_, hnames, ?_⟩
  · rw [hanswers]
    exact Listing.answers_eq hholds hthere' _
  · intro hshort
    rw [hnames]
    exact Vfs.overlayNames_nodup hsubdirs hentries hshort

/-- One virtual name and one real entry, and the end for the third call and the fourth. -/
theorem vfsReaddir_overlay_mounted :
    ∃ vfs handle fstatat answers s listed,
      openRoot [⟨"/".toList, some "/srv".toList, 0, 0⟩, ⟨"/a".toList, none, 0, 0⟩] fileX =
        some (vfs, handle) ∧
      Readers.readAll LibC.reference (List.replicate 4 ⟨0, {}⟩) ⟨vfs, [handle]⟩ =
        some (answers, s) ∧
      answersOf 0 answers = (List.range 4).map (answerAt listed) ∧
      listed.map VfsDirent.filename = vfs.overlayNames handle.inode fstatat [fileX] := by
  have hrun : (openRoot [⟨"/".toList, some "/srv".toList, 0, 0⟩, ⟨"/a".toList, none, 0, 0⟩]
      fileX).map (fun opened => opened.1.virtualNames opened.2.inode) = some [['a']] := by
    decide
  obtain ⟨⟨vfs, handle⟩, hopen, hnames⟩ := Option.map_eq_some_iff.mp hrun
  obtain ⟨hreach, hfrozen, hopendir⟩ := openRoot_eq_some hopen
  have hnames : vfs.virtualNames handle.inode = [['a']] := hnames
  obtain ⟨fstatat, hdir⟩ : ∃ fstatat, handle.dir = some ⟨[fileX].map .ok, fstatat⟩ := by
    obtain ⟨-, p, node, -, -, -, rfl⟩ := vfsOpendir_eval hopendir
    exact ⟨_, rfl⟩
  have hopened : ∀ other ∈ [handle], vfs.Opened other := by
    intro other hother
    rw [List.mem_singleton.mp hother]
    exact ⟨_, _, _, hopendir⟩
  have hzero : ∀ call ∈ List.replicate 4 (⟨0, {}⟩ : ReadCall), call.reader = 0 := by
    intro call hcall
    rw [List.eq_of_mem_replicate hcall]
  obtain ⟨answers, s, listed, hread, hanswers, hlisted, -⟩ :=
    vfsReaddir_overlay LibC.reference hreach hopened
      (fun call hcall => by rw [hzero call hcall]; exact Nat.one_pos) (i := 0) rfl
      (.inr (by rw [hdir]; exact Option.some_ne_none _))
      (fun call hcall hne => absurd (hzero call hcall) hne) (.inl hdir)
      (by rw [hnames]; exact List.nodup_singleton _) (List.nodup_singleton _)
  exact ⟨vfs, handle, fstatat, answers, s, listed, hopen, hread, hanswers, hlisted⟩

/-- A name that is one character longer than what fits. -/
def longName : CStr := List.replicate 256 'a'

/-- A virtual child is listed under less than its name, in a directory whose target is missing. -/
theorem vfsReaddir_cutsName :
    ∃ vfs handle answers s, Reachable vfs ∧ vfs.inode.frozen = true ∧ vfs.Opened handle ∧
      handle.inode ≠ none ∧ handle.dir = none ∧ vfs.virtualNames handle.inode = [longName] ∧
      Readers.readAll LibC.reference [⟨0, {}⟩] ⟨vfs, [handle]⟩ = some (answers, s) ∧
      listedNames (answersOf 0 answers) = [List.replicate 255 'a'] ∧
      longName ∉ listedNames (answersOf 0 answers) := by
  have hrun : ((configured [⟨"/".toList, some "/srv".toList, 0, 0⟩,
      ⟨'/' :: longName, none, 0, 0⟩]).bind fun vfs =>
      ((vfsOpendir vfs (some ['/'])).eval Os.empty).bind fun opened =>
        opened.2.2.bind fun handle =>
          (Readers.readAll LibC.reference [⟨0, {}⟩] ⟨vfs, [handle]⟩).map fun read =>
            (decide (opened.2.1 = .ok) && handle.inode.isSome && handle.dir.isNone,
              vfs.virtualNames handle.inode, listedNames (answersOf 0 read.1))) =
      some (true, [longName], [List.replicate 255 'a']) := by
    decide +kernel
  obtain ⟨vfs, hvfs, h⟩ := Option.bind_eq_some_iff.mp hrun
  obtain ⟨⟨vfs', code, opened⟩, hopendir, h⟩ := Option.bind_eq_some_iff.mp h
  obtain ⟨handle, rfl, h⟩ := Option.bind_eq_some_iff.mp h
  obtain ⟨⟨answers, s⟩, hread, heq⟩ := Option.map_eq_some_iff.mp h
  obtain ⟨hopened, hnames, hlisted⟩ := Prod.mk.inj heq |>.imp_right Prod.mk.inj
  obtain ⟨⟨rfl, hinode⟩, hdir⟩ :
      (code = .ok ∧ handle.inode.isSome = true) ∧ handle.dir.isNone = true := by
    simpa using hopened
  obtain ⟨hreach, hfrozen⟩ := reachable_configured hvfs
  refine ⟨vfs, handle, answers, s, hreach, hfrozen, ⟨_, _, _, hopendir⟩,
    Option.isSome_iff_ne_none.mp hinode, Option.isNone_iff_eq_none.mp hdir, hnames, hread, hlisted,
    ?_⟩
  rw [hlisted, List.mem_singleton]
  intro h
  -- what is listed is one character short
  have hlength := congrArg List.length h
  rw [longName, List.length_replicate, List.length_replicate] at hlength
  omega

end Umsftpd
