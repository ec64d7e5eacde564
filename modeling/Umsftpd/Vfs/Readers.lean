import Umsftpd.Vfs.Containment
import Umsftpd.Vfs.Listing

/-!
# Several readers of directories

Directory handles that are read in turns. Each of them lists what it would list alone as long as no
search sorts names that another handle has still to give; a search that does makes that handle
repeat names and leave others out.
-/

namespace Umsftpd

open CLib Paths

/-! ## What a listing gives -/

/-- The names in a sequence of answers. -/
def listedNames (answers : List ReaddirAnswer) : List CStr :=
  answers.filterMap fun
    | .entry dirent => some dirent.filename
    | _ => none

section
variable (answers : List ReaddirAnswer)

@[simp] theorem listedNames_entry (d : VfsDirent) :
    listedNames (.entry d :: answers) = d.filename :: listedNames answers := rfl

@[simp] theorem listedNames_eof : listedNames (.eof :: answers) = listedNames answers := rfl

@[simp] theorem listedNames_failed (code : VfsError) :
    listedNames (.failed code :: answers) = listedNames answers := rfl

theorem listedNames_append (answers' : List ReaddirAnswer) :
    listedNames (answers ++ answers') = listedNames answers ++ listedNames answers' :=
  List.filterMap_append

end

theorem filenameOf_dName (dirent : Dirent) : filenameOf dirent.dName = dirent.dName :=
  List.take_of_length_le dirent.dName_length

/-- An entry of the real directory is there, supported and not overridden, and made from its
status. -/
theorem nextReal_entry {overridden : CStr → Bool} {flags : Flags} {dir : Dir}
    {entries : List (Except Errno Dirent)} {d : VfsDirent}
    (h : (nextReal overridden flags dir entries).1 = .entry d) :
    ∃ dirent statbuf, direntSupported dirent = true ∧ overridden dirent.dName = false ∧
      dir.fstatat dirent.dName = .ok statbuf ∧
      d = vfsStatStatbuf statbuf { filename := dirent.dName } flags := by
  induction entries with
  | nil => exact absurd h (by simp [nextReal])
  | cons entry entries ih =>
    cases entry with
    | error errno => exact absurd h (by simp [nextReal])
    | ok dirent =>
      rw [nextReal] at h
      split at h
      · exact ih h
      · next hkept =>
        obtain ⟨hsupp, hover⟩ :
            direntSupported dirent = true ∧ overridden dirent.dName = false := by
          simpa using hkept
        rw [filenameOf_dName] at h
        split at h
        · exact ih h
        · next statbuf hstat =>
          split at h
          · exact ih h
          · exact ⟨dirent, statbuf, hsupp, hover, hstat, (ReaddirAnswer.entry.inj h).symm⟩

namespace Listing

/-- The virtual names come first and in their order. -/
theorem answers_virtual (listing : Listing) (k : Nat) :
    listing.answers (listing.left.length + k) =
      listing.left.map (fun name => .entry (vfsStatVirtualDirectory name listing.flags)) ++
        { listing with left := [] }.answers k := by
  obtain ⟨left, overridden, isInode, flags, dir⟩ := listing
  induction left with
  | nil => simp
  | cons name left ih =>
    rw [List.length_cons, Nat.add_right_comm, answers, next_virtual rfl]
    exact congrArg _ ih

/-- Past the virtual names a listing stays past them, and an entry is not overridden. -/
theorem next_past {listing : Listing} (hleft : listing.left = []) :
    listing.next.2.left = [] ∧ listing.next.2.overridden = listing.overridden ∧
      ∀ d, listing.next.1 = .entry d → listing.overridden d.filename = false := by
  cases hdir : listing.dir with
  | none =>
    rw [next_end hleft hdir]
    refine ⟨hleft, rfl, fun d h => ?_⟩
    dsimp only at h
    split at h <;> exact absurd h (by simp)
  | some dir =>
    rw [next_real hleft hdir]
    refine ⟨hleft, rfl, fun d h => ?_⟩
    obtain ⟨dirent, statbuf, -, hno, -, rfl⟩ := nextReal_entry h
    exact hno

/-- After the virtual names no overridden name is listed. -/
theorem answers_past {listing : Listing} (hleft : listing.left = []) {k : Nat} {name : CStr}
    (h : name ∈ listedNames (listing.answers k)) : listing.overridden name = false := by
  induction k generalizing listing with
  | zero => exact absurd h List.not_mem_nil
  | succ k ih =>
    obtain ⟨hleft', hover, hentry⟩ := next_past hleft
    have hrest : name ∈ listedNames (listing.next.2.answers k) →
        listing.overridden name = false := by
      intro h
      rw [← hover]
      exact ih hleft' h
    rw [answers] at h
    cases hanswer : listing.next.1 with
    | entry d =>
      rw [hanswer, listedNames_entry] at h
      rcases List.mem_cons.mp h with rfl | h
      · exact hentry d hanswer
      · exact hrest h
    | eof => exact hrest (by rwa [hanswer, listedNames_eof] at h)
    | failed code => exact hrest (by rwa [hanswer, listedNames_failed] at h)

/-- A listing gives each of its virtual names once, if they are distinct and fit into the buffer. -/
theorem answers_once {listing : Listing}
    (hover : ∀ name ∈ listing.left, listing.overridden name = true)
    (hnodup : listing.left.Nodup)
    (hshort : ∀ name ∈ listing.left, name.length < vfsMaxFilenameLength) {k : Nat}
    (hk : listing.left.length ≤ k) {name : CStr} (hname : name ∈ listing.left) :
    (listedNames (listing.answers k)).count name = 1 := by
  obtain ⟨m, rfl⟩ := Nat.exists_eq_add_of_le hk
  have hvirtual : listedNames (listing.left.map fun name =>
      .entry (vfsStatVirtualDirectory name listing.flags)) = listing.left := by
    unfold listedNames
    rw [List.filterMap_map]
    refine (List.filterMap_congr fun n hn => ?_).trans List.filterMap_some
    exact congrArg some (List.take_of_length_le (Nat.le_pred_of_lt (hshort n hn)))
  have hreal : (listedNames ({ listing with left := [] }.answers m)).count name = 0 := by
    rw [List.count_eq_zero]
    intro hmem
    have hno : ({ listing with left := [] } : Listing).overridden name = false :=
      answers_past rfl hmem
    simp [hover name hname] at hno
  rw [answers_virtual, listedNames_append, List.count_append, hvirtual, hreal, Nat.add_zero]
  exact List.count_eq_one_of_mem hnodup hname

end Listing

/-! ## Reading in turns -/

/-- A file system and the directory handles that are open on it. -/
structure Readers where
  vfs : Vfs
  handles : List VfsHandle

/-- A call of `vfs_readdir` on one of the handles, with the buffer it is given. -/
structure ReadCall where
  reader : Nat
  buffer : VfsDirent

/-- The calls on one handle, and the answers of one. -/
def callsOf (i : Nat) (calls : List ReadCall) : List ReadCall :=
  calls.filter fun call => call.reader == i

def answersOf (i : Nat) (answers : List (Nat × ReaddirAnswer)) : List ReaddirAnswer :=
  (answers.filter fun answer => answer.1 == i).map Prod.snd

section Run

variable (libc : LibC)

namespace Readers

/-- One call, with the handle it was made on next to the answer. -/
def read (s : Readers) (call : ReadCall) : Option ((Nat × ReaddirAnswer) × Readers) := do
  let handle ← s.handles[call.reader]?
  let (code, vfs, handle, dirent) ← vfsReaddir libc s.vfs handle call.buffer
  return ((call.reader, readdirAnswer code dirent), ⟨vfs, s.handles.set call.reader handle⟩)

/-- Calls one after the other. -/
def readAll : List ReadCall → Readers → Option (List (Nat × ReaddirAnswer) × Readers)
  | [], s => some ([], s)
  | call :: calls, s => do
    let (answer, s) ← s.read libc call
    let (answers, s) ← readAll calls s
    return (answer :: answers, s)

end Readers

/-! ## What a call does to the other handles -/

/-- A call on `handle` that searches names which are not sorted yet finds in their place those that
`other`, on the same inode, has still to give. -/
def Vfs.Spares (vfs : Vfs) (handle other : VfsHandle) : Prop :=
  handle.searches vfs = true → ∀ r ∈ handle.inode, r ∈ other.inode →
    ∀ list ∈ (vfs.deref r).virtualSubdirs, list.sorted = false →
      (stringlistSort libc list).strings.drop other.internalNodeIndex =
        list.strings.drop other.internalNodeIndex

instance (vfs : Vfs) (handle other : VfsHandle) : Decidable (vfs.Spares libc handle other) := by
  unfold Vfs.Spares
  infer_instance

/-- A handle that searches has given all virtual names itself. -/
theorem Vfs.spares_self (vfs : Vfs) (handle : VfsHandle) : vfs.Spares libc handle handle := by
  intro hsearch r hr _ list hlist _
  have hnames : vfs.virtualNames handle.inode = list.strings := by
    rw [Option.mem_def.mp hr, Vfs.virtualNames_some hlist]
  have hend : list.strings.length ≤ handle.internalNodeIndex := by
    rw [← hnames]
    exact of_decide_eq_true (Bool.and_eq_true_iff.mp hsearch).1
  rw [List.drop_eq_nil_of_le hend, List.drop_eq_nil_of_le]
  rw [(stringlistSort_perm libc list).length_eq]
  exact hend

/-- A handle that is spared lists the same before and after the call. -/
theorem Vfs.Spares.listing_eq {vfs : Vfs} {handle other : VfsHandle}
    (h : vfs.Spares libc handle other) (hnames : vfs.HasNames handle.inode) :
    (if handle.searches vfs then vfs.searched libc handle.inode else vfs).listing other =
      vfs.listing other := by
  cases hsearch : handle.searches vfs with
  | false => rfl
  | true =>
    rw [if_pos rfl]
    rcases hinode : handle.inode with _ | r
    · rfl
    rcases hother : other.inode with _ | s
    · apply Vfs.listing_congr <;> simp [hother, Vfs.virtualNames]
    obtain ⟨list, hlist⟩ := hnames r hinode
    by_cases hrs : s = r
    · subst hrs
      have hbefore : vfs.virtualNames other.inode = list.strings := by
        rw [hother, Vfs.virtualNames_some hlist]
      have hafter : (vfs.searched libc (some s)).virtualNames other.inode =
          (stringlistSearched libc list).strings := by
        rw [hother]
        apply Vfs.virtualNames_some
        show ((vfs.setSubdirs s _).deref s).virtualSubdirs = _
        rw [vfs.deref_setSubdirs_self, hlist]
        rfl
      have hleft : (stringlistSearched libc list).strings.drop other.internalNodeIndex =
          list.strings.drop other.internalNodeIndex := by
        unfold stringlistSearched
        split
        · next hunsorted => exact h hsearch s hinode hother list hlist hunsorted.2
        · rfl
      apply Vfs.listing_congr
      · rw [hbefore, hafter, hleft]
      · intro name
        rw [hbefore, hafter]
        exact (stringlistSearched_perm libc list).mem_iff
    · have hsame : (vfs.searched libc (some r)).virtualNames other.inode =
          vfs.virtualNames other.inode := by
        rw [hother]
        unfold Vfs.virtualNames
        rw [Option.bind_some, Option.bind_some]
        show Option.getD (((vfs.setSubdirs r _).deref s).virtualSubdirs.map _) [] = _
        rw [vfs.deref_setSubdirs_of_ne r _ hrs]
      apply Vfs.listing_congr
      · rw [hsame]
      · intro name
        rw [hsame]

namespace Readers

/-- No call of the run sorts names that a handle has still to give. -/
def Undisturbed : List ReadCall → Readers → Prop
  | [], _ => True
  | call :: calls, s =>
    (∀ handle ∈ s.handles[call.reader]?, ∀ other ∈ s.handles, s.vfs.Spares libc handle other) ∧
      ∀ r ∈ s.read libc call, Undisturbed calls r.2

instance decidableUndisturbed :
    ∀ (calls : List ReadCall) (s : Readers), Decidable (Undisturbed libc calls s)
  | [], _ => isTrue trivial
  | call :: calls, s => by
    have := decidableUndisturbed calls
    unfold Undisturbed
    infer_instance

/-- The handles are open directories, and their inodes have their names. -/
structure Valid (s : Readers) : Prop where
  type_eq : ∀ handle ∈ s.handles, handle.type = .dirHandle
  names : ∀ handle ∈ s.handles, s.vfs.HasNames handle.inode

/-- The step: a call gives the next answer of its handle, and the handles that it spares list what
they would have listed before it. -/
theorem Valid.read {s : Readers} (h : s.Valid) {call : ReadCall} {handle : VfsHandle}
    (hhandle : s.handles[call.reader]? = some handle) :
    ∃ s' handle', s.read libc call =
        some ((call.reader, (s.vfs.listing handle).next.1), s') ∧
      s'.Valid ∧ s'.handles = s.handles.set call.reader handle' ∧ handle'.inode = handle.inode ∧
      s'.vfs.listing handle' = (s.vfs.listing handle).next.2 ∧
      ∀ other, s.vfs.Spares libc handle other →
        s'.vfs.listing other = s.vfs.listing other := by
  have hmem := List.mem_of_getElem? hhandle
  obtain ⟨code, vfs', handle', after, hrun, hstep⟩ :=
    vfsReaddir_step libc (h.type_eq handle hmem) (h.names handle hmem) call.buffer
  have hsame := vfsReaddir_resorted libc hrun
  refine ⟨⟨vfs', s.handles.set call.reader handle'⟩, handle', ?_, ⟨?_, ?_⟩, rfl, hstep.inode_eq,
    hstep.listing_eq, ?_⟩
  · rw [← hstep.answer_eq]
    simp only [Readers.read, hhandle, hrun, Option.bind_eq_bind, Option.bind_some]
    rfl
  · intro other hother
    rcases List.mem_or_eq_of_mem_set hother with hother | rfl
    · exact h.type_eq other hother
    · rw [hstep.type_eq]
      exact h.type_eq handle hmem
  · intro other hother
    rcases List.mem_or_eq_of_mem_set hother with hother | rfl
    · exact (h.names other hother).resorted hsame
    · rw [hstep.inode_eq]
      exact (h.names handle hmem).resorted hsame
  · intro other hspares
    show vfs'.listing other = _
    rw [hstep.vfs_eq]
    exact hspares.listing_eq libc (h.names handle hmem)

/-- The run: as long as no handle is disturbed, each gives the answers of its own listing. -/
theorem Valid.readAll {s : Readers} (h : s.Valid) {calls : List ReadCall}
    (hcalls : ∀ call ∈ calls, call.reader < s.handles.length)
    (hundisturbed : Undisturbed libc calls s) :
    ∃ answers s', Readers.readAll libc calls s = some (answers, s') ∧
      ∀ i handle, s.handles[i]? = some handle →
        answersOf i answers = (s.vfs.listing handle).answers (callsOf i calls).length := by
  induction calls generalizing s with
  | nil => exact ⟨[], s, rfl, fun i handle _ => rfl⟩
  | cons call calls ih =>
    obtain ⟨hlt, hcalls'⟩ := List.forall_mem_cons.mp hcalls
    obtain ⟨hspares, hrest⟩ := hundisturbed
    have hhandle := List.getElem?_eq_getElem hlt
    obtain ⟨s1, handle', hread, hvalid, hset, -, hown, hothers⟩ := h.read libc hhandle
    have hlength : s1.handles.length = s.handles.length := by rw [hset, List.length_set]
    obtain ⟨answers, s2, hrun, hanswers⟩ :=
      ih hvalid (fun c hc => hlength ▸ hcalls' c hc) (hrest _ hread)
    refine ⟨(call.reader, (s.vfs.listing s.handles[call.reader]).next.1) :: answers, s2, ?_, ?_⟩
    · simp only [Readers.readAll, hread, hrun, Option.bind_eq_bind, Option.bind_some]
      rfl
    · intro i handle hi
      by_cases hi' : call.reader = i
      · subst hi'
        obtain rfl : s.handles[call.reader] = handle := Option.some.inj (hhandle.symm.trans hi)
        have hat : s1.handles[call.reader]? = some handle' := by
          rw [hset, List.getElem?_set_self hlt]
        have hmore := hanswers _ handle' hat
        simp only [answersOf, callsOf, List.filter_cons, beq_self_eq_true, if_true, List.map_cons,
          List.length_cons, Listing.answers]
        rw [← hown]
        exact congrArg _ hmore
      · have hat : s1.handles[i]? = some handle := by
          rw [hset, List.getElem?_set_ne hi', hi]
        have hno : (call.reader == i) = false := by simpa using hi'
        have hmore := hanswers i handle hat
        rw [hothers handle (hspares _ hhandle handle (List.mem_of_getElem? hi))] at hmore
        simpa [answersOf, callsOf, List.filter_cons, hno] using hmore

/-- A handle that is read alone disturbs no other. -/
theorem Valid.undisturbed_alone {vfs : Vfs} {handle : VfsHandle}
    (h : (⟨vfs, [handle]⟩ : Readers).Valid) {calls : List ReadCall}
    (hcalls : ∀ call ∈ calls, call.reader = 0) : Undisturbed libc calls ⟨vfs, [handle]⟩ := by
  induction calls generalizing vfs handle with
  | nil => trivial
  | cons call calls ih =>
    obtain ⟨hzero, hcalls'⟩ := List.forall_mem_cons.mp hcalls
    have hhandle : (⟨vfs, [handle]⟩ : Readers).handles[call.reader]? = some handle := by
      rw [hzero]
      rfl
    have hspares : ∀ other ∈ [handle], vfs.Spares libc handle other := by
      intro other hother
      rw [List.mem_singleton.mp hother]
      exact vfs.spares_self libc handle
    obtain ⟨⟨vfs', handles'⟩, handle', hread, hvalid, hset, -⟩ := h.read libc hhandle
    refine ⟨?_, ?_⟩
    · intro handle'' h''
      obtain rfl : handle = handle'' := Option.some.inj (hhandle.symm.trans h'')
      exact hspares
    · intro r hr
      obtain rfl := Option.some.inj (hread.symm.trans hr)
      obtain rfl : handles' = [handle'] := by simpa [hzero] using hset
      exact ih hvalid hcalls'

end Readers

end Run

/-! ## Opening directories -/

/-- What `vfs_opendir` gives. -/
theorem vfsOpendir_eval {vfs : Vfs} {path : Option CStr} {os : Os} {vfs' : Vfs} {handle : VfsHandle}
    (h : (vfsOpendir vfs path).eval os = some (vfs', .ok, some handle)) :
    vfs' = vfs ∧ ∃ p node, path = some p ∧ Sanitizable vfs.cwd.path p ∧
      vfs.openExit os (resolve vfs.cwd.path p) = .opened node ∧
      handle = { node with
        type := .dirHandle, dir := (os.opendir node.mappedPath).toOption } := by
  obtain ⟨⟨r, w'⟩, hrun, hr⟩ := Option.map_eq_some_iff.mp h
  obtain rfl : r = (vfs', .ok, some handle) := hr
  have hopendir := (vfsOpendir_ifReturns vfs path os {}).result hrun
  obtain ⟨-, hvfs, p, rfl, rfl⟩ := hopendir.opened handle rfl
  obtain ⟨_, ⟨⟩, hopens⟩ := hopendir.ok_iff.mp rfl
  exact ⟨hvfs, p, _, rfl, hopens.sanitizable, hopens.openExit, rfl⟩

/-- `handle` is what `vfs_opendir` gives for some path. -/
def Vfs.Opened (vfs : Vfs) (handle : VfsHandle) : Prop :=
  ∃ path os vfs', (vfsOpendir vfs path).eval os = some (vfs', .ok, some handle)

/-- An open directory is read from its beginning, and its inode has its names. -/
theorem Vfs.Opened.fresh {vfs : Vfs} (hreach : Reachable vfs) {handle : VfsHandle}
    (h : vfs.Opened handle) :
    handle.type = .dirHandle ∧ handle.internalNodeIndex = 0 ∧ vfs.HasNames handle.inode := by
  obtain ⟨path, os, vfs', hrun⟩ := h
  obtain ⟨-, p, node, -, -, hexit, rfl⟩ := vfsOpendir_eval hrun
  have hnode := Vfs.openExit_opened hexit
  refine ⟨rfl, by rw [hnode]; rfl, ?_⟩
  intro r hr
  have hat : vfs.nodeAt (resolve vfs.cwd.path p) = some r := by
    rw [hnode] at hr
    exact hr
  obtain ⟨list, hlist, -⟩ := hreach.valid.table.subdirs r (Vfs.nodeAt_some hat).1
  exact ⟨list, hlist⟩

theorem Readers.valid_of_opened {vfs : Vfs} (hreach : Reachable vfs) {handles : List VfsHandle}
    (hopened : ∀ handle ∈ handles, vfs.Opened handle) : (⟨vfs, handles⟩ : Readers).Valid where
  type_eq handle hhandle := ((hopened handle hhandle).fresh hreach).1
  names handle hhandle := ((hopened handle hhandle).fresh hreach).2.2

/-! ## Independence -/

/-- **Independence of directory handles.** In a run in which no call sorts names that a handle has
still to give, every handle gets the answers it would get alone: its virtual names first, each of
them once. -/
theorem readAll_independent (libc : LibC) {vfs : Vfs} (hreach : Reachable vfs)
    {handles : List VfsHandle}
    (hopened : ∀ handle ∈ handles, vfs.Opened handle) {calls : List ReadCall}
    (hcalls : ∀ call ∈ calls, call.reader < handles.length)
    (hundisturbed : Readers.Undisturbed libc calls ⟨vfs, handles⟩) :
    ∃ answers s, Readers.readAll libc calls ⟨vfs, handles⟩ = some (answers, s) ∧
      ∀ i handle, handles[i]? = some handle →
        (∃ alone s', Readers.readAll libc
              ((callsOf i calls).map fun call => { call with reader := 0 }) ⟨vfs, [handle]⟩ =
            some (alone, s') ∧
          answersOf i answers = answersOf 0 alone) ∧
        ∀ r list, handle.inode = some r → (vfs.deref r).virtualSubdirs = some list →
          list.strings.length ≤ (callsOf i calls).length →
          (answersOf i answers).take list.strings.length =
              list.strings.map (fun name =>
                .entry (vfsStatVirtualDirectory name handle.flags)) ∧
            (list.strings.Nodup → (∀ name ∈ list.strings, name.length < vfsMaxFilenameLength) →
              ∀ name ∈ list.strings, (listedNames (answersOf i answers)).count name = 1) := by
  have hvalid := Readers.valid_of_opened hreach hopened
  obtain ⟨answers, s, hrun, hanswers⟩ := hvalid.readAll libc hcalls hundisturbed
  refine ⟨answers, s, hrun, fun i handle hi => ⟨?_, ?_⟩⟩
  · have halone : (⟨vfs, [handle]⟩ : Readers).Valid := by
      apply Readers.valid_of_opened hreach
      intro other hother
      rw [List.mem_singleton.mp hother]
      exact hopened handle (List.mem_of_getElem? hi)
    have hzero : ∀ call ∈ (callsOf i calls).map fun call => { call with reader := 0 },
        call.reader = 0 := by
      intro call hcall
      obtain ⟨c, -, rfl⟩ := List.mem_map.mp hcall
      rfl
    obtain ⟨alone, s', hrun', hanswers'⟩ := halone.readAll libc
      (fun call hcall => by rw [hzero call hcall]; exact Nat.one_pos)
      (halone.undisturbed_alone libc hzero)
    refine ⟨alone, s', hrun', ?_⟩
    have hall : callsOf 0 ((callsOf i calls).map fun call => { call with reader := 0 }) =
        (callsOf i calls).map fun call => { call with reader := 0 } := by
      apply List.filter_eq_self.mpr
      intro call hcall
      rw [hzero call hcall]
      rfl
    rw [hanswers i handle hi, hanswers' 0 handle rfl, hall, List.length_map]
  · intro r list hr hlist hk
    have hfresh := (hopened handle (List.mem_of_getElem? hi)).fresh hreach
    have hnames : vfs.virtualNames handle.inode = list.strings := by
      rw [hr, Vfs.virtualNames_some hlist]
    have hleft : (vfs.listing handle).left = list.strings := by
      show (vfs.virtualNames handle.inode).drop handle.internalNodeIndex = _
      rw [hfresh.2.1, hnames, List.drop_zero]
    rw [hanswers i handle hi]
    constructor
    · obtain ⟨m, hm⟩ := Nat.exists_eq_add_of_le hk
      rw [hm, ← hleft, Listing.answers_virtual, List.take_left' (by rw [List.length_map])]
      rfl
    · intro hnodup hshort name hname
      have hover : ∀ name ∈ (vfs.listing handle).left,
          (vfs.listing handle).overridden name = true := by
        intro name hname
        rw [hleft, ← hnames] at hname
        exact decide_eq_true hname
      rw [← hleft] at hnodup hshort hname hk
      exact Listing.answers_once hover hnodup hshort hk hname

/-- A system whose directories hold one regular file each. -/
def CLib.Os.oneFile (dirent : Dirent) : Os where
  lstat := Os.empty.lstat
  stat := Os.empty.stat
  opendir _ := .ok ⟨[.ok dirent], fun _ => .ok ⟨S_IFREG, 0, 0, 0, ⟨0, 0⟩, ⟨0, 0⟩, ⟨0, 0⟩⟩⟩
  fopen := Os.empty.fopen

def fileX : Dirent := ⟨['x'], .reg, by decide, by decide, by decide⟩

/-- The root directory of a configuration, opened. -/
def openRoot (ds : List Declaration) (dirent : Dirent) : Option (Vfs × VfsHandle) := do
  let vfs ← configured ds
  let (_, code, handle) ← (vfsOpendir vfs (some ['/'])).eval (Os.oneFile dirent)
  if code = .ok then handle.map fun handle => (vfs, handle) else none

theorem openRoot_eq_some {ds : List Declaration} {dirent : Dirent} {vfs : Vfs} {handle : VfsHandle}
    (h : openRoot ds dirent = some (vfs, handle)) :
    Reachable vfs ∧ vfs.inode.frozen = true ∧
      (vfsOpendir vfs (some ['/'])).eval (Os.oneFile dirent) = some (vfs, .ok, some handle) := by
  obtain ⟨vfs', hvfs, h⟩ := Option.bind_eq_some_iff.mp h
  obtain ⟨⟨vfs'', code, opened⟩, hrun, h⟩ := Option.bind_eq_some_iff.mp h
  dsimp only at h
  split at h
  · next hcode =>
    obtain ⟨handle', rfl, heq⟩ := Option.map_eq_some_iff.mp h
    obtain ⟨rfl, rfl⟩ := Prod.mk.inj heq
    obtain ⟨hreach, hfrozen⟩ := reachable_configured hvfs
    subst hcode
    obtain ⟨rfl, -⟩ := vfsOpendir_eval hrun
    exact ⟨hreach, hfrozen, hrun⟩
  · exact absurd h (by simp)

/-- One reader takes a name, the other reads on until a search sorts the names, and the first goes
on from there. -/
def inTurns : List ReadCall := [⟨0, {}⟩, ⟨1, {}⟩, ⟨1, {}⟩, ⟨1, {}⟩, ⟨0, {}⟩]

theorem readAll_independent_sorted :
    ∃ vfs handle answers s alone s',
      openRoot [⟨"/".toList, some "/srv".toList, 0, 0⟩, ⟨"/a".toList, none, 0, 0⟩,
        ⟨"/b".toList, none, 0, 0⟩] fileX = some (vfs, handle) ∧
      Readers.readAll LibC.reference inTurns ⟨vfs, [handle, handle]⟩ = some (answers, s) ∧
      Readers.readAll LibC.reference [⟨0, {}⟩, ⟨0, {}⟩] ⟨vfs, [handle]⟩ = some (alone, s') ∧
      answersOf 0 answers = answersOf 0 alone := by
  have hrun : (openRoot [⟨"/".toList, some "/srv".toList, 0, 0⟩, ⟨"/a".toList, none, 0, 0⟩,
      ⟨"/b".toList, none, 0, 0⟩] fileX).map (fun opened => decide (Readers.Undisturbed
        LibC.reference inTurns ⟨opened.1, [opened.2, opened.2]⟩)) = some true := by
    decide
  obtain ⟨⟨vfs, handle⟩, hopen, h⟩ := Option.map_eq_some_iff.mp hrun
  obtain ⟨hreach, hfrozen, hopendir⟩ := openRoot_eq_some hopen
  have hopened : ∀ other ∈ [handle, handle], vfs.Opened other := by
    intro other hother
    obtain rfl : other = handle := by simpa using hother
    exact ⟨_, _, _, hopendir⟩
  have hcalls : ∀ call ∈ inTurns, call.reader < [handle, handle].length := by
    show ∀ call ∈ inTurns, call.reader < 2
    decide
  obtain ⟨answers, s, hread, hall⟩ := readAll_independent LibC.reference hreach hopened
    hcalls (of_decide_eq_true h)
  obtain ⟨⟨alone, s', halone, hsame⟩, -⟩ := hall 0 handle rfl
  exact ⟨vfs, handle, answers, s, alone, s', hopen, hread, halone, hsame⟩

/-- Inserted the other way round, the first reader gets `b` again and never `a`. -/
theorem readAll_disturbed :
    ∃ vfs handle answers s alone s',
      openRoot [⟨"/".toList, some "/srv".toList, 0, 0⟩, ⟨"/b".toList, none, 0, 0⟩,
        ⟨"/a".toList, none, 0, 0⟩] fileX = some (vfs, handle) ∧
      Reachable vfs ∧ vfs.inode.frozen = true ∧ vfs.Opened handle ∧
      Readers.readAll LibC.reference inTurns ⟨vfs, [handle, handle]⟩ = some (answers, s) ∧
      Readers.readAll LibC.reference [⟨0, {}⟩, ⟨0, {}⟩] ⟨vfs, [handle]⟩ = some (alone, s') ∧
      listedNames (answersOf 0 answers) = [['b'], ['b']] ∧
      listedNames (answersOf 0 alone) = [['b'], ['a']] := by
  have hrun : ((openRoot [⟨"/".toList, some "/srv".toList, 0, 0⟩, ⟨"/b".toList, none, 0, 0⟩,
      ⟨"/a".toList, none, 0, 0⟩] fileX).bind fun opened =>
        (Readers.readAll LibC.reference inTurns ⟨opened.1, [opened.2, opened.2]⟩).bind fun run =>
          (Readers.readAll LibC.reference [⟨0, {}⟩, ⟨0, {}⟩] ⟨opened.1, [opened.2]⟩).map
            fun alone => (listedNames (answersOf 0 run.1), listedNames (answersOf 0 alone.1))) =
      some ([['b'], ['b']], [['b'], ['a']]) := by
    decide
  obtain ⟨⟨vfs, handle⟩, hopen, h⟩ := Option.bind_eq_some_iff.mp hrun
  obtain ⟨⟨answers, s⟩, hread, h⟩ := Option.bind_eq_some_iff.mp h
  obtain ⟨⟨alone, s'⟩, halone, h⟩ := Option.map_eq_some_iff.mp h
  obtain ⟨hrepeated, hlisted⟩ := Prod.mk.inj h
  obtain ⟨hreach, hfrozen, hopendir⟩ := openRoot_eq_some hopen
  exact ⟨vfs, handle, answers, s, alone, s', hopen, hreach, hfrozen, ⟨_, _, _, hopendir⟩, hread,
    halone, hrepeated, hlisted⟩

end Umsftpd
