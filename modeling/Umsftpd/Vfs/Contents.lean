import Umsftpd.CLib.Stdio
import Umsftpd.Vfs.Listing

/-!
# All that a directory handle lists

Reading a directory to its end gives the `contents` of its listing: the virtual names first, then
what is shown of the real entries, up to the first error. Each call that gives an entry leaves a
smaller listing, and what was in the buffer before a call is never seen after it.
-/

namespace Umsftpd

open CLib

/-! ## Contents -/

/-- What is shown of an entry of the real directory, if it is shown. -/
def shownDirent (overridden : CStr → Bool) (flags : Flags) (dir : Dir) (dirent : Dirent) :
    Option VfsDirent :=
  if !direntSupported dirent || overridden dirent.dName then none
  else
    match dir.fstatat (filenameOf dirent.dName) with
    | .error _ => none
    | .ok statbuf =>
      if !statbuf.isDir && !statbuf.isReg then none
      else some (vfsStatStatbuf statbuf { filename := filenameOf dirent.dName } flags)

namespace Listing

/-- What the real directory still shows, and the error that ends it. -/
def realContents (listing : Listing) : List VfsDirent × Option VfsError :=
  match listing.dir with
  | none => ([], if listing.isInode then none else some .internalError)
  | some dir =>
    ((Stream.good dir.entries).filterMap (shownDirent listing.overridden listing.flags dir),
      (Stream.failure dir.entries).map fun _ => .internalError)

/-- What the calls up to the last one give, and the error that ends them. -/
def contents (listing : Listing) : List VfsDirent × Option VfsError :=
  (listing.left.map (vfsStatVirtualDirectory · listing.flags) ++ listing.realContents.1,
    listing.realContents.2)

/-- How much there is to go through. -/
def size (listing : Listing) : Nat :=
  listing.left.length + listing.dir.elim 0 fun dir => dir.entries.length

/-- What `answer` is the first part of. -/
def Starts (answer : ReaddirAnswer) (contents rest : List VfsDirent × Option VfsError) : Prop :=
  match answer with
  | .entry dirent => contents = (dirent :: rest.1, rest.2)
  | .eof => contents = ([], none)
  | .failed code => contents = ([], some code)

/-- An entry that is not shown is passed over. -/
theorem nextReal_ok (overridden : CStr → Bool) (flags : Flags) (dir : Dir) (dirent : Dirent)
    (rest : List (Except Errno Dirent)) :
    nextReal overridden flags dir (.ok dirent :: rest) =
      match shownDirent overridden flags dir dirent with
      | none => nextReal overridden flags dir rest
      | some vfsDirent => (.entry vfsDirent, rest) := by
  rw [nextReal, shownDirent]
  split
  · rfl
  cases dir.fstatat (filenameOf dirent.dName) with
  | error errno => rfl
  | ok statbuf =>
    dsimp only
    split <;> rfl

theorem nextReal_starts (overridden : CStr → Bool) (flags : Flags) (dir : Dir)
    (entries : List (Except Errno Dirent)) :
    Starts (nextReal overridden flags dir entries).1
      ((Stream.good entries).filterMap (shownDirent overridden flags dir),
        (Stream.failure entries).map fun _ => .internalError)
      ((Stream.good (nextReal overridden flags dir entries).2).filterMap
        (shownDirent overridden flags dir),
        (Stream.failure (nextReal overridden flags dir entries).2).map
          fun _ => .internalError) := by
  induction entries with
  | nil => rfl
  | cons entry entries ih =>
    cases entry with
    | error errno => rfl
    | ok dirent =>
      rw [nextReal_ok, Stream.good, Stream.failure, List.filterMap_cons]
      cases shownDirent overridden flags dir dirent with
      | none => exact ih
      | some vfsDirent => rfl

/-- The contents begin with the next answer. -/
theorem contents_next (listing : Listing) :
    Starts listing.next.1 listing.contents listing.next.2.contents := by
  cases hleft : listing.left with
  | cons name left =>
    rw [next_virtual hleft]
    unfold contents
    rw [hleft]
    rfl
  | nil =>
    cases hdir : listing.dir with
    | none =>
      rw [next_end hleft hdir]
      unfold contents realContents
      rw [hleft, hdir]
      cases listing.isInode <;> rfl
    | some dir =>
      rw [next_real hleft hdir]
      unfold contents realContents
      simp only [hleft, hdir, List.map_nil, List.nil_append]
      exact nextReal_starts _ _ _ _

/-! ## Sizes -/

theorem length_nextReal_lt (overridden : CStr → Bool) (flags : Flags) (dir : Dir)
    {entries : List (Except Errno Dirent)} {dirent : VfsDirent}
    (h : (nextReal overridden flags dir entries).1 = .entry dirent) :
    (nextReal overridden flags dir entries).2.length < entries.length := by
  induction entries with
  | nil => exact absurd h (by simp [nextReal])
  | cons entry entries ih =>
    cases entry with
    | error errno => exact absurd h (by simp [nextReal])
    | ok d =>
      rw [nextReal_ok] at h ⊢
      cases hshown : shownDirent overridden flags dir d with
      | none =>
        rw [hshown] at h
        exact Nat.lt_succ_of_lt (ih h)
      | some vfsDirent => exact Nat.lt_succ_self _

theorem size_next_lt {listing : Listing} {dirent : VfsDirent}
    (h : listing.next.1 = .entry dirent) : listing.next.2.size < listing.size := by
  cases hleft : listing.left with
  | cons name left =>
    rw [next_virtual hleft]
    unfold size
    rw [hleft]
    exact Nat.add_lt_add_right (Nat.lt_succ_self _) _
  | nil =>
    cases hdir : listing.dir with
    | none =>
      rw [next_end hleft hdir] at h
      dsimp only at h
      split at h <;> exact absurd h (by simp)
    | some dir =>
      rw [next_real hleft hdir] at h ⊢
      unfold size
      rw [hdir]
      exact Nat.add_lt_add_left (length_nextReal_lt _ _ _ h) _

end Listing

/-! ## Calls -/

section Calls

variable (libc : LibC)

/-- A call that comes to an end had a directory and the names of its inode. -/
theorem vfsReaddir_hasNames {vfs vfs' : Vfs} {handle handle' : VfsHandle}
    {before after : VfsDirent}
    (h : vfsReaddir libc vfs handle before = some (.ok, vfs', handle', after)) :
    handle.type = .dirHandle ∧ vfs.HasNames handle.inode := by
  unfold vfsReaddir at h
  split at h
  · exact absurd h (by simp)
  next htype =>
  refine ⟨not_not.mp htype, ?_⟩
  split at h
  · exact absurd h (by simp)
  cases hinode : handle.inode with
  | none => exact fun r hr => absurd hr (by simp)
  | some r =>
    rw [hinode] at h
    obtain ⟨list, hlist, -⟩ := Option.bind_eq_some_iff.mp h
    rintro _ ⟨⟩
    exact ⟨list, hlist⟩

/-- A call that gives an entry leaves a smaller listing. -/
theorem vfsReaddir_size_lt {vfs vfs' : Vfs} {handle handle' : VfsHandle} {code : VfsError}
    {before after : VfsDirent}
    (h : vfsReaddir libc vfs handle before = some (code, vfs', handle', after)) (hok : code = .ok)
    (heof : ¬after.eof = true) : (vfs'.listing handle').size < (vfs.listing handle).size := by
  subst hok
  obtain ⟨htype, hnames⟩ := vfsReaddir_hasNames libc h
  obtain ⟨code, vfs1, handle1, after1, hrun, hstep⟩ := vfsReaddir_step libc htype hnames before
  rw [h] at hrun
  obtain ⟨rfl, rfl, rfl, rfl⟩ : VfsError.ok = code ∧ vfs' = vfs1 ∧ handle' = handle1 ∧
      after = after1 := by simpa using hrun
  rw [hstep.listing_eq]
  refine Listing.size_next_lt (show (vfs.listing handle).next.1 = .entry after from ?_)
  rw [← hstep.answer_eq, readdirAnswer, if_neg (by simp), if_neg heof]

end Calls

end Umsftpd
