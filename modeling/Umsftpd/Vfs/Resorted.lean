import Umsftpd.Vfs.Entries
import Umsftpd.Vfs.OpenNode

/-!
# Reordered names

Serving a client reorders the names of children, as a search in them sorts them first, and sets the
error. Nothing else of the table changes.
-/

namespace Umsftpd

open CLib

/-- The same table, up to the order in which inodes list the names of their children. -/
structure Vfs.Resorted (vfs vfs' : Vfs) : Prop where
  inode : vfs'.inode = vfs.inode
  cwd : vfs'.cwd = vfs.cwd
  handles : vfs'.handles = vfs.handles
  next : vfs'.heap.next = vfs.heap.next
  info : ∀ r, (vfs'.deref r).info = (vfs.deref r).info
  subdirs : ∀ r list, (vfs.deref r).virtualSubdirs = some list →
    ∃ list', (vfs'.deref r).virtualSubdirs = some list' ∧ list'.strings.Perm list.strings

namespace Vfs

theorem Resorted.refl (vfs : Vfs) : vfs.Resorted vfs :=
  ⟨rfl, rfl, rfl, rfl, fun _ => rfl, fun _ list h => ⟨list, h, List.Perm.refl _⟩⟩

theorem Resorted.trans {vfs1 vfs2 vfs3 : Vfs} (h : vfs1.Resorted vfs2) (h' : vfs2.Resorted vfs3) :
    vfs1.Resorted vfs3 where
  inode := h'.inode.trans h.inode
  cwd := h'.cwd.trans h.cwd
  handles := h'.handles.trans h.handles
  next := h'.next.trans h.next
  info r := (h'.info r).trans (h.info r)
  subdirs r list hlist := by
    obtain ⟨list2, hlist2, hperm2⟩ := h.subdirs r list hlist
    obtain ⟨list3, hlist3, hperm3⟩ := h'.subdirs r list2 hlist2
    exact ⟨list3, hlist3, hperm3.trans hperm2⟩

theorem Resorted.setError (vfs : Vfs) (code : VfsInternalError) (msg : CStr) :
    vfs.Resorted (vfsSetError vfs code msg) :=
  ⟨rfl, rfl, rfl, rfl, fun _ => rfl, fun _ list h => ⟨list, h, List.Perm.refl _⟩⟩

/-- Reordering the list of one inode. -/
theorem Resorted.setSubdirs {vfs : Vfs} {r : InodeRef} {list list' : StringList}
    (hlist : (vfs.deref r).virtualSubdirs = some list) (hperm : list'.strings.Perm list.strings) :
    vfs.Resorted (vfs.setSubdirs r (some list')) where
  inode := rfl
  cwd := rfl
  handles := rfl
  next := rfl
  info s := by
    by_cases h : s = r
    · rw [h, vfs.deref_setSubdirs_self]
      rfl
    · rw [vfs.deref_setSubdirs_of_ne r _ h]
  subdirs s l hl := by
    by_cases h : s = r
    · subst h
      obtain rfl : list = l := Option.some.inj (hlist.symm.trans hl)
      exact ⟨list', by rw [vfs.deref_setSubdirs_self], hperm⟩
    · exact ⟨l, by rw [vfs.deref_setSubdirs_of_ne r _ h, hl], List.Perm.refl _⟩

section
variable {vfs vfs' : Vfs} (h : vfs.Resorted vfs')
include h

theorem Resorted.virtualPath (r : InodeRef) :
    (vfs'.deref r).virtualPath = (vfs.deref r).virtualPath :=
  congrArg NodeInfo.virtualPath (h.info r)

theorem Resorted.parent (r : InodeRef) : (vfs'.deref r).parent = (vfs.deref r).parent :=
  congrArg NodeInfo.parent (h.info r)

theorem Resorted.wellFormed (hwf : vfs.WellFormed) : vfs'.WellFormed := by
  have hnames : ∀ r, vfs'.childNames r = vfs.childNames r := by
    intro r
    unfold childNames children
    simp only [h.inode, h.parent, h.virtualPath]
  constructor
  · rw [h.inode, h.next]
    exact hwf.data_lt
  · rw [h.inode]
    exact hwf.data_nodup
  · intro r hr p hp
    rw [h.inode] at hr ⊢
    rw [h.parent] at hp
    exact hwf.parent_mem r hr p hp
  · intro r hr
    rw [h.inode] at hr
    obtain ⟨list, hlist, hperm⟩ := hwf.subdirs r hr
    obtain ⟨list', hlist', hperm'⟩ := h.subdirs r list hlist
    refine ⟨list', hlist', ?_⟩
    rw [hnames r]
    exact (hperm'.map some).trans hperm

theorem Resorted.ready (hready : vfs.Ready) : vfs'.Ready := by
  refine ⟨?_, ?_⟩
  · rw [h.cwd]
    exact hready.cwd
  · rw [h.handles]
    exact hready.handles

end

end Vfs

/-! ## Reading a directory -/

section Readdir

variable (libc : LibC)

theorem virtualSubdirsContain_resorted {vfs vfs' : Vfs} {inode : Option InodeRef} {name : CStr}
    {found : Bool} (h : virtualSubdirsContain libc vfs inode name = some (found, vfs')) :
    vfs.Resorted vfs' := by
  unfold virtualSubdirsContain at h
  cases inode with
  | none =>
    obtain ⟨-, rfl⟩ := Prod.mk.inj (Option.some.inj h)
    exact Vfs.Resorted.refl vfs
  | some r =>
    obtain ⟨list, hlist, hrest⟩ := Option.bind_eq_some_iff.mp h
    have hvfs : vfs.setSubdirs r (some (stringlistContains libc list name).2) = vfs' :=
      congrArg Prod.snd (Option.some.inj hrest)
    rw [← hvfs]
    apply Vfs.Resorted.setSubdirs hlist
    rw [stringlistContains_eq]
    exact stringlistSearched_perm libc list

theorem vfsReaddirLoop_resorted {handle : VfsHandle} {dir : Dir}
    {entries rest : List (Except Errno Dirent)} {vfs vfs' : Vfs} {before after : VfsDirent}
    {code : VfsError}
    (h : vfsReaddirLoop libc handle dir entries vfs before = some (code, vfs', rest, after)) :
    vfs.Resorted vfs' := by
  induction entries generalizing vfs before with
  | nil =>
    obtain ⟨-, rfl, -⟩ : _ ∧ vfs = vfs' ∧ _ := by simpa [vfsReaddirLoop] using h
    exact Vfs.Resorted.refl vfs
  | cons entry entries ih =>
    cases entry with
    | error errno =>
      obtain ⟨-, rfl, -⟩ : _ ∧ vfs = vfs' ∧ _ := by simpa [vfsReaddirLoop] using h
      exact Vfs.Resorted.refl vfs
    | ok dirent =>
      rw [vfsReaddirLoop] at h
      split at h
      · exact ih h
      · obtain ⟨⟨found, vfs1⟩, hcontain, hrest⟩ := Option.bind_eq_some_iff.mp h
        have hsame := virtualSubdirsContain_resorted libc hcontain
        dsimp only at hrest
        split at hrest
        · exact hsame.trans (ih hrest)
        · split at hrest
          · exact hsame.trans (ih hrest)
          · split at hrest
            · exact hsame.trans (ih hrest)
            · obtain ⟨-, rfl, -⟩ : _ ∧ vfs1 = vfs' ∧ _ := by simpa using hrest
              exact hsame

theorem vfsReaddir_resorted {vfs vfs' : Vfs} {handle handle' : VfsHandle}
    {before after : VfsDirent} {code : VfsError}
    (h : vfsReaddir libc vfs handle before = some (code, vfs', handle', after)) :
    vfs.Resorted vfs' := by
  have hreal : vfsReaddirReal libc vfs handle before = some (code, vfs', handle', after) →
      vfs.Resorted vfs' := by
    intro h
    unfold vfsReaddirReal at h
    cases hdir : handle.dir with
    | none =>
      rw [hdir] at h
      obtain ⟨-, rfl, -⟩ : _ ∧ vfs = vfs' ∧ _ := by simpa using h
      exact Vfs.Resorted.refl vfs
    | some dir =>
      rw [hdir] at h
      obtain ⟨⟨code1, vfs1, rest, after1⟩, hloop, hrest⟩ := Option.bind_eq_some_iff.mp h
      obtain ⟨-, rfl, -⟩ : _ ∧ vfs1 = vfs' ∧ _ := by simpa using hrest
      exact vfsReaddirLoop_resorted libc hloop
  unfold vfsReaddir at h
  split at h
  · obtain ⟨-, rfl, -⟩ : _ ∧ vfs = vfs' ∧ _ := by simpa using h
    exact Vfs.Resorted.refl vfs
  · split at h
    · obtain ⟨-, rfl, -⟩ : _ ∧ vfs = vfs' ∧ _ := by simpa using h
      exact Vfs.Resorted.refl vfs
    · split at h
      · exact hreal h
      · obtain ⟨list, -, hrest⟩ := Option.bind_eq_some_iff.mp h
        split at hrest
        · obtain ⟨-, rfl, -⟩ : _ ∧ vfs = vfs' ∧ _ := by simpa using hrest
          exact Vfs.Resorted.refl vfs
        · exact hreal hrest

end Readdir

end Umsftpd
