import Umsftpd.Vfs.Atomicity
import Umsftpd.Vfs.Reachable

/-!
# Freeing (`vfs_free`)

`vfs_free` goes through the table. Inodes come into it when they are created and never leave it,
whichever allocations fail, so every one of them is freed, once. A list that could not be allocated
is freed without a look at it.
-/

namespace Umsftpd

open CLib

/-! ## Blocks -/

/-- What is allocated for a file system: the fields of `struct vfs_t`, and those of the inode behind
a reference. -/
inductive VfsBlock where
  | vfs
  | cwdPath
  | inodeData
  | inode (r : InodeRef)
  | virtualPath (r : InodeRef)
  | targetPath (r : InodeRef)
  | virtualSubdirs (r : InodeRef)
  | strings (r : InodeRef)
  | string (r : InodeRef) (i : Nat)
  deriving DecidableEq

/-- `free(NULL)` frees nothing. -/
def freeIf (allocated : Bool) (block : VfsBlock) : List VfsBlock :=
  if allocated then [block] else []

/-- `stringlist_free` of the list of an inode. There is nothing in the array before the first
insertion. -/
def stringlistFree (r : InodeRef) (list : StringList) : List VfsBlock :=
  (List.range list.count).map (.string r) ++ freeIf (list.count != 0) (.strings r) ++
    [.virtualSubdirs r]

/-- A round of the loop of `vfs_free`, which reads the list behind a pointer it does not check. -/
def vfsFreeInode (r : InodeRef) (inode : VfsInode) : Option (List VfsBlock) := do
  let subdirs ← inode.virtualSubdirs
  return .virtualPath r :: freeIf inode.targetPath.isSome (.targetPath r) ++
    stringlistFree r subdirs ++ [.inode r]

def vfsFreeInodes (vfs : Vfs) : List InodeRef → Option (List VfsBlock)
  | [] => some []
  | r :: rs => do
    let blocks ← vfsFreeInode r (vfs.deref r)
    let rest ← vfsFreeInodes vfs rs
    return blocks ++ rest

/-- `vfs_free`: the blocks it frees, in order. -/
def vfsFree : Option Vfs → Option (List VfsBlock)
  | none => some []
  | some vfs => do
    let inodes ← vfsFreeInodes vfs vfs.inode.data
    return freeIf (vfs.cwd.allocedSize != 0) .cwdPath ++ inodes ++
      freeIf (vfs.inode.data.length != 0) .inodeData ++ [.vfs]

/-! ## What there is to free -/

/-- The inode that a block belongs to. -/
def VfsBlock.owner : VfsBlock → Option InodeRef
  | vfs | cwdPath | inodeData => none
  | inode r | virtualPath r | targetPath r | virtualSubdirs r | strings r | string r _ => some r

/-- The blocks of an inode. -/
def VfsInode.Has (inode : VfsInode) : VfsBlock → Prop
  | .vfs | .cwdPath | .inodeData => False
  | .inode _ | .virtualPath _ => True
  | .targetPath _ => inode.targetPath ≠ none
  | .virtualSubdirs _ => inode.virtualSubdirs ≠ none
  | .strings _ => ∃ list, inode.virtualSubdirs = some list ∧ 0 < list.count
  | .string _ i => ∃ list, inode.virtualSubdirs = some list ∧ i < list.count

/-- The blocks of a file system, those of all inodes there are among them. -/
def Vfs.Has (vfs : Vfs) (block : VfsBlock) : Prop :=
  match block.owner with
  | some r => r < vfs.heap.next ∧ (vfs.deref r).Has block
  | none => match block with
    | .cwdPath => vfs.cwd.allocedSize ≠ 0
    | .inodeData => vfs.inode.data ≠ []
    | _ => True

section Inode

variable {inode : VfsInode} {r : InodeRef} {blocks : List VfsBlock}

theorem mem_freeIf {allocated : Bool} {block b : VfsBlock} :
    b ∈ freeIf allocated block ↔ allocated = true ∧ b = block := by
  unfold freeIf
  cases allocated with
  | false => simp
  | true => simp

theorem vfsFreeInode_eq_none : vfsFreeInode r inode = none ↔ inode.virtualSubdirs = none := by
  unfold vfsFreeInode
  cases inode.virtualSubdirs with
  | none => simp
  | some list => simp

theorem mem_vfsFreeInode (h : vfsFreeInode r inode = some blocks) (b : VfsBlock) :
    b ∈ blocks ↔ b.owner = some r ∧ inode.Has b := by
  obtain ⟨list, hlist, heq⟩ := Option.bind_eq_some_iff.mp h
  obtain rfl := Option.some.inj heq
  cases b <;>
    simp [stringlistFree, mem_freeIf, VfsBlock.owner, VfsInode.Has, hlist,
      Option.isSome_iff_ne_none, Nat.pos_iff_ne_zero] <;> grind

theorem freeIf_nodup (allocated : Bool) (block : VfsBlock) : (freeIf allocated block).Nodup := by
  unfold freeIf
  split <;> simp

theorem vfsFreeInode_nodup (h : vfsFreeInode r inode = some blocks) : blocks.Nodup := by
  obtain ⟨list, hlist, heq⟩ := Option.bind_eq_some_iff.mp h
  obtain rfl := Option.some.inj heq
  have hstrings : ((List.range list.count).map (VfsBlock.string r)).Nodup := by
    refine List.Nodup.map ?_ List.nodup_range
    intro i j hij
    simpa using hij
  simp [List.nodup_append, stringlistFree, mem_freeIf, freeIf_nodup, hstrings]
  grind

end Inode

section Table

variable {vfs : Vfs} {rs : List InodeRef} {blocks : List VfsBlock}

theorem vfsFreeInodes_cons {r : InodeRef} (h : vfsFreeInodes vfs (r :: rs) = some blocks) :
    ∃ first rest, vfsFreeInode r (vfs.deref r) = some first ∧ vfsFreeInodes vfs rs = some rest ∧
      blocks = first ++ rest := by
  obtain ⟨first, hfirst, h'⟩ := Option.bind_eq_some_iff.mp h
  obtain ⟨rest, hrest, heq⟩ := Option.bind_eq_some_iff.mp h'
  exact ⟨first, rest, hfirst, hrest, (Option.some.inj heq).symm⟩

theorem vfsFreeInodes_eq_none :
    vfsFreeInodes vfs rs = none ↔ ∃ r ∈ rs, (vfs.deref r).virtualSubdirs = none := by
  induction rs with
  | nil => simp [vfsFreeInodes]
  | cons r rs ih =>
    rw [List.exists_mem_cons_iff, ← ih, ← vfsFreeInode_eq_none, vfsFreeInodes]
    cases hfirst : vfsFreeInode r (vfs.deref r) with
    | none => simp
    | some first => cases vfsFreeInodes vfs rs <;> simp

theorem mem_vfsFreeInodes (h : vfsFreeInodes vfs rs = some blocks) (b : VfsBlock) :
    b ∈ blocks ↔ ∃ r ∈ rs, b.owner = some r ∧ (vfs.deref r).Has b := by
  induction rs generalizing blocks with
  | nil =>
    obtain rfl := Option.some.inj h
    simp
  | cons r rs ih =>
    obtain ⟨first, rest, hfirst, hrest, rfl⟩ := vfsFreeInodes_cons h
    rw [List.mem_append, mem_vfsFreeInode hfirst, ih hrest, List.exists_mem_cons_iff]

theorem vfsFreeInodes_nodup (h : vfsFreeInodes vfs rs = some blocks) (hrs : rs.Nodup) :
    blocks.Nodup := by
  induction rs generalizing blocks with
  | nil =>
    obtain rfl := Option.some.inj h
    exact List.nodup_nil
  | cons r rs ih =>
    obtain ⟨first, rest, hfirst, hrest, rfl⟩ := vfsFreeInodes_cons h
    obtain ⟨hr, hrs⟩ := List.nodup_cons.mp hrs
    refine List.nodup_append.mpr ⟨vfsFreeInode_nodup hfirst, ih hrest hrs, ?_⟩
    -- the blocks of the first inode are not those of another
    rintro b hb _ hb' rfl
    obtain ⟨howner, -⟩ := (mem_vfsFreeInode hfirst b).mp hb
    obtain ⟨r', hr', howner', -⟩ := (mem_vfsFreeInodes hrest b).mp hb'
    obtain rfl : r = r' := Option.some.inj (howner.symm.trans howner')
    exact hr hr'

end Table

/-! ## The table holds every inode -/

/-- Every inode there is, once. -/
def Vfs.StoresAll (vfs : Vfs) : Prop := vfs.inode.data.Perm (List.range vfs.heap.next)

theorem Vfs.SameNodes.storesAll {vfs vfs' : Vfs} (h : vfs.SameNodes vfs') (hall : vfs.StoresAll) :
    vfs'.StoresAll := by
  unfold Vfs.StoresAll
  rw [h.table, h.next]
  exact hall

theorem Vfs.StoresAll.link {vfs : Vfs} (h : vfs.StoresAll) (inode : VfsInode) :
    (vfs.link inode).1.StoresAll := by
  show (vfs.inode.data ++ [vfs.heap.next]).Perm (List.range (vfs.heap.next + 1))
  rw [List.range_succ]
  exact h.append_right _

theorem vfsAddSingleInode_storesAll {vfs : Vfs} (h : vfs.StoresAll) (virtualPath : CStr)
    (targetPath : Option CStr) (flagsSet flagsReset : Flags) (parent : Option InodeRef) :
    Exec.Yields (vfsAddSingleInode vfs virtualPath targetPath flagsSet flagsReset parent)
      fun r => r.1.StoresAll := by
  have herror : ∀ {vfs : Vfs}, vfs.StoresAll → ∀ msg,
      (vfsSetError vfs .addInodeOutOfMemory msg).StoresAll := fun h _ => h
  unfold vfsAddSingleInode
  refine Exec.Yields.bind (.trivial _) fun path _ => ?_
  split
  · exact .pure (herror h _)
  -- whether the target is copied does not matter
  split <;>
    refine Exec.Yields.bind (.trivial _) fun target _ => ?_
  all_goals
    dsimp only
    split
    · exact .pure (herror h _)
    refine Exec.Yields.bind (.trivial _) fun made _ => ?_
    split
    · exact .pure (herror h _)
    have hinsert : Exec.Yields (vfsInsertSubdir vfs (truncateTrailingSlash virtualPath) parent)
        vfs.SameNodes := fun os w vfs' w' hrun => (vfsInsertSubdir_run _ _ _ os w vfs' w' hrun).1
    refine Exec.Yields.bind hinsert fun vfs' hsame => ?_
    refine Exec.Yields.bind (.trivial _) fun subdirs _ => ?_
    refine Exec.Yields.bind (.trivial _) fun place _ => ?_
    split
    · exact .pure (herror (hsame.storesAll h) _)
    · exact .pure ((hsame.storesAll h).link _)

theorem vfsAddInodeSplitter_storesAll (call : CStr × Bool) {ctx : VfsInodeAddingCtx}
    (h : ctx.vfs.StoresAll) :
    Exec.Yields (vfsAddInodeSplitter call.1 call.2 ctx) fun r => r.2.vfs.StoresAll := by
  unfold vfsAddInodeSplitter
  split
  · split <;>
      exact Exec.Yields.bind (vfsAddSingleInode_storesAll h _ _ _ _ _) fun r hr => .pure hr
  · exact .pure h

theorem runCalls_storesAll (calls : List (CStr × Bool)) {ctx : VfsInodeAddingCtx}
    (h : ctx.vfs.StoresAll) :
    Exec.Yields (runCalls vfsAddInodeSplitter calls ctx) fun ctx' => ctx'.vfs.StoresAll := by
  induction calls generalizing ctx with
  | nil => exact .pure h
  | cons call calls ih =>
    refine Exec.Yields.bind (vfsAddInodeSplitter_storesAll call h) ?_
    rintro ⟨goesOn, ctx'⟩ h'
    cases goesOn with
    | true => exact ih h'
    | false => exact .pure h'

theorem Declaration.add_storesAll (d : Declaration) {vfs : Vfs} (h : vfs.StoresAll) :
    Exec.Yields (d.add vfs) fun r => r.2.StoresAll := by
  intro os w r w' hrun
  by_cases hacc : d.Accepted vfs
  · rw [add_walked hacc] at hrun
    obtain ⟨⟨ctx, w1⟩, hwalk, heq⟩ := Option.map_eq_some_iff.mp hrun
    obtain ⟨rfl, -⟩ := Prod.mk.inj heq
    exact runCalls_storesAll _ h os w ctx w1 hwalk
  · obtain ⟨-, hinode, hheap⟩ := add_rejected_unchanged hacc os w r w' hrun
    unfold Vfs.StoresAll
    rw [hinode, hheap]
    exact h

theorem Vfs.Resorted.storesAll {vfs vfs' : Vfs} (h : vfs.Resorted vfs') (hall : vfs.StoresAll) :
    vfs'.StoresAll := by
  unfold Vfs.StoresAll
  rw [h.inode, h.next]
  exact hall

theorem Vfs.StoresAll.freeze {vfs : Vfs} (h : vfs.StoresAll) (libc : LibC) :
    (vfsFreezeInodes libc vfs).StoresAll := by
  unfold Vfs.StoresAll
  rw [vfsFreezeInodes_heap]
  exact (vfsFreezeInodes_data_perm libc vfs).trans h

theorem Vfs.Moved.storesAll {vfs vfs' : Vfs} {cs : List Paths.Name} (h : vfs.Moved vfs' cs)
    (hall : vfs.StoresAll) : vfs'.StoresAll := by
  rw [h.rest]
  exact hall

/-- The step. -/
theorem HandleStep.storesAll {s s' : HandleState} {call : HandleCall} (hstep : HandleStep s call s')
    (h : s.vfs.StoresAll) : s'.vfs.StoresAll := by
  cases hstep with
  | addInode d os w w' ok hrun => exact d.add_storesAll h os w _ w' hrun
  | freeze libc vfs opened => exact h.freeze libc
  | opendir path os w w' code handle hrun =>
    exact ((vfsOpendir_yields _ path).result hrun).resorted.storesAll h
  | «open» path mode os w w' code handle hrun =>
    exact ((vfsOpen_yields _ path mode).result hrun).resorted.storesAll h
  | stat path before after os w w' code hrun =>
    exact (vfsStat_yields _ path before os w _ w' hrun).storesAll h
  | chdir path os w w' code hrun =>
    have hchdir := (vfsChdir_yields _ path).result hrun
    by_cases hok : code = .ok
    · obtain ⟨p, -, -, hmoved⟩ := hchdir.moved hok
      exact hmoved.storesAll h
    · exact (hchdir.kept hok).storesAll h
  | closeHandle handle os w w' hrun => exact h

theorem Served.storesAll {vfs : Vfs} (h : Served vfs) : vfs.StoresAll := by
  induction h with
  | init baseFlags => exact .refl _
  | call _ hstep ih => exact hstep.storesAll ih
  | readdir libc _ hread ih => exact (vfsReaddir_resorted libc hread).storesAll ih

theorem Reachable.storesAll {vfs : Vfs} (h : Reachable vfs) : vfs.StoresAll := by
  induction h with
  | init baseFlags => exact .refl _
  | @step vfs vfs' _ hstep ih =>
    rcases hstep.cases with ⟨d, os, ok, w, hadd⟩ | ⟨libc, rfl⟩ | ⟨cs, hmoved⟩ | hsame
    · exact d.add_storesAll ih os {} _ w hadd
    · exact ih.freeze libc
    · exact hmoved.storesAll ih
    · exact hsame.storesAll ih

/-! ## Freeing -/

section Free

variable {vfs : Vfs} (hall : vfs.StoresAll)
include hall

theorem Vfs.StoresAll.mem_iff (r : InodeRef) : r ∈ vfs.inode.data ↔ r < vfs.heap.next := by
  rw [List.Perm.mem_iff hall, List.mem_range]

theorem Vfs.StoresAll.vfsFree_eq_none :
    vfsFree (some vfs) = none ↔ ∃ r < vfs.heap.next, (vfs.deref r).virtualSubdirs = none := by
  have hnone : vfsFree (some vfs) = none ↔ vfsFreeInodes vfs vfs.inode.data = none := by
    show (vfsFreeInodes vfs vfs.inode.data).bind _ = none ↔ _
    cases vfsFreeInodes vfs vfs.inode.data <;> simp
  rw [hnone, vfsFreeInodes_eq_none]
  simp only [hall.mem_iff]

theorem Vfs.StoresAll.vfsFree_frees {blocks : List VfsBlock}
    (h : vfsFree (some vfs) = some blocks) :
    blocks.Nodup ∧ ∀ b, b ∈ blocks ↔ vfs.Has b := by
  obtain ⟨inodes, hinodes, heq⟩ := Option.bind_eq_some_iff.mp h
  obtain rfl := Option.some.inj heq
  have hblocks : ∀ b, b ∈ inodes ↔
      ∃ r < vfs.heap.next, b.owner = some r ∧ (vfs.deref r).Has b := by
    intro b
    rw [mem_vfsFreeInodes hinodes]
    simp only [hall.mem_iff]
  have hnodup := vfsFreeInodes_nodup hinodes ((List.Perm.nodup_iff hall).mpr List.nodup_range)
  constructor
  · -- the blocks of the file system belong to no inode
    have howner : ∀ b ∈ inodes, b.owner ≠ none := by
      intro b hb
      obtain ⟨r, -, hr, -⟩ := (hblocks b).mp hb
      simp [hr]
    have hcwd : VfsBlock.cwdPath ∉ inodes := fun hb => howner _ hb rfl
    have hdata : VfsBlock.inodeData ∉ inodes := fun hb => howner _ hb rfl
    have hvfs : VfsBlock.vfs ∉ inodes := fun hb => howner _ hb rfl
    simp [List.nodup_append, mem_freeIf, freeIf_nodup, hnodup]
    grind
  · intro b
    unfold Vfs.Has
    cases b <;> simp [mem_freeIf, hblocks, VfsBlock.owner, VfsInode.Has, List.length_eq_zero_iff]

end Free

/-- **Freeing.** After any calls, whichever allocations fail, `vfs_free` runs into a `NULL` exactly
where the list of some inode could not be allocated, and otherwise it frees every block of every
inode there ever was, and of the file system itself, once, and nothing else. -/
theorem vfsFree_exact {vfs : Vfs} (hserved : Served vfs) :
    (vfsFree (some vfs) = none ↔
      ∃ r < vfs.heap.next, (vfs.deref r).virtualSubdirs = none) ∧
    ∀ blocks, vfsFree (some vfs) = some blocks →
      blocks.Nodup ∧ ∀ b, b ∈ blocks ↔ vfs.Has b :=
  ⟨hserved.storesAll.vfsFree_eq_none, fun _ h => hserved.storesAll.vfsFree_frees h⟩

/-- There is no memory for the list of the root, which is freed all the same. With enough memory an
inode below the root is freed, and its target with it. -/
theorem vfsFree_exact_inodes : (∃ vfs, Served vfs ∧ vfsFree (some vfs) = none) ∧
    ∃ vfs blocks, Served vfs ∧ vfsFree (some vfs) = some blocks ∧ blocks.Nodup ∧
      .targetPath 1 ∈ blocks := by
  have hserved : ∀ {d : Declaration} {w ok vfs w'},
      d.add (initialVfs 0) Os.empty w = some ((ok, vfs), w') → Served vfs := by
    intro d w ok vfs w' hadd
    have hstep : HandleStep ⟨initialVfs 0, []⟩ .other ⟨vfs, []⟩ := .addInode d Os.empty w w' ok hadd
    exact Served.call (.init 0) hstep
  constructor
  · have hrun : (vfsAddInode (initialVfs 0) "/".toList none 0 0 Os.empty
        ⟨[true, true, false], []⟩).map (fun r => (r.1.2.heap.next,
          (r.1.2.deref 0).virtualSubdirs.isNone)) = some (1, true) := by
      decide
    obtain ⟨⟨⟨ok, vfs⟩, w⟩, hadd, heq⟩ := Option.map_eq_some_iff.mp hrun
    obtain ⟨hnext, hlist⟩ := Prod.mk.inj heq
    have hserved := hserved (d := ⟨"/".toList, none, 0, 0⟩) hadd
    refine ⟨vfs, hserved, (vfsFree_exact hserved).1.mpr ⟨0, ?_, Option.isNone_iff_eq_none.mp hlist⟩⟩
    rw [show vfs.heap.next = 1 from hnext]
    exact Nat.one_pos
  · have hrun : (vfsAddInode (initialVfs 0) "/a".toList (some "/srv".toList) 0 0 Os.empty {}).map
        (fun r => (r.1.2.heap.next, (vfsFree (some r.1.2)).isSome,
          (r.1.2.deref 1).targetPath)) = some (2, true, some "/srv".toList) := by
      decide
    obtain ⟨⟨⟨ok, vfs⟩, w⟩, hadd, heq⟩ := Option.map_eq_some_iff.mp hrun
    simp only [Prod.mk.injEq] at heq
    obtain ⟨hnext, hfree, htarget⟩ := heq
    have hserved := hserved (d := ⟨"/a".toList, some "/srv".toList, 0, 0⟩) hadd
    obtain ⟨blocks, hblocks⟩ := Option.isSome_iff_exists.mp hfree
    obtain ⟨hnodup, hmem⟩ := (vfsFree_exact hserved).2 blocks hblocks
    refine ⟨vfs, blocks, hserved, hblocks, hnodup, (hmem _).mpr ⟨?_, ?_⟩⟩
    · rw [hnext]
      decide
    · rw [VfsInode.Has, htarget]
      simp

/-- Where every inode has its list nothing runs into a `NULL`. -/
theorem vfsFree_returns {vfs : Vfs} (hall : vfs.StoresAll) (hvalid : vfs.Valid) :
    ∃ blocks, vfsFree (some vfs) = some blocks := by
  refine Option.ne_none_iff_exists'.mp fun hnone => ?_
  obtain ⟨r, hr, hnull⟩ := hall.vfsFree_eq_none.mp hnone
  obtain ⟨list, hlist, -⟩ := hvalid.table.subdirs r ((hall.mem_iff r).mpr hr)
  exact absurd (hlist.symm.trans hnull) (by simp)

end Umsftpd
