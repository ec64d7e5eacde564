import Umsftpd.Vfs.Tree

/-!
# Looking up

`vfs_lookup` on a canonical path gathers what the inodes on the way declare. `lookupIn` says this of
a tree of declarations, without the table, and `view_lookupAt` that the code computes it; sorting
the table does not change what is found.
-/

namespace Umsftpd

open CLib Paths

/-! ## The result for a canonical path -/

/-- What one inode does to the flags. -/
def applyFlags (flags : Flags) (d : Declaration) : Flags :=
  (flags ||| d.flagsSet) &&& ~~~d.flagsReset

namespace Vfs

/-- The effective flags at a path. -/
def flagsAt (vfs : Vfs) (cs : List Name) : Flags :=
  PathTree.inherit (fun flags r => applyFlags flags (vfs.deref r).declaration)
    vfs.inode.baseFlags vfs.nodeAt cs

/-- The last inode with a target on the way to a path. -/
def mountAt (vfs : Vfs) (cs : List Name) : Option InodeRef :=
  PathTree.inherit
    (fun mountpoint r => if (vfs.deref r).targetPath.isSome then some r else mountpoint)
    none vfs.nodeAt cs

/-- What `vfs_lookup` finds for a canonical path. -/
def lookupAt (vfs : Vfs) (cs : List Name) : VfsLookupResult :=
  { flags := vfs.flagsAt cs, inode := vfs.nodeAt cs, mountpoint := vfs.mountAt cs }

end Vfs

/-- The step of `vfs_lookup_splitter` on the result. -/
def lookupVisit (vfs : Vfs) (result : VfsLookupResult) (call : CStr × Bool) : VfsLookupResult :=
  match vfsFindInode vfs call.1 with
  | none => result
  | some r =>
    { flags := applyFlags result.flags (vfs.deref r).declaration
      inode := if call.2 then some r else result.inode
      mountpoint := if (vfs.deref r).targetPath.isSome then some r else result.mountpoint }

theorem vfsLookupSplitter_eq (vfs : Vfs) (result : VfsLookupResult) (call : CStr × Bool) :
    vfsLookupSplitter call.1 call.2 ⟨vfs, result⟩ = (true, ⟨vfs, lookupVisit vfs result call⟩) := by
  unfold vfsLookupSplitter lookupVisit
  cases vfsFindInode vfs call.1 with
  | none => rfl
  | some r => cases call.2 <;> cases h : (vfs.deref r).targetPath.isSome <;> simp [h] <;> rfl

theorem runCalls_vfsLookupSplitter (vfs : Vfs) (calls : List (CStr × Bool))
    (result : VfsLookupResult) :
    Id.run (runCalls vfsLookupSplitter calls ⟨vfs, result⟩) =
      ⟨vfs, calls.foldl (lookupVisit vfs) result⟩ := by
  induction calls generalizing result with
  | nil => rfl
  | cons call calls ih =>
    have hstep : Id.run (runCalls vfsLookupSplitter (call :: calls) ⟨vfs, result⟩) =
        Id.run (runCalls vfsLookupSplitter calls ⟨vfs, lookupVisit vfs result call⟩) := by
      show Id.run (do
        let (doContinue, ctx) ← vfsLookupSplitter call.1 call.2 ⟨vfs, result⟩
        if doContinue then runCalls vfsLookupSplitter calls ctx else pure ctx) = _
      rw [vfsLookupSplitter_eq]
      rfl
    rw [hstep, ih, List.foldl_cons]

section Fold

variable (vfs : Vfs) (calls : List (List Name × Bool)) (result : VfsLookupResult)

/-- The visit of a canonical path. -/
def visitNode (result : VfsLookupResult) (call : List Name × Bool) : VfsLookupResult :=
  lookupVisit vfs result (absPath call.1, call.2)

theorem foldl_visitNode_flags :
    (calls.foldl (visitNode vfs) result).flags =
      ((calls.map Prod.fst).filterMap vfs.nodeAt).foldl
        (fun flags r => applyFlags flags (vfs.deref r).declaration) result.flags := by
  induction calls generalizing result with
  | nil => rfl
  | cons call calls ih =>
    rw [List.foldl_cons, ih, List.map_cons, List.filterMap_cons]
    grind [visitNode, lookupVisit, Vfs.nodeAt]

theorem foldl_visitNode_mountpoint :
    (calls.foldl (visitNode vfs) result).mountpoint =
      ((calls.map Prod.fst).filterMap vfs.nodeAt).foldl
        (fun mountpoint r => if (vfs.deref r).targetPath.isSome then some r else mountpoint)
        result.mountpoint := by
  induction calls generalizing result with
  | nil => rfl
  | cons call calls ih =>
    rw [List.foldl_cons, ih, List.map_cons, List.filterMap_cons]
    grind [visitNode, lookupVisit, Vfs.nodeAt]

/-- The inode of the result is that of the one full path among the calls. -/
theorem foldl_visitNode_inode {cs : List Name}
    (hfull : ∀ call ∈ calls, call.2 = decide (call.1 = cs))
    (hinode : result.inode = none ∨ result.inode = vfs.nodeAt cs)
    (hmem : result.inode = vfs.nodeAt cs ∨ cs ∈ calls.map Prod.fst) :
    (calls.foldl (visitNode vfs) result).inode = vfs.nodeAt cs := by
  induction calls generalizing result with
  | nil => simpa using hmem
  | cons call calls ih =>
    obtain ⟨hhead, htail⟩ := List.forall_mem_cons.mp hfull
    have hvisit : (visitNode vfs result call).inode =
        if call.1 = cs then (vfs.nodeAt cs).or result.inode else result.inode := by
      grind [visitNode, lookupVisit, Vfs.nodeAt]
    rw [List.foldl_cons]
    by_cases hcs : call.1 = cs
    · have hset : (visitNode vfs result call).inode = vfs.nodeAt cs := by
        rw [hvisit, if_pos hcs]
        rcases hinode with hi | hi <;> rw [hi] <;> simp
      exact ih _ htail (Or.inr hset) (Or.inl hset)
    · rw [if_neg hcs] at hvisit
      apply ih _ htail (hvisit ▸ hinode)
      rw [hvisit]
      simpa [Ne.symm hcs] using hmem

end Fold

/-- A lookup on a frozen file system gives the result for the names of the path. -/
theorem vfsLookup_canonical {vfs : Vfs} (hfrozen : vfs.inode.frozen = true) {path : CStr}
    {cs : List Name} (h : Canonical path cs) :
    vfsLookup vfs path = (vfs, some (vfs.lookupAt cs)) := by
  let nodes : List (List Name × Bool) :=
    cs.inits.map fun ds => (ds, decide (ds.length = cs.length))
  have hcalls : splitCalls path = nodes.map fun call => (absPath call.1, call.2) := by
    rw [splitCalls_canonical h, List.map_map]
    rfl
  have hpaths : nodes.map Prod.fst = cs.inits := by
    rw [List.map_map]
    exact List.map_id _
  have hfull : ∀ call ∈ nodes, call.2 = decide (call.1 = cs) := by
    intro call hcall
    obtain ⟨ds, hds, rfl⟩ := List.mem_map.mp hcall
    have hpre := (List.mem_inits _ _).mp hds
    have hiff : ds.length = cs.length ↔ ds = cs := ⟨hpre.eq_of_length, fun he => by rw [he]⟩
    simp only [hiff]
  have hrun : nodes.foldl (visitNode vfs) ⟨vfs.inode.baseFlags, none, none⟩ = vfs.lookupAt cs := by
    have hflags := foldl_visitNode_flags vfs nodes ⟨vfs.inode.baseFlags, none, none⟩
    have hmount := foldl_visitNode_mountpoint vfs nodes ⟨vfs.inode.baseFlags, none, none⟩
    have hinode := foldl_visitNode_inode vfs nodes ⟨vfs.inode.baseFlags, none, none⟩ hfull
      (Or.inl rfl) (Or.inr (by rw [hpaths]; exact (List.mem_inits _ _).mpr List.prefix_rfl))
    rw [hpaths] at hflags hmount
    cases hres : nodes.foldl (visitNode vfs) ⟨vfs.inode.baseFlags, none, none⟩ with
    | mk flags inode mountpoint =>
      rw [hres] at hflags hmount hinode
      exact VfsLookupResult.mk.injEq .. ▸ ⟨hflags, hinode, hmount⟩
  unfold vfsLookup
  rw [hfrozen, h.isAbsolutePath]
  simp only [Bool.not_true, Bool.false_eq_true, if_false, if_true]
  rw [pathSplit_eq, runCalls_vfsLookupSplitter, hcalls, List.foldl_map]
  exact congrArg (fun r => (vfs, some r)) hrun

/-- What is found has a target, and a name above the path or equal to it. -/
theorem Vfs.mountAt_some {vfs : Vfs} {cs : List Name} {r : InodeRef} (h : vfs.mountAt cs = some r) :
    ∃ ds, ds <+: cs ∧ vfs.nodeAt ds = some r ∧ (vfs.deref r).targetPath.isSome = true := by
  unfold mountAt at h
  rw [PathTree.inherit_last (fun r => (vfs.deref r).targetPath.isSome)] at h
  have hmem := List.mem_of_getLast? h
  obtain ⟨hmem', htarget⟩ := List.mem_filter.mp hmem
  obtain ⟨ds, hds, hat⟩ := List.mem_filterMap.mp hmem'
  exact ⟨ds, (List.mem_inits _ _).mp hds, hat, htarget⟩

/-- Below a root with a target everything is mapped. -/
theorem Vfs.mountAt_of_root {vfs : Vfs} (hroot : vfs.mountAt [] ≠ none) (cs : List Name) :
    vfs.mountAt cs ≠ none := by
  induction cs using List.reverseRecOn with
  | nil => exact hroot
  | append_singleton cs c ih =>
    unfold mountAt at ih ⊢
    rw [PathTree.inherit_concat]
    cases vfs.nodeAt (cs ++ [c]) with
    | none => exact ih
    | some r =>
      show (if _ then _ else _) ≠ none
      split
      · simp
      · exact ih

/-! ## Lookups without the table -/

/-- What a lookup says, with the inodes by what they declare. -/
@[ext] structure LookupView where
  flags : Flags
  inode : Option CStr
  mountpoint : Option Declaration
  deriving DecidableEq

def VfsLookupResult.view (vfs : Vfs) (result : VfsLookupResult) : LookupView :=
  { flags := result.flags
    inode := result.inode.map fun r => (vfs.deref r).virtualPath
    mountpoint := result.mountpoint.map fun r => (vfs.deref r).declaration }

/-- A lookup in a tree of declarations. -/
def lookupIn (baseFlags : Flags) (t : PathTree Name Declaration) (cs : List Name) : LookupView :=
  { flags := t.inherit applyFlags baseFlags cs
    inode := (t cs).map Declaration.virtualPath
    mountpoint := t.inherit (fun last d => if d.targetPath.isSome then some d else last) none cs }

/-- The code looks up in the tree that its inodes declare. -/
theorem view_lookupAt (vfs : Vfs) (cs : List Name) :
    (vfs.lookupAt cs).view vfs = lookupIn vfs.inode.baseFlags vfs.declared cs := by
  ext1
  · exact (PathTree.inherit_comp applyFlags (fun r => (vfs.deref r).declaration) _ _ cs).symm
  · show (vfs.nodeAt cs).map _ = ((vfs.nodeAt cs).map _).map _
    rw [Option.map_map]
    rfl
  · show (vfs.mountAt cs).map (fun r => (vfs.deref r).declaration) =
      PathTree.inherit _ none (fun p => (vfs.nodeAt p).map fun r => (vfs.deref r).declaration) cs
    rw [PathTree.inherit_comp]
    have hstep : ∀ (last : Option InodeRef) (r : InodeRef),
        (if (vfs.deref r).targetPath.isSome then some r else last).map
            (fun r => (vfs.deref r).declaration) =
          if (vfs.deref r).declaration.targetPath.isSome then some (vfs.deref r).declaration
          else last.map fun r => (vfs.deref r).declaration := by
      intro last r
      show _ = if (vfs.deref r).targetPath.isSome then _ else _
      cases h : (vfs.deref r).targetPath.isSome <;> simp
    exact PathTree.inherit_map _ _ (Option.map fun r => (vfs.deref r).declaration) hstep none _ cs

/-! ## Freezing -/

section Freeze

variable (libc : LibC) (vfs : Vfs)

theorem vfsFreezeInodes_data_perm :
    (vfsFreezeInodes libc vfs).inode.data.Perm vfs.inode.data := by
  unfold vfsFreezeInodes
  cases vfs.inode.frozen <;>
    simp only [Bool.false_eq_true, if_false, if_true, vfsSetError_inode] <;>
    split
  · exact libc.qsort_perm _ _
  · exact List.Perm.refl _
  · exact libc.qsort_perm _ _
  · exact List.Perm.refl _

@[simp] theorem vfsFreezeInodes_frozen : (vfsFreezeInodes libc vfs).inode.frozen = true := rfl

@[simp] theorem vfsFreezeInodes_baseFlags :
    (vfsFreezeInodes libc vfs).inode.baseFlags = vfs.inode.baseFlags := by
  unfold vfsFreezeInodes
  cases h : vfs.inode.frozen <;> simp

@[simp] theorem vfsFreezeInodes_heap : (vfsFreezeInodes libc vfs).heap = vfs.heap := by
  unfold vfsFreezeInodes
  cases h : vfs.inode.frozen <;> simp

@[simp] theorem vfsFreezeInodes_cwd : (vfsFreezeInodes libc vfs).cwd = vfs.cwd := by
  unfold vfsFreezeInodes
  cases h : vfs.inode.frozen <;> simp

@[simp] theorem vfsFreezeInodes_handles :
    (vfsFreezeInodes libc vfs).handles = vfs.handles := by
  unfold vfsFreezeInodes
  cases h : vfs.inode.frozen <;> simp

@[simp] theorem vfsFreezeInodes_deref (r : InodeRef) :
    (vfsFreezeInodes libc vfs).deref r = vfs.deref r := by
  unfold Vfs.deref
  rw [vfsFreezeInodes_heap]

theorem mem_vfsFreezeInodes_data {r : InodeRef} :
    r ∈ (vfsFreezeInodes libc vfs).inode.data ↔ r ∈ vfs.inode.data :=
  (vfsFreezeInodes_data_perm libc vfs).mem_iff

variable {vfs}

theorem Vfs.WellFormed.freeze (h : vfs.WellFormed) : (vfsFreezeInodes libc vfs).WellFormed := by
  have hnames : ∀ r, ((vfsFreezeInodes libc vfs).childNames r).Perm (vfs.childNames r) := by
    intro r
    unfold Vfs.childNames Vfs.children
    simp only [vfsFreezeInodes_deref]
    exact ((vfsFreezeInodes_data_perm libc vfs).filter _).map _
  constructor
  · intro r hr
    rw [vfsFreezeInodes_heap]
    exact h.data_lt r ((mem_vfsFreezeInodes_data libc vfs).mp hr)
  · exact (vfsFreezeInodes_data_perm libc vfs).nodup_iff.mpr h.data_nodup
  · intro r hr p hp
    rw [vfsFreezeInodes_deref] at hp
    rw [mem_vfsFreezeInodes_data] at hr ⊢
    exact h.parent_mem r hr p hp
  · intro r hr
    obtain ⟨list, hlist, hperm⟩ := h.subdirs r ((mem_vfsFreezeInodes_data libc vfs).mp hr)
    exact ⟨list, by rw [vfsFreezeInodes_deref, hlist], hperm.trans (hnames r).symm⟩

theorem Vfs.Tree.freeze (h : vfs.Tree) : (vfsFreezeInodes libc vfs).Tree where
  toWellFormed := h.toWellFormed.freeze libc
  names := by simpa [mem_vfsFreezeInodes_data] using h.names
  distinct := by simpa [mem_vfsFreezeInodes_data] using h.distinct
  parent_root := by simpa [mem_vfsFreezeInodes_data] using h.parent_root
  parent_child := by simpa [mem_vfsFreezeInodes_data] using h.parent_child

/-- In a tree the order of the table does not matter to what is found. -/
theorem Vfs.Tree.nodeAt_freeze (h : vfs.Tree) (cs : List Name) :
    (vfsFreezeInodes libc vfs).nodeAt cs = vfs.nodeAt cs := by
  cases hfind : vfs.nodeAt cs with
  | none =>
    rw [Vfs.nodeAt_eq_none] at hfind ⊢
    intro r hr
    rw [vfsFreezeInodes_deref]
    exact hfind r ((mem_vfsFreezeInodes_data libc vfs).mp hr)
  | some r =>
    obtain ⟨hr, hpath⟩ := Vfs.nodeAt_some hfind
    apply (h.freeze libc).nodeAt_of_mem ((mem_vfsFreezeInodes_data libc vfs).mpr hr)
    rw [vfsFreezeInodes_deref, hpath]

theorem Vfs.Tree.declared_freeze (h : vfs.Tree) :
    (vfsFreezeInodes libc vfs).declared = vfs.declared := by
  funext cs
  unfold Vfs.declared
  rw [h.nodeAt_freeze libc]
  simp only [vfsFreezeInodes_deref]

/-- Lookups after freezing see the tree that was declared. -/
theorem Vfs.Tree.lookup_freeze (h : vfs.Tree) {path : CStr} {cs : List Name}
    (hpath : Canonical path cs) :
    ∃ result, vfsLookup (vfsFreezeInodes libc vfs) path =
        (vfsFreezeInodes libc vfs, some result) ∧
      result.view (vfsFreezeInodes libc vfs) =
        lookupIn vfs.inode.baseFlags vfs.declared cs := by
  refine ⟨_, vfsLookup_canonical (vfsFreezeInodes_frozen libc vfs) hpath, ?_⟩
  rw [view_lookupAt, vfsFreezeInodes_baseFlags, h.declared_freeze libc]

end Freeze

end Umsftpd
