import Umsftpd.Paths.PrefixTree
import Umsftpd.Vfs.Runs

/-!
# The table as a tree

As long as the virtual paths are canonical the table is a tree of names: `Vfs.Tree` is the
invariant, `Vfs.declared` the tree of what the inodes declare. On it an accepted `vfs_add_inode`
plants a leaf in a `PathTree`, blanks being the inodes created on the way (`add_accepted`), and a
list of calls is a list of declarations (`addAll_tree`).
-/

namespace Umsftpd

open CLib Paths

/-! ## Nodes -/

/-- What an inode says, in the form of the call that made it. -/
def VfsInode.declaration (inode : VfsInode) : Declaration :=
  { virtualPath := inode.virtualPath, targetPath := inode.targetPath
    flagsSet := inode.flagsSet, flagsReset := inode.flagsReset }

theorem VfsInode.declaration_congr {a b : VfsInode} (h : a.info = b.info) :
    a.declaration = b.declaration :=
  congrArg (fun info : NodeInfo => ({
    virtualPath := info.virtualPath, targetPath := info.targetPath
    flagsSet := info.flagsSet, flagsReset := info.flagsReset } : Declaration)) h

/-- The form in which a declaration is kept. -/
def Declaration.stored (d : Declaration) : Declaration :=
  { d with
    virtualPath := truncateTrailingSlash d.virtualPath
    targetPath := d.targetPath.map truncateTrailingSlash }

/-- An inode created on the way declares nothing but its path. -/
def intermediate (cs : List Name) : Declaration :=
  { virtualPath := pathOf cs, targetPath := none, flagsSet := 0, flagsReset := 0 }

namespace Vfs

/-- The inode `vfs_find_inode` gives for a canonical path. -/
def nodeAt (vfs : Vfs) (cs : List Name) : Option InodeRef := vfsFindInode vfs (absPath cs)

/-- What the inodes declare, by the names of their paths. -/
def declared (vfs : Vfs) : PathTree Name Declaration := fun cs =>
  (vfs.nodeAt cs).map fun r => (vfs.deref r).declaration

theorem nodeAt_canonical (vfs : Vfs) {path : CStr} {cs : List Name} (h : Canonical path cs) :
    vfsFindInode vfs path = vfs.nodeAt cs := by
  unfold nodeAt
  rw [vfsFindInode_eq, vfsFindInode_eq, cutSlash_canonical h, cutSlash_absPath]

theorem nodeAt_some {vfs : Vfs} {cs : List Name} {r : InodeRef} (h : vfs.nodeAt cs = some r) :
    r ∈ vfs.inode.data ∧ (vfs.deref r).virtualPath = pathOf cs := by
  have h' := vfsFindInode_some h
  rwa [cutSlash_absPath] at h'

theorem nodeAt_eq_none {vfs : Vfs} {cs : List Name} :
    vfs.nodeAt cs = none ↔ ∀ r ∈ vfs.inode.data, (vfs.deref r).virtualPath ≠ pathOf cs := by
  unfold nodeAt
  rw [vfsFindInode_eq_none, cutSlash_absPath]

theorem declared_eq_none {vfs : Vfs} {cs : List Name} :
    vfs.declared cs = none ↔ vfs.nodeAt cs = none := Option.map_eq_none_iff

/-- The invariant of a table all of whose virtual paths are canonical. -/
structure Tree (vfs : Vfs) : Prop extends vfs.WellFormed where
  names : ∀ r ∈ vfs.inode.data, ∃ cs, (vfs.deref r).virtualPath = pathOf cs
  distinct : ∀ r ∈ vfs.inode.data, ∀ s ∈ vfs.inode.data,
    (vfs.deref r).virtualPath = (vfs.deref s).virtualPath → r = s
  parent_root : ∀ r ∈ vfs.inode.data, (vfs.deref r).virtualPath = [] →
    (vfs.deref r).parent = none
  parent_child : ∀ r ∈ vfs.inode.data, ∀ cs n, (vfs.deref r).virtualPath = pathOf (cs ++ [n]) →
    ∃ p, (vfs.deref r).parent = some p ∧ (vfs.deref p).virtualPath = pathOf cs

/-- In a tree every inode is the one that is found for its path. -/
theorem Tree.nodeAt_of_mem {vfs : Vfs} (h : vfs.Tree) {r : InodeRef} (hr : r ∈ vfs.inode.data)
    {cs : List Name} (hpath : (vfs.deref r).virtualPath = pathOf cs) :
    vfs.nodeAt cs = some r := by
  cases hfind : vfs.nodeAt cs with
  | none => exact absurd hpath (nodeAt_eq_none.mp hfind r hr)
  | some s =>
    obtain ⟨hs, hs'⟩ := nodeAt_some hfind
    rw [h.distinct s hs r hr (hs'.trans hpath.symm)]

/-! ## Creating a node -/

/-- `previous` is the inode of the parent of `cs`; the root has none. -/
def IsParent (vfs : Vfs) (cs : List Name) (previous : Option InodeRef) : Prop :=
  (cs = [] ∧ previous = none) ∨
    ∃ pre n p, cs = pre ++ [n] ∧ previous = some p ∧ vfs.nodeAt pre = some p

end Vfs

theorem Created.tree {vfs vfs' : Vfs} {r : InodeRef} {inode : VfsInode}
    (h : Created vfs vfs' r inode) (htree : vfs.Tree) {cs : List Name}
    (hpath : inode.virtualPath = pathOf cs) (hfree : vfs.nodeAt cs = none)
    (hparent : vfs.IsParent cs inode.parent)
    (hsubdirs : inode.virtualSubdirs = some StringList.empty) : vfs'.Tree := by
  have hold : ∀ s ∈ vfs.inode.data, (vfs'.deref s).virtualPath = (vfs.deref s).virtualPath :=
    fun s hs => h.virtualPath_old (htree.data_lt s hs)
  have hnew : (vfs'.deref r).virtualPath = pathOf cs := by rw [h.deref_new, hpath]
  have hother : ∀ s ∈ vfs.inode.data, (vfs'.deref s).virtualPath ≠ pathOf cs := by
    intro s hs
    rw [hold s hs]
    exact Vfs.nodeAt_eq_none.mp hfree s hs
  have hmem : ∀ s, s ∈ vfs'.inode.data ↔ s ∈ vfs.inode.data ∨ s = r := by
    intro s
    rw [h.data_eq, List.mem_append, List.mem_singleton]
  have hpmem : ∀ p, inode.parent = some p → p ∈ vfs.inode.data := by
    intro p hp
    rcases hparent with ⟨-, hnone⟩ | ⟨pre, n, p', -, hsome, hat⟩
    · rw [hnone] at hp
      exact absurd hp (by simp)
    · obtain rfl : p' = p := Option.some.inj (hsome.symm.trans hp)
      exact (Vfs.nodeAt_some hat).1
  refine ⟨h.wellFormed htree.toWellFormed hpmem hsubdirs, ?_, ?_, ?_, ?_⟩
  · intro s hs
    rcases (hmem s).mp hs with hs | rfl
    · rw [hold s hs]
      exact htree.names s hs
    · exact ⟨cs, hnew⟩
  · intro s hs t ht heq
    rcases (hmem s).mp hs with hs | rfl <;> rcases (hmem t).mp ht with ht | rfl
    · rw [hold s hs, hold t ht] at heq
      exact htree.distinct s hs t ht heq
    · exact absurd (heq.trans hnew) (hother s hs)
    · exact absurd (heq.symm.trans hnew) (hother t ht)
    · rfl
  · intro s hs hroot
    rcases (hmem s).mp hs with hs | rfl
    · rw [h.parent_old htree.toWellFormed hs]
      exact htree.parent_root s hs (hold s hs ▸ hroot)
    · rw [hnew] at hroot
      rcases hparent with ⟨-, hnone⟩ | ⟨pre, n, p, hcs, -, -⟩
      · rw [h.deref_new, hnone]
      · rw [hcs, pathOf_eq_nil_iff] at hroot
        simp at hroot
  · intro s hs ds m hds
    rcases (hmem s).mp hs with hs | rfl
    · obtain ⟨p, hp, hpp⟩ := htree.parent_child s hs ds m (hold s hs ▸ hds)
      refine ⟨p, (h.parent_old htree.toWellFormed hs).trans hp, ?_⟩
      rw [hold p (htree.parent_mem s hs p hp), hpp]
    · obtain rfl : cs = ds ++ [m] := pathOf_injective (hnew.symm.trans hds)
      rcases hparent with ⟨hnil, -⟩ | ⟨pre, n, p, hcs, hsome, hat⟩
      · simp at hnil
      · obtain ⟨rfl, -⟩ := List.append_inj' hcs rfl
        obtain ⟨hp, hpp⟩ := Vfs.nodeAt_some hat
        exact ⟨p, by rw [h.deref_new, hsome], by rw [hold p hp, hpp]⟩

theorem Created.nodeAt {vfs vfs' : Vfs} {r : InodeRef} {inode : VfsInode}
    (h : Created vfs vfs' r inode) (hwf : vfs.WellFormed) {cs : List Name}
    (hpath : inode.virtualPath = pathOf cs) (ds : List Name) :
    vfs'.nodeAt ds = (vfs.nodeAt ds).or (if ds = cs then some r else none) := by
  unfold Vfs.nodeAt
  rw [h.find hwf, hpath, cutSlash_absPath]
  simp [pathOf_injective.eq_iff, eq_comm]

/-- The tree of declarations after one creation. -/
theorem Created.declared {vfs vfs' : Vfs} {r : InodeRef} {inode : VfsInode}
    (h : Created vfs vfs' r inode) (hwf : vfs.WellFormed) {cs : List Name}
    (hpath : inode.virtualPath = pathOf cs) :
    vfs'.declared = vfs.declared.put cs inode.declaration := by
  funext ds
  simp only [Vfs.declared, PathTree.put]
  rw [h.nodeAt hwf hpath]
  cases hfind : vfs.nodeAt ds with
  | some s =>
    have heq := VfsInode.declaration_congr
      (h.info_old (hwf.data_lt s (Vfs.nodeAt_some hfind).1))
    simp [heq]
  | none => by_cases hds : ds = cs <;> simp [hds, h.deref_new]

/-! ## The walk along a canonical path -/

/-- The calls of `path_split` from the node `pre` down to `pre ++ cs`. -/
def ancestorCalls (pre cs : List Name) : List (CStr × Bool) :=
  cs.inits.map fun ds => (absPath (pre ++ ds), decide (ds.length = cs.length))

theorem splitCalls_eq_ancestorCalls {path : CStr} {cs : List Name} (h : Canonical path cs) :
    splitCalls path = ancestorCalls [] cs := splitCalls_canonical h

theorem ancestorCalls_nil (pre : List Name) : ancestorCalls pre [] = [(absPath pre, true)] := by
  simp [ancestorCalls]

theorem ancestorCalls_cons (pre : List Name) (n : Name) (cs : List Name) :
    ancestorCalls pre (n :: cs) = (absPath pre, false) :: ancestorCalls (pre ++ [n]) cs := by
  simp [ancestorCalls]

/-- The declaration of the leaf of a walk to `cs`, as it is kept. -/
def VfsInodeAddingCtx.leaf (ctx : VfsInodeAddingCtx) (cs : List Name) : Declaration :=
  { virtualPath := pathOf cs, targetPath := ctx.leafTargetPath.map truncateTrailingSlash
    flagsSet := ctx.leafFlagsSet, flagsReset := ctx.leafFlagsReset }

/-- The step: a visit of a canonical path has a result, keeps the tree, puts the declaration of the
node unless there is one and leaves the node behind as the parent of what comes next. -/
theorem VfsInodeAddingCtx.visit_canonical {ctx : VfsInodeAddingCtx} (htree : ctx.vfs.Tree)
    {cs : List Name} (hparent : ctx.vfs.IsParent cs ctx.previous) (full : Bool) :
    ∃ ctx', ctx.visit (absPath cs, full) = some ctx' ∧ ctx'.vfs.Tree ∧
      (∀ n, ctx'.vfs.IsParent (cs ++ [n]) ctx'.previous) ∧
      ctx'.vfs.declared =
        ctx.vfs.declared.put cs (if full then ctx.leaf cs else intermediate cs) ∧
      ctx'.leaf = ctx.leaf := by
  have htrunc := truncateTrailingSlash_canonical (canonical_absPath cs)
  cases hfind : ctx.vfs.nodeAt cs with
  | some r =>
    refine ⟨{ ctx with previous := some r }, ?_, htree, ?_, ?_, rfl⟩
    · have hfind' : vfsFindInode ctx.vfs (absPath cs) = some r := hfind
      simp [visit, hfind']
    · intro n
      exact Or.inr ⟨cs, n, r, rfl, rfl, hfind⟩
    · funext ds
      by_cases hds : ds = cs
      · simp [PathTree.put, Vfs.declared, hds, hfind]
      · simp [PathTree.put, hds]
  | none =>
    have hcreate : ∀ t s u, ∃ vfs' r, ctx.vfs.create (absPath cs) t s u ctx.previous =
        some (vfs', r) := by
      intro t s u
      rcases hparent with ⟨-, hnone⟩ | ⟨pre, n, p, rfl, hsome, hat⟩
      · rw [hnone]
        exact create_of_no_parent _ _ t s u
      · obtain ⟨list, hlist, -⟩ := htree.subdirs p (Vfs.nodeAt_some hat).1
        rw [hsome]
        exact create_of_parent (by rw [htrunc]; exact constBasename_pathOf pre n) hlist t s u
    have hsome : (ctx.visit (absPath cs, full)).isSome = true := by
      have hfind' : vfsFindInode ctx.vfs (absPath cs) = none := hfind
      simp only [visit, hfind', Option.isSome_map]
      cases full
      · obtain ⟨vfs', r, h⟩ := hcreate none 0 0
        exact Option.isSome_iff_exists.mpr ⟨_, h⟩
      · obtain ⟨vfs', r, h⟩ := hcreate ctx.leafTargetPath ctx.leafFlagsSet ctx.leafFlagsReset
        exact Option.isSome_iff_exists.mpr ⟨_, h⟩
    obtain ⟨ctx', hvisit⟩ := Option.isSome_iff_exists.mp hsome
    rcases visit_cases hvisit with ⟨r, hfind', -⟩ | ⟨vfs', r, -, rfl, hcreated⟩
    · exact absurd (hfind.symm.trans hfind') (by simp)
    · refine ⟨_, hvisit, hcreated.tree htree htrunc hfind hparent rfl, ?_, ?_, rfl⟩
      · intro n
        refine Or.inr ⟨cs, n, r, rfl, rfl, ?_⟩
        rw [hcreated.nodeAt htree.toWellFormed htrunc, hfind]
        simp
      · rw [hcreated.declared htree.toWellFormed htrunc]
        congr 1
        cases full <;> simp [VfsInode.declaration, newInode, leaf, intermediate, htrunc]

/-- The run: a walk down a canonical path plants the leaf. -/
theorem VfsInodeAddingCtx.walk_canonical (cs : List Name) {pre : List Name}
    {ctx : VfsInodeAddingCtx} (htree : ctx.vfs.Tree) (hparent : ctx.vfs.IsParent pre ctx.previous) :
    ∃ ctx', ctx.walk (ancestorCalls pre cs) = some ctx' ∧ ctx'.vfs.Tree ∧
      ctx'.vfs.declared =
        PathTree.plantFrom intermediate (ctx.leaf (pre ++ cs)) pre cs ctx.vfs.declared := by
  induction cs generalizing pre ctx with
  | nil =>
    obtain ⟨ctx', hvisit, htree', -, hdecl, -⟩ := visit_canonical htree hparent true
    refine ⟨ctx', ?_, htree', ?_⟩
    · rw [ancestorCalls_nil, walk, hvisit]
      rfl
    · simpa [PathTree.plantFrom] using hdecl
  | cons n cs ih =>
    obtain ⟨ctx1, hvisit, htree1, hparent1, hdecl1, hleaf⟩ := visit_canonical htree hparent false
    obtain ⟨ctx', hwalk, htree', hdecl⟩ := ih htree1 (hparent1 n)
    refine ⟨ctx', ?_, htree', ?_⟩
    · rw [ancestorCalls_cons, walk, hvisit]
      exact hwalk
    · rw [hdecl, hdecl1, hleaf, PathTree.plantFrom]
      simp

/-! ## Canonical declarations -/

/-- A declaration whose virtual path is canonical, with the names of the path. -/
structure CanonicalDeclaration extends Declaration where
  names : List Name
  canonical : Canonical virtualPath names

namespace CanonicalDeclaration

/-- What is declared in the tree of names. -/
def entry (d : CanonicalDeclaration) : List Name × Declaration := (d.names, d.stored)

/-- A canonical declaration is accepted when its target is and its place is free. -/
theorem accepted_iff {d : CanonicalDeclaration} {vfs : Vfs} :
    d.Accepted vfs ↔ d.TargetLegal ∧ vfs.declared d.names = none := by
  rw [Vfs.declared_eq_none, ← vfs.nodeAt_canonical d.canonical]
  exact ⟨fun h => ⟨h.target_legal, h.not_found⟩,
    fun h => ⟨d.canonical.isAbsolutePath, h.1, h.2⟩⟩

/-- An accepted call plants its declaration. -/
theorem add_accepted {d : CanonicalDeclaration} {vfs : Vfs} (htree : vfs.Tree)
    (h : d.Accepted vfs) (os : Os) (tr : List SysCall) :
    ∃ vfs', d.add vfs os ⟨[], tr⟩ = some ((true, vfs'), ⟨[], tr⟩) ∧ vfs'.Tree ∧
      vfs'.declared = PathTree.plant intermediate vfs.declared d.names d.stored := by
  have hroot : (d.ctx vfs).vfs.IsParent [] (d.ctx vfs).previous := Or.inl ⟨rfl, rfl⟩
  obtain ⟨ctx', hwalk, htree', hdecl⟩ :=
    VfsInodeAddingCtx.walk_canonical d.names (show (d.ctx vfs).vfs.Tree from htree) hroot
  refine ⟨ctx'.vfs, ?_, htree', ?_⟩
  · rw [Declaration.add_accepted h, splitCalls_eq_ancestorCalls d.canonical, hwalk]
    rfl
  · have hleaf : (d.ctx vfs).leaf d.names = d.stored := by
      simp [VfsInodeAddingCtx.leaf, Declaration.ctx, Declaration.stored,
        truncateTrailingSlash_canonical d.canonical]
    rw [hdecl, List.nil_append, hleaf]
    rfl

/-- A call on a tree leaves a tree; it is answered by whether its declaration was planted. -/
theorem add_tree (d : CanonicalDeclaration) {vfs : Vfs} (htree : vfs.Tree) (os : Os)
    (tr : List SysCall) :
    ∃ ok vfs', d.add vfs os ⟨[], tr⟩ = some ((ok, vfs'), ⟨[], tr⟩) ∧ vfs'.Tree ∧
      (ok = true ↔ d.TargetLegal ∧ vfs.declared d.names = none) ∧
      (ok = true → vfs'.declared = PathTree.plant intermediate vfs.declared d.names d.stored) := by
  by_cases h : d.Accepted vfs
  · obtain ⟨vfs', hadd, htree', hdecl⟩ := add_accepted htree h os tr
    exact ⟨true, vfs', hadd, htree', iff_of_true rfl (accepted_iff.mp h), fun _ => hdecl⟩
  · obtain ⟨code, msg, hadd⟩ := Declaration.add_rejected h os ⟨[], tr⟩
    refine ⟨false, _, hadd, ?_, ?_, by simp⟩
    · exact ⟨htree.toWellFormed.setError code msg, htree.names, htree.distinct,
        htree.parent_root, htree.parent_child⟩
    · exact iff_of_false (by simp) fun hc => h (accepted_iff.mpr hc)

/-- A list of calls on a tree leaves a tree. All of them are answered `true` exactly when the
declarations are accepted in their order, and then they are what the tree declares. -/
theorem addAll_tree (ds : List CanonicalDeclaration) {vfs : Vfs} (htree : vfs.Tree) (os : Os)
    (tr : List SysCall) :
    ∃ oks vfs', addAll (ds.map toDeclaration) vfs os ⟨[], tr⟩ = some ((oks, vfs'), ⟨[], tr⟩) ∧
      vfs'.Tree ∧
      ((∀ ok ∈ oks, ok = true) ↔ (∀ d ∈ ds, d.TargetLegal) ∧
        PathTree.Accepted intermediate (ds.map entry) vfs.declared) ∧
      ((∀ ok ∈ oks, ok = true) →
        vfs'.declared = (PathTree.declareAll intermediate (ds.map entry) vfs.declared).2) := by
  induction ds generalizing vfs with
  | nil =>
    refine ⟨[], vfs, rfl, htree, ?_, fun _ => rfl⟩
    exact iff_of_true (by simp) ⟨by simp, PathTree.accepted_nil _ _⟩
  | cons d ds ih =>
    obtain ⟨ok, vfs1, hadd, htree1, hok, hdecl⟩ := d.add_tree htree os tr
    obtain ⟨oks, vfs', hall, htree', hoks, hdecls⟩ := ih htree1
    refine ⟨ok :: oks, vfs', ?_, htree', ?_, ?_⟩
    · rw [List.map_cons, addAll_cons_apply hadd, hall]
      rfl
    · rw [List.forall_mem_cons, List.forall_mem_cons, List.map_cons, PathTree.accepted_cons, hok,
        hoks]
      show _ ↔ _ ∧ vfs.declared d.names = none ∧ _
      constructor
      · rintro ⟨⟨hlegal, hfree⟩, hlegals, hacc⟩
        rw [hdecl (hok.mpr ⟨hlegal, hfree⟩)] at hacc
        exact ⟨⟨hlegal, hlegals⟩, hfree, hacc⟩
      · rintro ⟨⟨hlegal, hlegals⟩, hfree, hacc⟩
        refine ⟨⟨hlegal, hfree⟩, hlegals, ?_⟩
        rw [hdecl (hok.mpr ⟨hlegal, hfree⟩)]
        exact hacc
    · intro htrue
      obtain ⟨htrue', htrues⟩ := List.forall_mem_cons.mp htrue
      have hfree : vfs.declared d.entry.1 = none := (hok.mp htrue').2
      rw [List.map_cons, PathTree.declareAll_cons_of_free intermediate hfree, hdecls htrues,
        hdecl htrue']
      rfl

end CanonicalDeclaration

/-! ## The directory tree -/

theorem initialVfs_tree (baseFlags : Flags) : (initialVfs baseFlags).Tree where
  toWellFormed := initialVfs_wellFormed baseFlags
  names := by simp [initialVfs]
  distinct := by simp [initialVfs]
  parent_root := by simp [initialVfs]
  parent_child := by simp [initialVfs]

/-- The inodes as a tree of directories: one inode a path, the parent of an inode at the path
without its last component, and the names below an inode those of its children. -/
structure Vfs.DirectoryTree (vfs : Vfs) : Prop where
  truncated : ∀ r ∈ vfs.inode.data, Truncated (vfs.deref r).virtualPath
  distinct : (vfs.inode.data.map fun r => (vfs.deref r).virtualPath).Nodup
  root : vfs.inode.data ≠ [] → ∃ r ∈ vfs.inode.data, (vfs.deref r).virtualPath = []
  parent_none : ∀ r ∈ vfs.inode.data,
    (vfs.deref r).parent = none ↔ (vfs.deref r).virtualPath = []
  parent : ∀ r ∈ vfs.inode.data, ∀ p, (vfs.deref r).parent = some p →
    p ∈ vfs.inode.data ∧ ∃ cs n, (vfs.deref r).virtualPath = pathOf (cs ++ [n]) ∧
      (vfs.deref p).virtualPath = pathOf cs
  subdirs : ∀ r ∈ vfs.inode.data, ∃ list, (vfs.deref r).virtualSubdirs = some list ∧
    list.strings.Nodup ∧
    ∀ s, s ∈ list.strings ↔ ∃ c ∈ vfs.inode.data, (vfs.deref c).parent = some r ∧
      ∃ cs n, (vfs.deref c).virtualPath = pathOf (cs ++ [n]) ∧ n.val = s

section Tree

variable {vfs : Vfs} (h : vfs.Tree)
include h

/-- An inode is at the root and has no parent, or below the inode of its parent path. -/
theorem Vfs.Tree.cases {r : InodeRef} (hr : r ∈ vfs.inode.data) :
    ((vfs.deref r).virtualPath = [] ∧ (vfs.deref r).parent = none) ∨
    ∃ cs n p, (vfs.deref r).virtualPath = pathOf (cs ++ [n]) ∧ (vfs.deref r).parent = some p ∧
      p ∈ vfs.inode.data ∧ (vfs.deref p).virtualPath = pathOf cs := by
  obtain ⟨ds, hds⟩ := h.names r hr
  rcases List.eq_nil_or_concat' ds with rfl | ⟨cs, n, rfl⟩
  · exact Or.inl ⟨hds, h.parent_root r hr hds⟩
  · obtain ⟨p, hp, hpp⟩ := h.parent_child r hr cs n hds
    exact Or.inr ⟨cs, n, p, hds, hp, h.parent_mem r hr p hp, hpp⟩

/-- Every inode is below a root: by induction on its path. -/
theorem Vfs.Tree.exists_root {cs : List Name} {r : InodeRef} (hr : r ∈ vfs.inode.data)
    (hcs : (vfs.deref r).virtualPath = pathOf cs) :
    ∃ s ∈ vfs.inode.data, (vfs.deref s).virtualPath = [] := by
  induction cs using List.reverseRecOn generalizing r with
  | nil => exact ⟨r, hr, hcs⟩
  | append_singleton cs n ih =>
    obtain ⟨p, hp, hpp⟩ := h.parent_child r hr cs n hcs
    exact ih (h.parent_mem r hr p hp) hpp

/-- The name of a child is the last name of its path. -/
theorem Vfs.Tree.childName {c r : InodeRef} (hc : c ∈ vfs.children r) :
    ∃ cs n, (vfs.deref c).virtualPath = pathOf (cs ++ [n]) ∧
      (vfs.deref r).virtualPath = pathOf cs ∧
      constBasename (vfs.deref c).virtualPath = some n.val := by
  obtain ⟨hmem, hparent⟩ := List.mem_filter.mp hc
  rcases h.cases hmem with ⟨-, hnone⟩ | ⟨cs, n, p, hpath, hp, -, hpp⟩
  · simp [hnone] at hparent
  · obtain rfl : p = r := by simpa [hp] using hparent
    exact ⟨cs, n, hpath, hpp, by rw [hpath, constBasename_pathOf]⟩

/-- Siblings have different names. -/
theorem Vfs.Tree.childNames_nodup (r : InodeRef) : (vfs.childNames r).Nodup := by
  refine List.Nodup.map_on ?_ (h.data_nodup.filter _)
  intro c hc d hd heq
  obtain ⟨cs, n, hcpath, hrc, hcname⟩ := h.childName hc
  obtain ⟨ds, m, hdpath, hrd, hdname⟩ := h.childName hd
  obtain rfl : cs = ds := pathOf_injective (hrc.symm.trans hrd)
  obtain rfl : n = m := Name.ext (Option.some.inj (hcname.symm.trans (heq.trans hdname)))
  exact h.distinct c (List.mem_of_mem_filter hc) d (List.mem_of_mem_filter hd)
    (hcpath.trans hdpath.symm)

theorem Vfs.Tree.directoryTree : vfs.DirectoryTree where
  truncated r _ := (vfs.deref r).virtualPath_truncated
  distinct := List.Nodup.map_on (fun r hr s hs heq => h.distinct r hr s hs heq) h.data_nodup
  root hne := by
    obtain ⟨r, hr⟩ := List.exists_mem_of_ne_nil _ hne
    obtain ⟨cs, hcs⟩ := h.names r hr
    exact h.exists_root hr hcs
  parent_none r hr := by
    rcases h.cases hr with ⟨hpath, hparent⟩ | ⟨cs, n, p, hpath, hparent, -, -⟩
    · exact iff_of_true hparent hpath
    · apply iff_of_false (by simp [hparent])
      rw [hpath, pathOf_eq_nil_iff]
      simp
  parent r hr p hp := by
    rcases h.cases hr with ⟨-, hnone⟩ | ⟨cs, n, p', hpath, hp', hmem, hpp⟩
    · exact absurd (hnone.symm.trans hp) (by simp)
    · obtain rfl : p' = p := Option.some.inj (hp'.symm.trans hp)
      exact ⟨hmem, cs, n, hpath, hpp⟩
  subdirs r hr := by
    obtain ⟨list, hlist, hperm⟩ := h.subdirs r hr
    refine ⟨list, hlist, ?_, ?_⟩
    · exact List.Nodup.of_map some (hperm.nodup_iff.mpr (h.childNames_nodup r))
    · intro s
      have hs : s ∈ list.strings ↔ some s ∈ vfs.childNames r := by
        rw [← hperm.mem_iff, List.mem_map_of_injective (Option.some_injective _)]
      rw [hs, Vfs.childNames, List.mem_map]
      constructor
      · rintro ⟨c, hc, hname⟩
        obtain ⟨cs, n, hpath, -, hname'⟩ := h.childName hc
        obtain ⟨hmem, hparent⟩ := List.mem_filter.mp hc
        exact ⟨c, hmem, of_decide_eq_true hparent, cs, n, hpath,
          Option.some.inj (hname'.symm.trans hname)⟩
      · rintro ⟨c, hmem, hparent, cs, n, hpath, rfl⟩
        refine ⟨c, List.mem_filter.mpr ⟨hmem, decide_eq_true hparent⟩, ?_⟩
        rw [hpath, constBasename_pathOf]

end Tree

end Umsftpd
