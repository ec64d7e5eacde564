import Umsftpd.Vfs.Inodes

/-!
# What adding an inode does

Where allocations succeed, `vfs_add_inode` is a walk along the calls of `path_split` that looks
each part up and creates what it does not find. `Created` says once what the creation of one inode
changes; the invariants of the table are derived from it and not from the code.
-/

namespace Umsftpd

open CLib

/-! ## Creating one inode -/

/-- What an inode says apart from the names of its children. -/
structure NodeInfo where
  parent : Option InodeRef
  flagsSet : Flags
  flagsReset : Flags
  virtualPath : CStr
  targetPath : Option CStr

def VfsInode.info (inode : VfsInode) : NodeInfo :=
  { parent := inode.parent, flagsSet := inode.flagsSet, flagsReset := inode.flagsReset
    virtualPath := inode.virtualPath, targetPath := inode.targetPath }

/-- `vfsInsertSubdir` when no allocation fails; there is no result when the path has no basename or
the parent no list for it. -/
def Vfs.insertSubdir (vfs : Vfs) (vpathCopy : CStr) : Option InodeRef → Option Vfs
  | none => some vfs
  | some p => do
    let name ← constBasename vpathCopy
    let list ← (vfs.deref p).virtualSubdirs
    return vfs.setSubdirs p (some (list.push name))

theorem vfsInsertSubdir_apply (vfs : Vfs) (vpathCopy : CStr) (parent : Option InodeRef) (os : Os)
    (tr : List SysCall) :
    vfsInsertSubdir vfs vpathCopy parent os ⟨[], tr⟩ =
      (vfs.insertSubdir vpathCopy parent).map fun vfs => (vfs, ⟨[], tr⟩) := by
  cases parent with
  | none => rfl
  | some p =>
    simp only [vfsInsertSubdir, Vfs.insertSubdir, Exec.bind_apply]
    cases constBasename vpathCopy with
    | none => rfl
    | some name =>
      simp only [Exec.checked_some, Option.bind_some, Option.bind_eq_bind]
      cases (vfs.deref p).virtualSubdirs <;> rfl

/-- `vfs_add_single_inode` when no allocation fails. -/
def Vfs.create (vfs : Vfs) (virtualPath : CStr) (targetPath : Option CStr)
    (flagsSet flagsReset : Flags) (parent : Option InodeRef) : Option (Vfs × InodeRef) :=
  (vfs.insertSubdir (truncateTrailingSlash virtualPath) parent).map fun vfs =>
    vfs.link
      (newInode virtualPath targetPath flagsSet flagsReset parent (some StringList.empty))

theorem vfsAddSingleInode_apply (vfs : Vfs) (virtualPath : CStr) (targetPath : Option CStr)
    (flagsSet flagsReset : Flags) (parent : Option InodeRef) (os : Os) (tr : List SysCall) :
    vfsAddSingleInode vfs virtualPath targetPath flagsSet flagsReset parent os ⟨[], tr⟩ =
      (vfs.create virtualPath targetPath flagsSet flagsReset parent).map
        fun created => ((created.1, some created.2), ⟨[], tr⟩) := by
  -- whether there is a target decides only whether it is copied
  have hrun : ∀ copied : Bool, copied = targetPath.isSome →
      vfsAddSingleInode vfs virtualPath targetPath flagsSet flagsReset parent os ⟨[], tr⟩ =
        (vfs.create virtualPath targetPath flagsSet flagsReset parent).map
          fun created => ((created.1, some created.2), ⟨[], tr⟩) := by
    intro copied hcopied
    unfold vfsAddSingleInode Vfs.create
    rw [← hcopied]
    cases copied <;>
      simp only [Exec.malloc_guard, Exec.true_guard, Bool.false_eq_true, if_false, if_true] <;>
      rw [Exec.bind_apply, vfsInsertSubdir_apply] <;>
      cases vfs.insertSubdir (truncateTrailingSlash virtualPath) parent with
      | none => rfl
      | some vfs1 =>
        show (stringlistNew >>= _) os ⟨[], tr⟩ = _
        rw [Exec.bind_apply, stringlistNew_apply]
        exact Exec.malloc_guard _ _ os tr
  exact hrun _ rfl

/-- The table after the creation of one inode. -/
structure Created (vfs vfs' : Vfs) (r : InodeRef) (inode : VfsInode) : Prop where
  ref_eq : r = vfs.heap.next
  next_eq : vfs'.heap.next = r + 1
  table_eq : vfs'.inode = { vfs.inode with data := vfs.inode.data ++ [r] }
  cwd_eq : vfs'.cwd = vfs.cwd
  handles_eq : vfs'.handles = vfs.handles
  deref_new : vfs'.deref r = inode
  deref_other : ∀ r' < vfs.heap.next, inode.parent ≠ some r' → vfs'.deref r' = vfs.deref r'
  deref_parent : ∀ p, inode.parent = some p → p < vfs.heap.next →
    ∃ list name, (vfs.deref p).virtualSubdirs = some list ∧
      constBasename inode.virtualPath = some name ∧
      vfs'.deref p = { vfs.deref p with virtualSubdirs := some (list.push name) }

theorem created_of_create {vfs vfs' : Vfs} {virtualPath : CStr} {targetPath : Option CStr}
    {flagsSet flagsReset : Flags} {parent : Option InodeRef} {r : InodeRef}
    (h : vfs.create virtualPath targetPath flagsSet flagsReset parent = some (vfs', r)) :
    Created vfs vfs' r
      (newInode virtualPath targetPath flagsSet flagsReset parent (some StringList.empty)) := by
  obtain ⟨vfs1, hinsert, hlink⟩ := Option.map_eq_some_iff.mp h
  obtain ⟨rfl, rfl⟩ := Prod.mk.inj hlink
  cases parent with
  | none =>
    obtain rfl := Option.some.inj hinsert
    refine ⟨rfl, rfl, rfl, rfl, rfl, vfs.deref_link_new _, ?_, ?_⟩
    · intro r' hr' _
      exact vfs.deref_link_of_lt _ hr'
    · intro p hp
      exact absurd hp (by simp [newInode])
  | some p =>
    obtain ⟨name, hname, h'⟩ := Option.bind_eq_some_iff.mp hinsert
    obtain ⟨list, hlist, hset⟩ := Option.bind_eq_some_iff.mp h'
    obtain rfl := Option.some.inj hset
    refine ⟨rfl, rfl, rfl, rfl, rfl, Vfs.deref_link_new _ _, ?_, ?_⟩
    · intro r' hr' hne
      have hne' : r' ≠ p := fun he => hne (by simp [newInode, he])
      exact (Vfs.deref_link_of_lt (vfs.setSubdirs p _) _ hr').trans
        (vfs.deref_setSubdirs_of_ne p _ hne')
    · intro p' hp' hlt
      obtain rfl : p = p' := by simpa [newInode] using hp'
      exact ⟨list, name, hlist, hname,
        (Vfs.deref_link_of_lt (vfs.setSubdirs p _) _ hlt).trans (vfs.deref_setSubdirs_self p _)⟩

/-- Without a parent nothing is asked of the path. -/
theorem create_of_no_parent (vfs : Vfs) (virtualPath : CStr) (targetPath : Option CStr)
    (flagsSet flagsReset : Flags) :
    ∃ vfs' r, vfs.create virtualPath targetPath flagsSet flagsReset none = some (vfs', r) :=
  ⟨_, _, rfl⟩

theorem create_of_parent {vfs : Vfs} {virtualPath name : CStr} {p : InodeRef} {list : StringList}
    (hname : constBasename (truncateTrailingSlash virtualPath) = some name)
    (hlist : (vfs.deref p).virtualSubdirs = some list) (targetPath : Option CStr)
    (flagsSet flagsReset : Flags) :
    ∃ vfs' r, vfs.create virtualPath targetPath flagsSet flagsReset (some p) = some (vfs', r) := by
  have h : (vfs.create virtualPath targetPath flagsSet flagsReset (some p)).isSome = true := by
    simp [Vfs.create, Vfs.insertSubdir, hname, hlist]
  obtain ⟨⟨vfs', r⟩, h'⟩ := Option.isSome_iff_exists.mp h
  exact ⟨vfs', r, h'⟩

section Created

variable {vfs vfs' : Vfs} {r : InodeRef} {inode : VfsInode}

/-- An inode that was there keeps everything but the names of its children. -/
theorem Created.deref_old (h : Created vfs vfs' r inode) {r' : InodeRef}
    (hr' : r' < vfs.heap.next) :
    ∃ subdirs, vfs'.deref r' = { vfs.deref r' with virtualSubdirs := subdirs } := by
  by_cases hp : inode.parent = some r'
  · obtain ⟨list, name, -, -, heq⟩ := h.deref_parent r' hp hr'
    exact ⟨_, heq⟩
  · exact ⟨(vfs.deref r').virtualSubdirs, h.deref_other r' hr' hp⟩

theorem Created.info_old (h : Created vfs vfs' r inode) {r' : InodeRef}
    (hr' : r' < vfs.heap.next) : (vfs'.deref r').info = (vfs.deref r').info := by
  obtain ⟨subdirs, heq⟩ := h.deref_old hr'
  rw [heq]
  rfl

theorem Created.virtualPath_old (h : Created vfs vfs' r inode) {r' : InodeRef}
    (hr' : r' < vfs.heap.next) : (vfs'.deref r').virtualPath = (vfs.deref r').virtualPath :=
  congrArg NodeInfo.virtualPath (h.info_old hr')

theorem Created.data_eq (h : Created vfs vfs' r inode) :
    vfs'.inode.data = vfs.inode.data ++ [r] := by
  rw [h.table_eq]

end Created

/-! ## Tables -/

/-- The inodes of the table below `r`, in the order of the table. -/
def Vfs.children (vfs : Vfs) (r : InodeRef) : List InodeRef :=
  vfs.inode.data.filter fun c => decide ((vfs.deref c).parent = some r)

/-- The last parts of their paths. -/
def Vfs.childNames (vfs : Vfs) (r : InodeRef) : List (Option CStr) :=
  (vfs.children r).map fun c => constBasename (vfs.deref c).virtualPath

/-- What every table satisfies: its references lead to inodes, once each, whose parents are in it
and which list the names of their children. -/
structure Vfs.WellFormed (vfs : Vfs) : Prop where
  data_lt : ∀ r ∈ vfs.inode.data, r < vfs.heap.next
  data_nodup : vfs.inode.data.Nodup
  parent_mem : ∀ r ∈ vfs.inode.data, ∀ p, (vfs.deref r).parent = some p → p ∈ vfs.inode.data
  subdirs : ∀ r ∈ vfs.inode.data, ∃ list, (vfs.deref r).virtualSubdirs = some list ∧
    (list.strings.map some).Perm (vfs.childNames r)

section Created

variable {vfs vfs' : Vfs} {r : InodeRef} {inode : VfsInode} (h : Created vfs vfs' r inode)
  (hwf : vfs.WellFormed)
include h hwf

theorem Created.parent_old {c : InodeRef} (hc : c ∈ vfs.inode.data) :
    (vfs'.deref c).parent = (vfs.deref c).parent :=
  congrArg NodeInfo.parent (h.info_old (hwf.data_lt c hc))

/-- The new inode is one more child of its parent. -/
theorem Created.childNames (s : InodeRef) :
    vfs'.childNames s = vfs.childNames s ++
      if inode.parent = some s then [constBasename inode.virtualPath] else [] := by
  have hold : vfs.inode.data.filter (fun c => decide ((vfs'.deref c).parent = some s)) =
      vfs.children s := by
    apply List.filter_congr
    intro c hc
    rw [h.parent_old hwf hc]
  have hnames : (vfs.children s).map (fun c => constBasename (vfs'.deref c).virtualPath) =
      vfs.childNames s := by
    apply List.map_congr_left
    intro c hc
    rw [h.virtualPath_old (hwf.data_lt c (List.mem_of_mem_filter hc))]
  unfold Vfs.childNames Vfs.children
  rw [h.data_eq, List.filter_append, hold, List.map_append, hnames]
  congr 1
  by_cases hp : inode.parent = some s <;> simp [h.deref_new, hp]

/-- Nothing is below the new inode yet. -/
theorem Created.childNames_new (hparent : ∀ p, inode.parent = some p → p ∈ vfs.inode.data) :
    vfs'.childNames r = [] := by
  have hfresh : ∀ p ∈ vfs.inode.data, p ≠ r := by
    intro p hp
    rw [h.ref_eq]
    exact Nat.ne_of_lt (hwf.data_lt p hp)
  have hnone : vfs.childNames r = [] := by
    rw [Vfs.childNames, List.map_eq_nil_iff, Vfs.children, List.filter_eq_nil_iff]
    intro c hc hp
    exact hfresh r (hwf.parent_mem c hc r (of_decide_eq_true hp)) rfl
  rw [h.childNames hwf, hnone, if_neg]
  · rfl
  · intro hp
    exact hfresh r (hparent r hp) rfl

theorem Created.wellFormed (hparent : ∀ p, inode.parent = some p → p ∈ vfs.inode.data)
    (hsubdirs : inode.virtualSubdirs = some StringList.empty) : vfs'.WellFormed := by
  constructor
  · intro r' hr'
    rw [h.data_eq, List.mem_append, List.mem_singleton] at hr'
    rw [h.next_eq, h.ref_eq]
    rcases hr' with hold | rfl
    · exact Nat.lt_succ_of_lt (hwf.data_lt r' hold)
    · rw [h.ref_eq]
      exact Nat.lt_succ_self _
  · rw [h.data_eq, List.nodup_append]
    refine ⟨hwf.data_nodup, by simp, ?_⟩
    intro a ha b hb
    rw [List.mem_singleton] at hb
    have hlt := hwf.data_lt a ha
    rw [hb, h.ref_eq]
    exact Nat.ne_of_lt hlt
  · intro r' hr' p hp
    rw [h.data_eq, List.mem_append, List.mem_singleton] at hr' ⊢
    left
    rcases hr' with hold | rfl
    · rw [h.parent_old hwf hold] at hp
      exact hwf.parent_mem r' hold p hp
    · exact hparent p (h.deref_new ▸ hp)
  · intro r' hr'
    rw [h.data_eq, List.mem_append, List.mem_singleton] at hr'
    rcases hr' with hold | rfl
    · obtain ⟨list, hlist, hperm⟩ := hwf.subdirs r' hold
      by_cases hp : inode.parent = some r'
      · obtain ⟨list', name, hlist', hname, heq⟩ := h.deref_parent r' hp (hwf.data_lt r' hold)
        obtain rfl : list = list' := Option.some.inj (hlist.symm.trans hlist')
        refine ⟨list.push name, by rw [heq], ?_⟩
        rw [h.childNames hwf, if_pos hp, hname, StringList.strings_push, List.map_append]
        exact hperm.append_right _
      · refine ⟨list, by rw [h.deref_other r' (hwf.data_lt r' hold) hp, hlist], ?_⟩
        rw [h.childNames hwf, if_neg hp, List.append_nil]
        exact hperm
    · refine ⟨StringList.empty, by rw [h.deref_new, hsubdirs], ?_⟩
      rw [h.childNames_new hwf hparent]
      exact List.Perm.refl _

end Created

/-! ## Finding -/

/-- A search finds the first inode stored under the path without its slash. -/
theorem vfsFindInode_eq (vfs : Vfs) (path : CStr) :
    vfsFindInode vfs path =
      vfs.inode.data.find? fun r => decide ((vfs.deref r).virtualPath = cutSlash path) := by
  unfold vfsFindInode
  congr 1
  funext r
  rw [Bool.eq_iff_iff, pathcmp_truncated (vfs.deref r).virtualPath_truncated, decide_eq_true_iff]

theorem vfsFindInode_some {vfs : Vfs} {path : CStr} {r : InodeRef}
    (h : vfsFindInode vfs path = some r) :
    r ∈ vfs.inode.data ∧ (vfs.deref r).virtualPath = cutSlash path := by
  rw [vfsFindInode_eq] at h
  exact ⟨List.mem_of_find?_eq_some h, by simpa using List.find?_some h⟩

theorem vfsFindInode_eq_none {vfs : Vfs} {path : CStr} :
    vfsFindInode vfs path = none ↔
      ∀ r ∈ vfs.inode.data, (vfs.deref r).virtualPath ≠ cutSlash path := by
  rw [vfsFindInode_eq]
  simp

/-- What was found is still found, and the new inode after it. -/
theorem Created.find {vfs vfs' : Vfs} {r : InodeRef} {inode : VfsInode}
    (h : Created vfs vfs' r inode) (hwf : vfs.WellFormed) (path : CStr) :
    vfsFindInode vfs' path =
      (vfsFindInode vfs path).or (if inode.virtualPath = cutSlash path then some r else none) := by
  have hold : vfs.inode.data.find? (fun r => decide ((vfs'.deref r).virtualPath = cutSlash path)) =
      vfs.inode.data.find? fun r => decide ((vfs.deref r).virtualPath = cutSlash path) := by
    apply List.find?_congr
    intro r' hr'
    rw [h.virtualPath_old (hwf.data_lt r' hr')]
  rw [vfsFindInode_eq, vfsFindInode_eq, h.data_eq, List.find?_append, hold]
  congr 1
  rw [← h.deref_new]
  by_cases heq : (vfs'.deref r).virtualPath = cutSlash path <;> simp [heq]

/-! ## The walk -/

/-- `vfs_add_inode_splitter` when no allocation fails. -/
def VfsInodeAddingCtx.visit (ctx : VfsInodeAddingCtx) (call : CStr × Bool) :
    Option VfsInodeAddingCtx :=
  match vfsFindInode ctx.vfs call.1 with
  | some r => some { ctx with previous := some r }
  | none =>
    (if call.2 then
        ctx.vfs.create call.1 ctx.leafTargetPath ctx.leafFlagsSet ctx.leafFlagsReset ctx.previous
      else ctx.vfs.create call.1 none 0 0 ctx.previous).map
        fun created => { ctx with vfs := created.1, previous := some created.2 }

theorem vfsAddInodeSplitter_apply (ctx : VfsInodeAddingCtx) (call : CStr × Bool) (os : Os)
    (tr : List SysCall) :
    vfsAddInodeSplitter call.1 call.2 ctx os ⟨[], tr⟩ =
      (ctx.visit call).map fun ctx => ((true, ctx), ⟨[], tr⟩) := by
  unfold vfsAddInodeSplitter VfsInodeAddingCtx.visit
  cases vfsFindInode ctx.vfs call.1 with
  | some r => rfl
  | none =>
    cases call.2 <;>
      simp only [Bool.not_false, Bool.not_true, Bool.false_eq_true, if_true, if_false,
        Exec.bind_apply, vfsAddSingleInode_apply, Option.bind_map, Option.map_map] <;>
      exact Option.map_eq_bind.symm

/-- The visits of a list of calls, one after the other. -/
def VfsInodeAddingCtx.walk (ctx : VfsInodeAddingCtx) :
    List (CStr × Bool) → Option VfsInodeAddingCtx
  | [] => some ctx
  | call :: calls => (ctx.visit call).bind fun ctx => ctx.walk calls

theorem runCalls_vfsAddInodeSplitter (calls : List (CStr × Bool)) (ctx : VfsInodeAddingCtx)
    (os : Os) (tr : List SysCall) :
    runCalls vfsAddInodeSplitter calls ctx os ⟨[], tr⟩ =
      (ctx.walk calls).map fun ctx => (ctx, ⟨[], tr⟩) := by
  induction calls generalizing ctx with
  | nil => rfl
  | cons call calls ih =>
    rw [runCalls, Exec.bind_apply, vfsAddInodeSplitter_apply, VfsInodeAddingCtx.walk]
    cases hvisit : ctx.visit call with
    | none => rfl
    | some ctx' => exact ih ctx'

theorem VfsInodeAddingCtx.walk_append (ctx : VfsInodeAddingCtx)
    (calls calls' : List (CStr × Bool)) :
    ctx.walk (calls ++ calls') = (ctx.walk calls).bind fun ctx => ctx.walk calls' := by
  induction calls generalizing ctx with
  | nil => rfl
  | cons call calls ih =>
    rw [List.cons_append, walk, walk, Option.bind_assoc]
    congr 1
    funext ctx'
    exact ih ctx'

/-- The one thing a visit can do: go to the inode that is found, or create it below the last. -/
theorem VfsInodeAddingCtx.visit_cases {ctx ctx' : VfsInodeAddingCtx} {call : CStr × Bool}
    (h : ctx.visit call = some ctx') :
    (∃ r, vfsFindInode ctx.vfs call.1 = some r ∧ ctx' = { ctx with previous := some r }) ∨
    (∃ vfs r, vfsFindInode ctx.vfs call.1 = none ∧
      ctx' = { ctx with vfs := vfs, previous := some r } ∧
      Created ctx.vfs vfs r (newInode call.1 (if call.2 then ctx.leafTargetPath else none)
        (if call.2 then ctx.leafFlagsSet else 0) (if call.2 then ctx.leafFlagsReset else 0)
        ctx.previous (some StringList.empty))) := by
  unfold visit at h
  cases hfind : vfsFindInode ctx.vfs call.1 with
  | some r =>
    rw [hfind] at h
    exact Or.inl ⟨r, rfl, (Option.some.inj h).symm⟩
  | none =>
    rw [hfind] at h
    obtain ⟨⟨vfs, r⟩, hcreate, rfl⟩ := Option.map_eq_some_iff.mp h
    refine Or.inr ⟨vfs, r, rfl, rfl, ?_⟩
    cases hfull : call.2 <;> rw [hfull] at hcreate <;> exact created_of_create hcreate

/-- What every visit preserves holds after a walk. -/
theorem VfsInodeAddingCtx.walk_induction {P : VfsInodeAddingCtx → Prop}
    {calls : List (CStr × Bool)}
    (hstep : ∀ ctx ctx' call, call ∈ calls → P ctx → ctx.visit call = some ctx' → P ctx')
    {ctx ctx' : VfsInodeAddingCtx} (h : ctx.walk calls = some ctx') (hP : P ctx) : P ctx' := by
  induction calls generalizing ctx with
  | nil =>
    obtain rfl := Option.some.inj h
    exact hP
  | cons call calls ih =>
    obtain ⟨ctx1, hvisit, hwalk⟩ := Option.bind_eq_some_iff.mp h
    have hP1 := hstep ctx ctx1 call List.mem_cons_self hP hvisit
    exact ih (fun c c' k hk => hstep c c' k (List.mem_cons_of_mem _ hk)) hwalk hP1

/-- What no walk touches. -/
structure Vfs.SameSettings (vfs vfs' : Vfs) : Prop where
  baseFlags : vfs'.inode.baseFlags = vfs.inode.baseFlags
  frozen : vfs'.inode.frozen = vfs.inode.frozen
  cwd : vfs'.cwd = vfs.cwd
  handles : vfs'.handles = vfs.handles

theorem Vfs.SameSettings.refl (vfs : Vfs) : vfs.SameSettings vfs := ⟨rfl, rfl, rfl, rfl⟩

theorem Vfs.SameSettings.trans {vfs1 vfs2 vfs3 : Vfs} (h : vfs1.SameSettings vfs2)
    (h' : vfs2.SameSettings vfs3) : vfs1.SameSettings vfs3 :=
  ⟨h'.baseFlags.trans h.baseFlags, h'.frozen.trans h.frozen, h'.cwd.trans h.cwd,
    h'.handles.trans h.handles⟩

theorem Created.sameSettings {vfs vfs' : Vfs} {r : InodeRef} {inode : VfsInode}
    (h : Created vfs vfs' r inode) : vfs.SameSettings vfs' :=
  ⟨by rw [h.table_eq], by rw [h.table_eq], h.cwd_eq, h.handles_eq⟩

theorem VfsInodeAddingCtx.sameSettings_walk {ctx ctx' : VfsInodeAddingCtx}
    {calls : List (CStr × Bool)} (h : ctx.walk calls = some ctx') :
    ctx.vfs.SameSettings ctx'.vfs := by
  apply walk_induction (P := fun c => ctx.vfs.SameSettings c.vfs) ?_ h (Vfs.SameSettings.refl _)
  intro c c' call _ hc hvisit
  rcases visit_cases hvisit with ⟨r, -, rfl⟩ | ⟨vfs, r, -, rfl, hcreated⟩
  · exact hc
  · exact hc.trans hcreated.sameSettings

/-- The context of a walk: a table in order, and the last inode in it. -/
structure VfsInodeAddingCtx.WellFormed (ctx : VfsInodeAddingCtx) : Prop where
  vfs : ctx.vfs.WellFormed
  previous_mem : ∀ p, ctx.previous = some p → p ∈ ctx.vfs.inode.data

theorem VfsInodeAddingCtx.WellFormed.visit {ctx ctx' : VfsInodeAddingCtx} {call : CStr × Bool}
    (hwf : ctx.WellFormed) (h : ctx.visit call = some ctx') : ctx'.WellFormed := by
  rcases visit_cases h with ⟨r, hfind, rfl⟩ | ⟨vfs, r, -, rfl, hcreated⟩
  · refine ⟨hwf.vfs, ?_⟩
    intro p hp
    obtain rfl := Option.some.inj hp
    exact (vfsFindInode_some hfind).1
  · refine ⟨hcreated.wellFormed hwf.vfs hwf.previous_mem rfl, ?_⟩
    intro p hp
    obtain rfl := Option.some.inj hp
    show _ ∈ vfs.inode.data
    rw [hcreated.data_eq]
    simp

/-! ## Declarations -/

/-- The arguments of one call of `vfs_add_inode`. -/
structure Declaration where
  virtualPath : CStr
  targetPath : Option CStr
  flagsSet : Flags
  flagsReset : Flags
  deriving DecidableEq

def Declaration.add (d : Declaration) (vfs : Vfs) : Exec (Bool × Vfs) :=
  vfsAddInode vfs d.virtualPath d.targetPath d.flagsSet d.flagsReset

/-- The target of a declaration is one `vfs_add_inode` takes. -/
def Declaration.TargetLegal (d : Declaration) : Prop :=
  ∀ t, d.targetPath = some t → isAbsolutePath t = true

/-- The tests before the walk let the declaration pass. -/
structure Declaration.Accepted (d : Declaration) (vfs : Vfs) : Prop where
  virtualPath_absolute : isAbsolutePath d.virtualPath = true
  target_legal : d.TargetLegal
  not_found : vfsFindInode vfs d.virtualPath = none

/-- The context the walk of a declaration starts in. -/
def Declaration.ctx (d : Declaration) (vfs : Vfs) : VfsInodeAddingCtx :=
  { vfs := vfs, previous := none, leafFlagsSet := d.flagsSet, leafFlagsReset := d.flagsReset
    leafTargetPath := d.targetPath }

/-- A declaration that passes is walked, whichever allocations fail, and the answer is `true`. -/
theorem Declaration.add_walked {d : Declaration} {vfs : Vfs} (h : d.Accepted vfs) (os : Os)
    (w : World) :
    d.add vfs os w =
      (runCalls vfsAddInodeSplitter (splitCalls d.virtualPath) (d.ctx vfs) os w).map
        fun r => ((true, r.1.vfs), r.2) := by
  have htarget : (d.targetPath.any fun t => !isAbsolutePath t) = false := by
    cases ht : d.targetPath with
    | none => rfl
    | some t => simp [h.target_legal t ht]
  unfold Declaration.add vfsAddInode
  simp only [h.virtualPath_absolute, h.not_found, htarget, Bool.not_true, Bool.false_eq_true,
    if_false, Option.isSome_none]
  rw [Exec.bind_apply, pathSplit_eq, ← Declaration.ctx]
  exact Option.map_eq_bind.symm

theorem Declaration.add_accepted {d : Declaration} {vfs : Vfs} (h : d.Accepted vfs) (os : Os)
    (tr : List SysCall) :
    d.add vfs os ⟨[], tr⟩ =
      ((d.ctx vfs).walk (splitCalls d.virtualPath)).map fun ctx => ((true, ctx.vfs), ⟨[], tr⟩) := by
  rw [add_walked h, runCalls_vfsAddInodeSplitter, Option.map_map]
  rfl

/-- A declaration that does not pass leaves an error and nothing else. -/
theorem Declaration.add_rejected {d : Declaration} {vfs : Vfs} (h : ¬d.Accepted vfs) (os : Os)
    (w : World) :
    ∃ code msg, d.add vfs os w = some ((false, vfsSetError vfs code msg), w) := by
  unfold Declaration.add vfsAddInode
  by_cases habs : isAbsolutePath d.virtualPath = true
  · by_cases htarget : (d.targetPath.any fun t => !isAbsolutePath t) = true
    · simp only [habs, htarget, Bool.not_true, Bool.false_eq_true, if_false, if_true]
      exact ⟨_, _, rfl⟩
    · by_cases hfind : (vfsFindInode vfs d.virtualPath).isSome = true
      · simp only [habs, htarget, hfind, Bool.not_true, Bool.false_eq_true, if_false, if_true]
        exact ⟨_, _, rfl⟩
      · refine absurd ⟨habs, ?_, by simpa using hfind⟩ h
        intro t ht
        simpa [ht] using htarget
  · have habs' : isAbsolutePath d.virtualPath = false := by simpa using habs
    simp only [habs', Bool.not_false, if_true]
    exact ⟨_, _, rfl⟩

end Umsftpd
