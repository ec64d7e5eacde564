import Umsftpd.Vfs.Handles
import Umsftpd.Vfs.Tree

/-!
# Failed allocations

`vfs_add_inode` drops what `vfs_add_inode_splitter` could not create: a failed allocation sets the
error, and the answer is `true` all the same. What is left of an accepted call depends on which
allocations fail, and on nothing else that the table says than the paths that are stored in it.
-/

namespace Umsftpd

open CLib Paths

/-! ## States a file system can be in -/

/-- What calls can make of an initial file system, under any outcomes of their allocations. -/
inductive Served : Vfs → Prop
  | init (baseFlags : Flags) : Served (initialVfs baseFlags)
  | call {s s' : HandleState} {call : HandleCall} (h : Served s.vfs)
      (hstep : HandleStep s call s') : Served s'.vfs
  | readdir {vfs vfs' : Vfs} {handle handle' : VfsHandle} {before after : VfsDirent}
      {code : VfsError} (libc : LibC) (h : Served vfs)
      (hread : vfsReaddir libc vfs handle before = some (code, vfs', handle', after)) :
      Served vfs'

theorem Vfs.Resorted.refsBelow {vfs vfs' : Vfs} (h : vfs.Resorted vfs') (hrefs : vfs.RefsBelow) :
    vfs'.RefsBelow := by
  unfold Vfs.RefsBelow
  rw [h.inode, h.next]
  exact hrefs

theorem Vfs.Moved.refsBelow {vfs vfs' : Vfs} {cs : List Name} (h : vfs.Moved vfs' cs)
    (hrefs : vfs.RefsBelow) : vfs'.RefsBelow := by
  rw [h.rest]
  exact hrefs

/-- The step: the inodes of the table stay allocated. -/
theorem HandleStep.refsBelow {s s' : HandleState} {call : HandleCall} (hstep : HandleStep s call s')
    (hrefs : s.vfs.RefsBelow) : s'.vfs.RefsBelow := by
  cases hstep with
  | addInode d os w w' ok h => exact (d.add_extends _ os w _ w' h).refsBelow hrefs
  | freeze libc vfs opened =>
    intro r hr
    show r < (vfsFreezeInodes libc vfs).heap.next
    rw [vfsFreezeInodes_heap]
    exact hrefs r ((mem_vfsFreezeInodes_data libc vfs).mp hr)
  | opendir path os w w' code handle h =>
    exact ((vfsOpendir_yields _ path).result h).resorted.refsBelow hrefs
  | «open» path mode os w w' code handle h =>
    exact ((vfsOpen_yields _ path mode).result h).resorted.refsBelow hrefs
  | stat path before after os w w' code h =>
    exact (vfsStat_yields _ path before os w _ w' h).refsBelow hrefs
  | chdir path os w w' code h =>
    have hchdir := (vfsChdir_yields _ path).result h
    by_cases hok : code = .ok
    · obtain ⟨p, -, -, hmoved⟩ := hchdir.moved hok
      exact hmoved.refsBelow hrefs
    · exact (hchdir.kept hok).refsBelow hrefs
  | closeHandle handle os w w' h => exact hrefs

theorem Served.refsBelow {vfs : Vfs} (h : Served vfs) : vfs.RefsBelow := by
  induction h with
  | init baseFlags =>
    intro r hr
    exact absurd hr List.not_mem_nil
  | call _ hstep ih => exact hstep.refsBelow ih
  | readdir libc _ hread ih => exact (vfsReaddir_resorted libc hread).refsBelow ih

/-! ## What the allocations decide -/

/-- What the inode for a part declares. -/
def Declaration.part (d : Declaration) (call : CStr × Bool) : Declaration :=
  if call.2 then
    ⟨truncateTrailingSlash call.1, d.targetPath.map truncateTrailingSlash, d.flagsSet,
      d.flagsReset⟩
  else ⟨truncateTrailingSlash call.1, none, 0, 0⟩

/-- The paths that are stored in a table. -/
def Vfs.storedPaths (vfs : Vfs) : List CStr :=
  vfs.inode.data.map fun r => (vfs.deref r).virtualPath

/-- A walk as far as allocations go: the calls for which an inode has been added, whether there is
one to be the parent of the next, and the outcomes that are left. -/
structure AddingWalk where
  added : List (CStr × Bool) := []
  parent : Bool := false
  world : World

/-- A part that is stored, in `paths` or by the walk, takes no allocation. For any other an inode is
added when its copies and its place in the table can be had. -/
def AddingWalk.visit (target : Bool) (paths : List CStr) (walk : AddingWalk)
    (call : CStr × Bool) : AddingWalk :=
  if cutSlash call.1 ∈ paths ++ walk.added.map (fun call => truncateTrailingSlash call.1) then
    { walk with parent := true }
  else
    let target := call.2 && target
    let adds := walk.world.addsInode target walk.parent
    { added := walk.added ++ if adds then [call] else []
      parent := adds
      world := walk.world.used (walk.world.spent target walk.parent) }

/-- The walk of a declaration, from the outcomes `w`. -/
def Declaration.addingWalk (d : Declaration) (vfs : Vfs) (w : World) : AddingWalk :=
  (splitCalls d.virtualPath).foldl (AddingWalk.visit d.targetPath.isSome vfs.storedPaths)
    { world := w }

/-- An inode is added that says all that is declared: the one for the last part, or an intermediate
one for the same path where nothing else is declared. -/
def Declaration.AddsLeaf (d : Declaration) (vfs : Vfs) (w : World) : Prop :=
  ∃ call ∈ (d.addingWalk vfs w).added,
    truncateTrailingSlash call.1 = truncateTrailingSlash d.virtualPath ∧
      (call.2 = true ∨ d.targetPath = none ∧ d.flagsSet = 0 ∧ d.flagsReset = 0)

/-! ## The table after a walk -/

/-- What the inodes of a table declare. -/
def Vfs.declarations (vfs : Vfs) : List Declaration :=
  vfs.inode.data.map fun r => (vfs.deref r).declaration

theorem Vfs.storedPaths_eq (vfs : Vfs) :
    vfs.storedPaths = vfs.declarations.map Declaration.virtualPath := by
  unfold storedPaths declarations
  rw [List.map_map]
  rfl

theorem vfsFindInode_eq_none_iff {vfs : Vfs} {path : CStr} :
    vfsFindInode vfs path = none ↔ cutSlash path ∉ vfs.storedPaths := by
  rw [vfsFindInode_eq_none]
  simp [Vfs.storedPaths]

theorem Declaration.part_virtualPath (d : Declaration) (call : CStr × Bool) :
    (d.part call).virtualPath = truncateTrailingSlash call.1 := by
  unfold part
  split <;> rfl

/-- The parts that declare what is declared are those for its path: the last one, and any one where
nothing but the path is declared. -/
theorem Declaration.part_eq_stored {d : Declaration} {call : CStr × Bool} :
    d.part call = d.stored ↔
      truncateTrailingSlash call.1 = truncateTrailingSlash d.virtualPath ∧
        (call.2 = true ∨ d.targetPath = none ∧ d.flagsSet = 0 ∧ d.flagsReset = 0) := by
  unfold part stored
  cases call.2 with
  | true => simp
  | false =>
    cases d.targetPath with
    | none => simp [eq_comm (b := d.flagsSet), eq_comm (b := d.flagsReset)]
    | some target => simp

/-- The walk knows of the run all that the allocations decide. -/
structure AddingWalk.Tracks (walk : AddingWalk) (d : Declaration) (vfs : Vfs)
    (ctx : VfsInodeAddingCtx) (w : World) : Prop where
  table : ctx.vfs.declarations = vfs.declarations ++ walk.added.map d.part
  parent : walk.parent = ctx.previous.isSome
  world : walk.world = w
  refsBelow : ctx.vfs.RefsBelow
  leaf : ctx.leafTargetPath = d.targetPath ∧ ctx.leafFlagsSet = d.flagsSet ∧
    ctx.leafFlagsReset = d.flagsReset

/-- What one inode more declares. -/
theorem SingleRun.declarations {vfs : Vfs} {info : NodeInfo} {w : World}
    {one : Vfs × Option InodeRef} (h : SingleRun vfs info w one) (hrefs : vfs.RefsBelow)
    {d : Declaration} (hd : ∀ inode : VfsInode, inode.info = info → inode.declaration = d) :
    one.1.declarations = vfs.declarations ++ if one.2.isSome then [d] else [] := by
  have hold : vfs.inode.data.map (fun r => (one.1.deref r).declaration) = vfs.declarations := by
    apply List.map_congr_left
    intro r hr
    exact VfsInode.declaration_congr (h.info_old r (hrefs r hr))
  unfold Vfs.declarations at hold ⊢
  rw [h.data, List.map_append, hold]
  cases hone : one.2 with
  | none => rfl
  | some s =>
    obtain ⟨-, -, hinfo⟩ := h.created s hone
    show _ ++ [(one.1.deref s).declaration] = _ ++ [d]
    rw [hd _ hinfo]

/-- The step. -/
theorem AddingWalk.Tracks.visit {walk : AddingWalk} {d : Declaration} {vfs : Vfs}
    {ctx ctx' : VfsInodeAddingCtx} {w w' : World} {call : CStr × Bool}
    (h : walk.Tracks d vfs ctx w) (hvisit : VisitRun ctx call w ctx' w') :
    (walk.visit d.targetPath.isSome vfs.storedPaths call).Tracks d vfs ctx' w' := by
  -- the paths that the walk looks through are those of the table it has come to
  have hpaths : ctx.vfs.storedPaths =
      vfs.storedPaths ++ walk.added.map fun call => truncateTrailingSlash call.1 := by
    rw [Vfs.storedPaths_eq, h.table, List.map_append, ← Vfs.storedPaths_eq, List.map_map]
    congr 1
    exact List.map_congr_left fun call _ => d.part_virtualPath call
  unfold AddingWalk.visit
  rw [← hpaths]
  cases hvisit with
  | found hfind =>
    have hmem : cutSlash call.1 ∈ ctx.vfs.storedPaths := by
      by_contra hno
      exact absurd (hfind.symm.trans (vfsFindInode_eq_none_iff.mpr hno)) (by simp)
    rw [if_pos hmem]
    exact ⟨h.table, rfl, h.world, h.refsBelow, h.leaf⟩
  | @missing one hfind hone =>
    rw [if_neg (vfsFindInode_eq_none_iff.mp hfind)]
    obtain ⟨htarget, hset, hreset⟩ := h.leaf
    -- the code asks for a copy of the target where the walk counts one
    have hadds : walk.world.addsInode (call.2 && d.targetPath.isSome) walk.parent =
        one.2.isSome := by
      rw [hone.created_iff, h.world, h.parent, ← htarget]
      show _ = w.addsInode (Option.map truncateTrailingSlash _).isSome ctx.previous.isSome
      rw [Option.isSome_map]
      cases call.2 <;> rfl
    have hpart : ∀ inode : VfsInode, inode.info = ctx.infoOf call →
        inode.declaration = d.part call := by
      intro inode hinfo
      rw [VfsInode.declaration_congr (b := newInode call.1
        (if call.2 then ctx.leafTargetPath else none) (if call.2 then ctx.leafFlagsSet else 0)
        (if call.2 then ctx.leafFlagsReset else 0) ctx.previous none) hinfo]
      unfold Declaration.part
      rw [← htarget, ← hset, ← hreset]
      cases call.2 <;> rfl
    refine ⟨?_, hadds, ?_, hone.extends.refsBelow h.refsBelow, h.leaf⟩
    · dsimp only
      rw [hone.declarations h.refsBelow hpart, h.table, hadds, List.map_append, List.append_assoc]
      cases one.2 <;> rfl
    · rw [h.world, h.parent, htarget]

theorem runCalls_tracks {d : Declaration} {vfs : Vfs} (calls : List (CStr × Bool))
    {walk : AddingWalk} {ctx : VfsInodeAddingCtx} {w : World} (h : walk.Tracks d vfs ctx w)
    (os : Os) :
    Exec.IfReturns (runCalls vfsAddInodeSplitter calls ctx) os w fun ctx' w' =>
      (calls.foldl (AddingWalk.visit d.targetPath.isSome vfs.storedPaths) walk).Tracks d vfs ctx'
        w' := by
  induction calls generalizing walk ctx w with
  | nil => exact .pure h
  | cons call calls ih =>
    refine Exec.IfReturns.bind (vfsAddInodeSplitter_run ctx call os w) ?_
    rintro ⟨ok, ctx'⟩ w' ⟨rfl, hvisit⟩
    exact ih (h.visit hvisit)

/-! ## Calls -/

/-- The inode of a declaration is in the table. -/
def Vfs.HasLeaf (vfs : Vfs) (d : Declaration) : Prop :=
  ∃ r ∈ vfs.inode.data, (vfs.deref r).declaration = d.stored

theorem Vfs.hasLeaf_iff {vfs : Vfs} {d : Declaration} :
    vfs.HasLeaf d ↔ d.stored ∈ vfs.declarations := by
  unfold Vfs.declarations
  rw [List.mem_map]
  exact Iff.rfl

/-- What an accepted call leaves in the table. -/
theorem Declaration.add_hasLeaf {d : Declaration} {vfs : Vfs} (hacc : d.Accepted vfs)
    (hrefs : vfs.RefsBelow) (os : Os) (w : World) :
    Exec.IfReturns (d.add vfs) os w fun r _ =>
      r.1 = true ∧ (r.2.HasLeaf d ↔ vfs.HasLeaf d ∨ d.AddsLeaf vfs w) := by
  intro r w' hrun
  rw [d.add_walked hacc] at hrun
  obtain ⟨⟨ctx, w1⟩, hwalk, heq⟩ := Option.map_eq_some_iff.mp hrun
  obtain ⟨rfl, -⟩ := Prod.mk.inj heq
  -- the walk starts with nothing added and no parent, as `vfs_add_inode` does
  have hstart : AddingWalk.Tracks { world := w } d vfs (d.ctx vfs) w :=
    ⟨(List.append_nil _).symm, rfl, rfl, hrefs, rfl, rfl, rfl⟩
  have htracks := runCalls_tracks (splitCalls d.virtualPath) hstart os ctx w1 hwalk
  refine ⟨rfl, ?_⟩
  show ctx.vfs.HasLeaf d ↔ _
  rw [Vfs.hasLeaf_iff, htracks.table, List.mem_append, ← Vfs.hasLeaf_iff, List.mem_map]
  apply or_congr Iff.rfl
  apply exists_congr
  intro call
  rw [Declaration.part_eq_stored]
  exact Iff.rfl

/-- The answer is true to the table: the inode is there, or nothing has been changed. -/
structure AddAtomic (vfs : Vfs) (d : Declaration) (ok : Bool) (vfs' : Vfs) : Prop where
  added : ok = true → vfs'.HasLeaf d
  unchanged : ok = false → vfs'.inode = vfs.inode ∧ vfs'.heap = vfs.heap

end Umsftpd
