import Umsftpd.Vfs.Runs

/-!
# Adding inodes whichever allocations fail

`vfs_add_single_inode` has an exit for each of its allocations, and behind the first of them the
name of the inode is in the list of its parent already. `vfs_add_inode_splitter` goes on after an
exit, with no parent for the next inode. What a call leaves is an extension of the table in any
case.
-/

namespace Umsftpd

open CLib

/-! ## One inode -/

/-- The same inodes, up to the names of their children. -/
structure Vfs.SameNodes (vfs vfs' : Vfs) : Prop where
  table : vfs'.inode = vfs.inode
  cwd : vfs'.cwd = vfs.cwd
  handles : vfs'.handles = vfs.handles
  next : vfs'.heap.next = vfs.heap.next
  info : ∀ s, (vfs'.deref s).info = (vfs.deref s).info

theorem Vfs.SameNodes.refl (vfs : Vfs) : vfs.SameNodes vfs := ⟨rfl, rfl, rfl, rfl, fun _ => rfl⟩

theorem Vfs.SameNodes.setSubdirs (vfs : Vfs) (r : InodeRef) (subdirs : Option StringList) :
    vfs.SameNodes (vfs.setSubdirs r subdirs) := by
  refine ⟨rfl, rfl, rfl, rfl, fun s => ?_⟩
  by_cases h : s = r
  · subst h
    rw [Vfs.deref_setSubdirs_self]
    rfl
  · rw [Vfs.deref_setSubdirs_of_ne vfs r subdirs h]

/-- The copies that `vfs_add_single_inode` makes, of the path and of the target if there is one, and
the inode itself. -/
def CLib.World.copies (w : World) (target : Bool) : Bool :=
  w.outcome 0 && (!target || w.outcome 1) && w.outcome (1 + target.toNat)

/-- How many allocations an insertion into the list of a parent takes. -/
def CLib.World.insertions (w : World) (parent : Bool) (i : Nat) : Nat :=
  if parent then 1 + (w.outcome i).toNat else 0

/-- All that `vfs_add_single_inode` needs: the copies, and the place in the table. The name in the
list of the parent and the list of the inode, which come between, are not looked at. -/
def CLib.World.addsInode (w : World) (target parent : Bool) : Bool :=
  w.copies target &&
    w.outcome (2 + target.toNat + w.insertions parent (2 + target.toNat) + 1)

/-- How many allocations `vfs_add_single_inode` takes. -/
def CLib.World.spent (w : World) (target parent : Bool) : Nat :=
  if !w.outcome 0 then 1
  else if target && !w.outcome 1 then 2
  else if !w.outcome (1 + target.toNat) then 2 + target.toNat
  else 4 + target.toNat + w.insertions parent (2 + target.toNat)

section Outcomes

variable {w : World} {target : Bool}

theorem CLib.World.spent_path (hpath : w.outcome 0 = false) (parent : Bool) :
    w.copies target = false ∧ w.spent target parent = 1 := by
  unfold copies spent
  rw [hpath]
  exact ⟨rfl, rfl⟩

theorem CLib.World.spent_target (hpath : w.outcome 0 = true)
    (htarget : (!target || w.outcome 1) = false) (parent : Bool) :
    w.copies target = false ∧ w.spent target parent = 1 + target.toNat := by
  obtain ⟨rfl, hone⟩ : target = true ∧ w.outcome 1 = false := by simpa using htarget
  unfold copies spent
  rw [hpath, hone]
  exact ⟨rfl, rfl⟩

theorem CLib.World.spent_inode (hpath : w.outcome 0 = true)
    (htarget : (!target || w.outcome 1) = true) (hinode : w.outcome (1 + target.toNat) = false)
    (parent : Bool) :
    w.copies target = false ∧ w.spent target parent = 2 + target.toNat := by
  have hcopied : (target && !w.outcome 1) = false := by
    simpa [imp_iff_not_or] using htarget
  unfold copies spent
  rw [hpath, hinode, hcopied, Bool.and_false]
  exact ⟨rfl, rfl⟩

theorem CLib.World.spent_all (hpath : w.outcome 0 = true)
    (htarget : (!target || w.outcome 1) = true) (hinode : w.outcome (1 + target.toNat) = true)
    (parent : Bool) :
    w.copies target = true ∧ w.spent target parent =
      4 + target.toNat + w.insertions parent (2 + target.toNat) := by
  have hcopied : (target && !w.outcome 1) = false := by
    simpa [imp_iff_not_or] using htarget
  unfold copies spent
  rw [hpath, hinode, hcopied, htarget]
  exact ⟨rfl, rfl⟩

end Outcomes

theorem CLib.World.insertions_used (w : World) (parent : Bool) (n i : Nat) :
    (w.used n).insertions parent i = w.insertions parent (n + i) := by
  unfold insertions
  rw [World.outcome_used]

theorem stringlistInsert_run (list : Option StringList) (string : CStr) (os : Os) (w : World) :
    Exec.IfReturns (stringlistInsert list string) os w fun _ w' =>
      w' = w.used (w.insertions true 0) := by
  apply Exec.IfReturns.malloc
  cases hstrdup : w.outcome 0 with
  | false =>
    refine .pure ?_
    rw [World.insertions, hstrdup, World.allocated_eq_used]
    rfl
  | true =>
    apply Exec.IfReturns.checked
    intro list _
    apply Exec.IfReturns.malloc
    have hused : w.allocated.allocated = w.used (w.insertions true 0) := by
      rw [World.insertions, hstrdup, World.allocated_eq_used, World.allocated_eq_used,
        World.used_used]
      rfl
    split
    · exact .pure hused
    · exact .pure hused

theorem stringlistNew_run (os : Os) (w : World) :
    Exec.IfReturns stringlistNew os w fun _ w' => w' = w.used 1 := by
  apply Exec.IfReturns.malloc
  split
  · exact .pure w.allocated_eq_used
  · exact .pure w.allocated_eq_used

theorem vfsInsertSubdir_run (vfs : Vfs) (vpathCopy : CStr) (parent : Option InodeRef) (os : Os)
    (w : World) :
    Exec.IfReturns (vfsInsertSubdir vfs vpathCopy parent) os w fun vfs' w' =>
      vfs.SameNodes vfs' ∧ (parent.isSome = true → '/' ∈ vpathCopy) ∧
        w' = w.used (w.insertions parent.isSome 0) := by
  cases parent with
  | none => exact .pure ⟨.refl vfs, nofun, w.used_zero.symm⟩
  | some parent =>
    apply Exec.IfReturns.checked
    intro name hname
    refine Exec.IfReturns.bind (stringlistInsert_run _ name os w) ?_
    rintro ⟨ok, subdirs⟩ w' hused
    refine .pure ⟨.setSubdirs vfs parent subdirs, fun _ => ?_, hused⟩
    by_contra hslash
    rw [constBasename, afterLast, if_neg hslash] at hname
    exact absurd hname (by simp)

/-- What comes of the creation of one inode: none, with the table as it was, or one at its end. -/
structure SingleRun (vfs : Vfs) (info : NodeInfo) (w : World) (r : Vfs × Option InodeRef) :
    Prop where
  settings : vfs.SameSettings r.1
  data : r.1.inode.data = vfs.inode.data ++ r.2.toList
  next_le : vfs.heap.next ≤ r.1.heap.next
  info_old : ∀ s < vfs.heap.next, (r.1.deref s).info = (vfs.deref s).info
  created : ∀ s, r.2 = some s → s = vfs.heap.next ∧ s < r.1.heap.next ∧ (r.1.deref s).info = info
  created_iff : r.2.isSome = w.addsInode info.targetPath.isSome info.parent.isSome
  named : info.parent.isSome = true → w.copies info.targetPath.isSome = true →
    '/' ∈ info.virtualPath

/-- An exit without an inode. -/
theorem SingleRun.exit {vfs vfs' : Vfs} {info : NodeInfo} {w : World} (h : vfs.SameNodes vfs')
    (hnamed : info.parent.isSome = true → w.copies info.targetPath.isSome = true →
      '/' ∈ info.virtualPath)
    (hw : w.addsInode info.targetPath.isSome info.parent.isSome = false) (code : VfsInternalError)
    (msg : CStr) : SingleRun vfs info w (vfsSetError vfs' code msg, none) where
  settings := ⟨congrArg _ h.table, congrArg _ h.table, h.cwd, h.handles⟩
  data := (congrArg _ h.table).trans (List.append_nil _).symm
  next_le := h.next.ge
  info_old s _ := h.info s
  created := nofun
  created_iff := hw.symm
  named := hnamed

/-- An exit before the copies are made. -/
theorem SingleRun.noCopies {vfs : Vfs} {info : NodeInfo} {w : World}
    (hcopies : w.copies info.targetPath.isSome = false) (code : VfsInternalError) (msg : CStr) :
    SingleRun vfs info w (vfsSetError vfs code msg, none) := by
  refine .exit (.refl vfs) (fun _ h => absurd (hcopies.symm.trans h) (by simp)) ?_ code msg
  rw [World.addsInode, hcopies, Bool.false_and]

/-- The inode is at the end of the table. -/
theorem SingleRun.link {vfs vfs' : Vfs} {inode : VfsInode} {info : NodeInfo} {w : World}
    (h : vfs.SameNodes vfs') (hinfo : inode.info = info)
    (hnamed : info.parent.isSome = true → '/' ∈ info.virtualPath)
    (hw : w.addsInode info.targetPath.isSome info.parent.isSome = true) :
    SingleRun vfs info w ((vfs'.link inode).1, some (vfs'.link inode).2) where
  settings := by
    refine ⟨?_, ?_, h.cwd, h.handles⟩
    · show vfs'.inode.baseFlags = _
      rw [h.table]
    · show vfs'.inode.frozen = _
      rw [h.table]
  data := by
    show vfs'.inode.data ++ [vfs'.heap.next] = vfs.inode.data ++ [vfs'.heap.next]
    rw [h.table]
  next_le := h.next.ge.trans (Nat.le_succ _)
  info_old s hs := by
    rw [Vfs.deref_link_of_lt vfs' inode (h.next.symm ▸ hs)]
    exact h.info s
  created := by
    rintro s ⟨⟩
    exact ⟨h.next, Nat.lt_succ_self _,
      (congrArg VfsInode.info (Vfs.deref_link_new vfs' inode)).trans hinfo⟩
  created_iff := hw.symm
  named hparent _ := hnamed hparent

/-- The target is copied only where there is one. -/
theorem targetCopy_run (targetPath : Option CStr) (os : Os) (w : World) :
    Exec.IfReturns (if targetPath.isSome then Exec.malloc else pure true) os (w.used 1)
      fun ok w' => ok = (!targetPath.isSome || w.outcome 1) ∧
        w' = w.used (1 + targetPath.isSome.toNat) := by
  cases targetPath with
  | none => exact .pure ⟨rfl, rfl⟩
  | some target =>
    refine .of_run (Exec.malloc_run os _) ⟨?_, ?_⟩
    · rw [World.outcome_used]
      rfl
    · rw [World.allocated_eq_used, World.used_used]
      rfl

theorem vfsAddSingleInode_run (vfs : Vfs) (virtualPath : CStr) (targetPath : Option CStr)
    (flagsSet flagsReset : Flags) (parent : Option InodeRef) (os : Os) (w : World) :
    Exec.IfReturns (vfsAddSingleInode vfs virtualPath targetPath flagsSet flagsReset parent) os w
      fun r w' => SingleRun vfs
        (newInode virtualPath targetPath flagsSet flagsReset parent none).info w r ∧
          w' = w.used (w.spent targetPath.isSome parent.isSome) := by
  have hsome : (newInode virtualPath targetPath flagsSet flagsReset parent
      none).info.targetPath.isSome = targetPath.isSome := Option.isSome_map
  unfold vfsAddSingleInode
  apply Exec.IfReturns.malloc
  rw [World.allocated_eq_used]
  cases hpath : w.outcome 0 with
  | false =>
    obtain ⟨hcopies, hspent⟩ := World.spent_path hpath parent.isSome
    exact .pure ⟨.noCopies (hsome ▸ hcopies) _ _, by rw [hspent]⟩
  | true =>
  simp only [Bool.not_true, Bool.false_eq_true, if_false]
  refine Exec.IfReturns.ite_bind (targetCopy_run targetPath os w) ?_
  rintro ok w2 ⟨rfl, rfl⟩
  cases htarget : (!targetPath.isSome || w.outcome 1) with
  | false =>
    obtain ⟨hcopies, hspent⟩ := World.spent_target hpath htarget parent.isSome
    exact .pure ⟨.noCopies (hsome ▸ hcopies) _ _, by rw [hspent]⟩
  | true =>
  simp only [Bool.not_true, Bool.false_eq_true, if_false]
  apply Exec.IfReturns.malloc
  rw [World.outcome_used, World.allocated_eq_used, World.used_used, Nat.add_zero]
  cases hinode : w.outcome (1 + targetPath.isSome.toNat) with
  | false =>
    obtain ⟨hcopies, hspent⟩ := World.spent_inode hpath htarget hinode parent.isSome
    exact .pure ⟨.noCopies (hsome ▸ hcopies) _ _, by rw [hspent]; congr 1; omega⟩
  | true =>
  obtain ⟨hcopies, hspent⟩ := World.spent_all hpath htarget hinode parent.isSome
  simp only [Bool.not_true, Bool.false_eq_true, if_false]
  -- the parent keeps the name, even if there is no place for the inode in the end
  refine Exec.IfReturns.bind (vfsInsertSubdir_run vfs _ parent os _) ?_
  rintro vfs' w3 ⟨hsame, hnamed, rfl⟩
  refine Exec.IfReturns.bind (stringlistNew_run os _) ?_
  rintro subdirs _ rfl
  apply Exec.IfReturns.malloc
  have hcount : 1 + targetPath.isSome.toNat + 1 = 2 + targetPath.isSome.toNat := by omega
  rw [World.insertions_used, World.used_used, World.used_used, World.allocated_eq_used,
    World.used_used, World.outcome_used, Nat.add_zero, Nat.add_zero, hcount]
  have hused : w.used (2 + targetPath.isSome.toNat + (w.insertions parent.isSome
      (2 + targetPath.isSome.toNat) + 1) + 1) =
        w.used (w.spent targetPath.isSome parent.isSome) := by
    rw [hspent]
    congr 1
    omega
  cases hplace : w.outcome (2 + targetPath.isSome.toNat +
      (w.insertions parent.isSome (2 + targetPath.isSome.toNat) + 1)) with
  | false =>
    refine .pure ⟨.exit hsame (fun hparent _ => hnamed hparent) ?_ _ _, hused⟩
    show w.addsInode _ parent.isSome = false
    rw [hsome, World.addsInode, hcopies, Nat.add_assoc, hplace]
    rfl
  | true =>
    refine .pure ⟨.link hsame rfl hnamed ?_, hused⟩
    show w.addsInode _ parent.isSome = true
    rw [hsome, World.addsInode, hcopies, Nat.add_assoc, hplace]
    rfl

/-! ## Extensions -/

/-- The inodes of the table are allocated. -/
def Vfs.RefsBelow (vfs : Vfs) : Prop := ∀ r ∈ vfs.inode.data, r < vfs.heap.next

/-- A table with more inodes, and the old ones as they were, up to the names of their children. -/
structure Vfs.Extends (vfs vfs' : Vfs) : Prop where
  settings : vfs.SameSettings vfs'
  data : vfs.inode.data <+: vfs'.inode.data
  next_le : vfs.heap.next ≤ vfs'.heap.next
  info_old : ∀ s < vfs.heap.next, (vfs'.deref s).info = (vfs.deref s).info
  refsBelow : vfs.RefsBelow → vfs'.RefsBelow

theorem Vfs.Extends.refl (vfs : Vfs) : vfs.Extends vfs :=
  ⟨.refl vfs, List.prefix_rfl, le_rfl, fun _ _ => rfl, id⟩

theorem Vfs.Extends.trans {vfs1 vfs2 vfs3 : Vfs} (h : vfs1.Extends vfs2) (h' : vfs2.Extends vfs3) :
    vfs1.Extends vfs3 where
  settings := h.settings.trans h'.settings
  data := h.data.trans h'.data
  next_le := h.next_le.trans h'.next_le
  info_old s hs := (h'.info_old s (hs.trans_le h.next_le)).trans (h.info_old s hs)
  refsBelow hrefs := h'.refsBelow (h.refsBelow hrefs)

theorem Vfs.Extends.setError (vfs : Vfs) (code : VfsInternalError) (msg : CStr) :
    vfs.Extends (vfsSetError vfs code msg) :=
  ⟨⟨rfl, rfl, rfl, rfl⟩, List.prefix_rfl, le_rfl, fun _ _ => rfl, id⟩

theorem SingleRun.extends {vfs : Vfs} {info : NodeInfo} {w : World} {r : Vfs × Option InodeRef}
    (h : SingleRun vfs info w r) : vfs.Extends r.1 where
  settings := h.settings
  data := h.data ▸ List.prefix_append _ _
  next_le := h.next_le
  info_old := h.info_old
  refsBelow hrefs s hs := by
    rw [h.data] at hs
    rcases List.mem_append.mp hs with hold | hnew
    · exact (hrefs s hold).trans_le h.next_le
    · exact (h.created s (Option.mem_toList.mp hnew)).2.1

/-! ## The walk -/

/-- What the inode for a part says that is created below the last one. -/
def VfsInodeAddingCtx.infoOf (ctx : VfsInodeAddingCtx) (call : CStr × Bool) : NodeInfo :=
  (newInode call.1 (if call.2 then ctx.leafTargetPath else none)
    (if call.2 then ctx.leafFlagsSet else 0) (if call.2 then ctx.leafFlagsReset else 0)
    ctx.previous none).info

/-- What comes of a callback: the inode that is found, or what comes of the creation of one. -/
inductive VisitRun (ctx : VfsInodeAddingCtx) (call : CStr × Bool) (w : World) :
    VfsInodeAddingCtx → World → Prop
  | found {r : InodeRef} (hfind : vfsFindInode ctx.vfs call.1 = some r) :
      VisitRun ctx call w { ctx with previous := some r } w
  | missing {one : Vfs × Option InodeRef} (hfind : vfsFindInode ctx.vfs call.1 = none)
      (hone : SingleRun ctx.vfs (ctx.infoOf call) w one) :
      VisitRun ctx call w { ctx with vfs := one.1, previous := one.2 }
        (w.used (w.spent (call.2 && ctx.leafTargetPath.isSome) ctx.previous.isSome))

theorem VisitRun.extends {ctx ctx' : VfsInodeAddingCtx} {call : CStr × Bool} {w w' : World}
    (h : VisitRun ctx call w ctx' w') : ctx.vfs.Extends ctx'.vfs := by
  cases h with
  | found hfind => exact .refl _
  | missing hfind hone => exact hone.extends

theorem vfsAddInodeSplitter_run (ctx : VfsInodeAddingCtx) (call : CStr × Bool) (os : Os)
    (w : World) :
    Exec.IfReturns (vfsAddInodeSplitter call.1 call.2 ctx) os w fun r w' =>
      r.1 = true ∧ VisitRun ctx call w r.2 w' := by
  unfold vfsAddInodeSplitter
  cases hfind : vfsFindInode ctx.vfs call.1 with
  | some r => exact .pure ⟨rfl, .found hfind⟩
  | none =>
    obtain ⟨part, isFullPath⟩ := call
    cases isFullPath with
    | false =>
      refine Exec.IfReturns.bind (vfsAddSingleInode_run ctx.vfs part none 0 0 ctx.previous os w) ?_
      rintro one _ ⟨hone, rfl⟩
      exact .pure ⟨rfl, .missing hfind hone⟩
    | true =>
      refine Exec.IfReturns.bind (vfsAddSingleInode_run ctx.vfs part ctx.leafTargetPath
        ctx.leafFlagsSet ctx.leafFlagsReset ctx.previous os w) ?_
      rintro one _ ⟨hone, rfl⟩
      exact .pure ⟨rfl, .missing hfind hone⟩

/-- The callback lets the walk go on, so calls can be made in two parts. -/
theorem runCalls_append (calls calls' : List (CStr × Bool)) (ctx : VfsInodeAddingCtx) (os : Os)
    (w : World) :
    runCalls vfsAddInodeSplitter (calls ++ calls') ctx os w =
      (runCalls vfsAddInodeSplitter calls ctx os w).bind fun r =>
        runCalls vfsAddInodeSplitter calls' r.1 os r.2 := by
  induction calls generalizing ctx w with
  | nil => rfl
  | cons call calls ih =>
    rw [List.cons_append, runCalls, runCalls, Exec.bind_apply, Exec.bind_apply, Option.bind_assoc]
    apply Option.bind_congr
    rintro ⟨⟨ok, ctx'⟩, w'⟩ hvisit
    -- the callback never stops the walk, even if its inode could not be created
    obtain ⟨rfl, -⟩ : ok = true ∧ _ := vfsAddInodeSplitter_run ctx call os w _ w' hvisit
    exact ih ctx' w'

/-- What every callback preserves holds after the walk. -/
theorem runCalls_preserves {P : VfsInodeAddingCtx → World → Prop} {os : Os}
    {calls : List (CStr × Bool)}
    (hstep : ∀ ctx ctx' w w', ∀ call ∈ calls, P ctx w → VisitRun ctx call w ctx' w' → P ctx' w')
    {ctx : VfsInodeAddingCtx} {w : World} (hP : P ctx w) :
    Exec.IfReturns (runCalls vfsAddInodeSplitter calls ctx) os w P := by
  induction calls generalizing ctx w with
  | nil => exact .pure hP
  | cons call calls ih =>
    refine Exec.IfReturns.bind (vfsAddInodeSplitter_run ctx call os w) ?_
    rintro ⟨ok, ctx'⟩ w' ⟨rfl, hvisit⟩
    refine ih ?_ (hstep ctx ctx' w w' call List.mem_cons_self hP hvisit)
    exact fun c c' w w' k hk => hstep c c' w w' k (List.mem_cons_of_mem _ hk)

theorem runCalls_extends (calls : List (CStr × Bool)) (ctx : VfsInodeAddingCtx) (os : Os)
    (w : World) :
    Exec.IfReturns (runCalls vfsAddInodeSplitter calls ctx) os w fun ctx' _ =>
      ctx.vfs.Extends ctx'.vfs :=
  runCalls_preserves (P := fun ctx' _ => ctx.vfs.Extends ctx'.vfs)
    (fun _ _ _ _ _ _ hctx hvisit => hctx.trans hvisit.extends) (.refl _)

/-! ## Calls -/

/-- What a call answers, and what it leaves: refused with an error, or accepted. -/
theorem Declaration.add_run (d : Declaration) (vfs : Vfs) (os : Os) (w : World) :
    Exec.IfReturns (d.add vfs) os w fun r _ =>
      (r.1 = true ∧ d.Accepted vfs ∧ vfs.Extends r.2) ∨
      (r.1 = false ∧ ¬d.Accepted vfs ∧ ∃ code msg, r.2 = vfsSetError vfs code msg) := by
  by_cases h : d.Accepted vfs
  · intro r w' hrun
    rw [add_walked h] at hrun
    obtain ⟨⟨ctx, w1⟩, hwalk, heq⟩ := Option.map_eq_some_iff.mp hrun
    obtain ⟨rfl, -⟩ := Prod.mk.inj heq
    exact .inl ⟨rfl, h, runCalls_extends _ _ os w ctx w1 hwalk⟩
  · obtain ⟨code, msg, hrun⟩ := add_rejected h os w
    exact .of_run hrun (.inr ⟨rfl, h, code, msg, rfl⟩)

theorem Declaration.add_extends (d : Declaration) (vfs : Vfs) (os : Os) (w : World) :
    Exec.IfReturns (d.add vfs) os w fun r _ => vfs.Extends r.2 := by
  refine (d.add_run vfs os w).mono fun r w' h => ?_
  rcases h with ⟨-, -, h⟩ | ⟨-, -, code, msg, h⟩
  · exact h
  · rw [h]
    exact .setError vfs code msg

/-- Which allocations fail does not show in the answer. -/
theorem Declaration.add_answer (d : Declaration) (vfs : Vfs) (os : Os) (w : World) :
    Exec.IfReturns (d.add vfs) os w fun r _ => r.1 = true ↔ d.Accepted vfs := by
  refine (d.add_run vfs os w).mono fun r w' h => ?_
  rcases h with ⟨hok, hacc, -⟩ | ⟨hok, hrej, -⟩
  · exact iff_of_true hok hacc
  · exact iff_of_false (by simp [hok]) hrej

/-- A refused call changes nothing but the error. -/
theorem Declaration.add_rejected_unchanged {d : Declaration} {vfs : Vfs}
    (hrej : ¬d.Accepted vfs) (os : Os) (w : World) :
    Exec.IfReturns (d.add vfs) os w fun r _ =>
      r.1 = false ∧ r.2.inode = vfs.inode ∧ r.2.heap = vfs.heap := by
  refine (d.add_run vfs os w).mono fun r w' h => ?_
  rcases h with ⟨-, hacc, -⟩ | ⟨hok, -, code, msg, hvfs⟩
  · exact absurd hacc hrej
  · rw [hvfs]
    exact ⟨hok, rfl, rfl⟩

end Umsftpd
