import Umsftpd.Vfs.Handles

/-!
# The table after it is frozen

`vfs_freeze_inodes` sorts the table and sets `inode.frozen`, without which `vfs_lookup` refuses to
look anything up. `vfs_add_inode` does not read that field: it puts an inode at the end of a frozen
table as of any other. So the table stays sorted, and what it was, as long as nothing is added.
-/

namespace Umsftpd

open CLib

/-! ## Calls on the table -/

/-- A call that fills, freezes or reads the table. -/
inductive TableCall where
  | add (d : Declaration) (ok : Bool)
  | freeze
  | lookup (path : CStr)

/-- One call that returns, whichever allocations fail. -/
inductive TableStep : Vfs → TableCall → Vfs → Prop
  | add {vfs vfs' : Vfs} (d : Declaration) (os : Os) (w w' : World) (ok : Bool)
      (h : d.add vfs os w = some ((ok, vfs'), w')) : TableStep vfs (.add d ok) vfs'
  | freeze (libc : LibC) (vfs : Vfs) : TableStep vfs .freeze (vfsFreezeInodes libc vfs)
  | lookup (vfs : Vfs) (path : CStr) : TableStep vfs (.lookup path) (vfsLookup vfs path).1

/-- A call with the states around it. -/
structure TableEvent where
  before : Vfs
  call : TableCall
  after : Vfs

/-- A run with the states around each of its calls. -/
inductive TableRun (start : Vfs) : List TableEvent → Vfs → Prop
  | start : TableRun start [] start
  | step {events : List TableEvent} {vfs vfs' : Vfs} {call : TableCall}
      (hrun : TableRun start events vfs) (hstep : TableStep vfs call vfs') :
      TableRun start (events ++ [⟨vfs, call, vfs'⟩]) vfs'

theorem TableRun.steps {start vfs : Vfs} {events : List TableEvent}
    (hrun : TableRun start events vfs) : ∀ e ∈ events, TableStep e.before e.call e.after := by
  induction hrun with
  | start => simp
  | step hrun hstep ih => exact List.forall_mem_append.mpr ⟨ih, by simpa using hstep⟩

/-! ## What frozen means -/

/-- The table is in the order that `vfs_freeze_inodes` puts it in. -/
def Vfs.Sorted (vfs : Vfs) : Prop :=
  vfs.inode.data.Pairwise fun a b =>
    strcmp (vfs.deref a).virtualPath (vfs.deref b).virtualPath ≠ .gt

/-- The same inodes are in both tables, with all that they say. -/
structure Vfs.HasInodesOf (vfs first : Vfs) : Prop where
  data : vfs.inode.data.Perm first.inode.data
  heap : vfs.heap = first.heap

/-- The first state of a run that is frozen. -/
def firstFrozen (events : List TableEvent) : Option Vfs :=
  (events.map TableEvent.after).find? fun vfs => vfs.inode.frozen

/-- Frozen means final: a frozen table is sorted and has the inodes it was frozen with, and nothing
can be added to it. -/
structure FrozenFinal (events : List TableEvent) : Prop where
  sorted : ∀ e ∈ events, e.after.inode.frozen = true → e.after.Sorted
  kept : ∀ e ∈ events, e.after.inode.frozen = true → ∀ first, firstFrozen events = some first →
    e.after.HasInodesOf first
  refused : ∀ e ∈ events, e.before.inode.frozen = true → ∀ d ok, e.call = .add d ok →
    ok = false ∧ e.after.inode = e.before.inode ∧ e.after.heap = e.before.heap

/-! ## One call -/

instance (vfs : Vfs) : Std.TransCmp (vfsInodeComparator vfs) where
  eq_swap {_ _} := @Std.OrientedCmp.eq_swap _ strcmp _ _ _
  isLE_trans {_ _ _} := @Std.TransCmp.isLE_trans _ strcmp _ _ _ _

theorem vfsFreezeInodes_sorted (libc : LibC) (vfs : Vfs) : (vfsFreezeInodes libc vfs).Sorted := by
  have hqsort : ∀ v : Vfs, v.heap = vfs.heap →
      (if v.inode.data.length ≠ 0 then libc.qsort (vfsInodeComparator v) v.inode.data
        else v.inode.data).Pairwise fun a b => vfsInodeComparator vfs a b ≠ .gt := by
    intro v hheap
    have hcmp : vfsInodeComparator v = vfsInodeComparator vfs := by
      unfold vfsInodeComparator Vfs.deref
      rw [hheap]
    -- an empty table is not sorted, and need not be
    split
    · rw [hcmp]
      exact libc.qsort_sorted (vfsInodeComparator vfs) v.inode.data
    · next hempty =>
      rw [List.length_eq_zero_iff.mp (not_not.mp hempty)]
      exact List.Pairwise.nil
  unfold Vfs.Sorted
  simp only [vfsFreezeInodes_deref]
  unfold vfsFreezeInodes
  split
  · exact hqsort (vfsSetError vfs _ _) rfl
  · exact hqsort vfs rfl

theorem vfsLookup_state (vfs : Vfs) (path : CStr) :
    (vfsLookup vfs path).1.inode = vfs.inode ∧ (vfsLookup vfs path).1.heap = vfs.heap := by
  unfold vfsLookup
  split
  · exact ⟨rfl, rfl⟩
  · split
    · exact ⟨rfl, rfl⟩
    · exact ⟨rfl, rfl⟩

/-- A frozen state with the inodes of the first one. -/
structure Vfs.FrozenAs (vfs first : Vfs) : Prop where
  frozen : vfs.inode.frozen = true
  sorted : vfs.Sorted
  inodes : vfs.HasInodesOf first

/-- The call does not add to a frozen table. -/
def TableCall.Permitted (call : TableCall) (vfs : Vfs) : Prop :=
  vfs.inode.frozen = true → ∀ d ok, call = .add d ok → ¬d.Accepted vfs

/-- Only the table and its inodes matter. -/
theorem Vfs.FrozenAs.congr {vfs vfs' first : Vfs} (h : vfs.FrozenAs first)
    (hinode : vfs'.inode = vfs.inode) (hheap : vfs'.heap = vfs.heap) : vfs'.FrozenAs first where
  frozen := by rw [hinode, h.frozen]
  sorted := by
    have hsorted := h.sorted
    unfold Vfs.Sorted Vfs.deref at hsorted ⊢
    rwa [hinode, hheap]
  inodes := ⟨hinode ▸ h.inodes.data, hheap.trans h.inodes.heap⟩

/-- A permitted call on a frozen table leaves it frozen, as it was. -/
theorem TableStep.frozenAs {vfs vfs' first : Vfs} {call : TableCall}
    (hstep : TableStep vfs call vfs') (hcall : call.Permitted vfs) (h : vfs.FrozenAs first) :
    vfs'.FrozenAs first := by
  cases hstep with
  | add d os w w' ok hadd =>
    have hrej := hcall h.frozen d ok rfl
    obtain ⟨-, hinode, hheap⟩ := Declaration.add_rejected_unchanged hrej os w _ w' hadd
    exact h.congr hinode hheap
  | freeze libc vfs =>
    refine ⟨vfsFreezeInodes_frozen libc vfs, vfsFreezeInodes_sorted libc vfs, ?_, ?_⟩
    · exact (vfsFreezeInodes_data_perm libc vfs).trans h.inodes.data
    · exact (vfsFreezeInodes_heap libc vfs).trans h.inodes.heap
  | lookup vfs path => exact h.congr (vfsLookup_state vfs path).1 (vfsLookup_state vfs path).2

/-- Only freezing makes a table frozen, and it sorts it. -/
theorem TableStep.freezes {vfs vfs' : Vfs} {call : TableCall} (hstep : TableStep vfs call vfs')
    (hopen : vfs.inode.frozen = false) (hfrozen : vfs'.inode.frozen = true) :
    vfs'.FrozenAs vfs' := by
  cases hstep with
  | add d os w w' ok hadd =>
    have hsame := (d.add_extends vfs os w _ w' hadd).settings.frozen
    rw [hopen, hfrozen] at hsame
    exact absurd hsame (by simp)
  | freeze libc vfs => exact ⟨hfrozen, vfsFreezeInodes_sorted libc vfs, .refl _, rfl⟩
  | lookup vfs path =>
    rw [(vfsLookup_state vfs path).1, hopen] at hfrozen
    exact absurd hfrozen (by simp)

/-! ## Runs -/

theorem firstFrozen_concat (events : List TableEvent) (e : TableEvent) :
    firstFrozen (events ++ [e]) =
      (firstFrozen events).or (if e.after.inode.frozen = true then some e.after else none) := by
  unfold firstFrozen
  rw [List.map_append, List.find?_append]
  cases h : e.after.inode.frozen <;> simp [h]

/-- The state that a run of permitted calls leaves: not frozen, and it has never been, or as it was
when it first was. -/
def FrozenSince (events : List TableEvent) (vfs : Vfs) : Prop :=
  (vfs.inode.frozen = false ∧ firstFrozen events = none) ∨
    ∃ first, firstFrozen events = some first ∧ vfs.FrozenAs first

/-- The step of the invariant. -/
theorem FrozenSince.step {events : List TableEvent} {e : TableEvent}
    (h : FrozenSince events e.before) (hstep : TableStep e.before e.call e.after)
    (hcall : e.call.Permitted e.before) : FrozenSince (events ++ [e]) e.after := by
  unfold FrozenSince
  rw [firstFrozen_concat]
  rcases h with ⟨hopen, hnone⟩ | ⟨first, hfirst, hframe⟩
  · cases hfrozen : e.after.inode.frozen with
    | false => exact .inl ⟨rfl, by rw [hnone, if_neg (by simp)]; rfl⟩
    | true =>
      refine .inr ⟨e.after, ?_, hstep.freezes hopen hfrozen⟩
      rw [hnone, if_pos rfl]
      rfl
  · refine .inr ⟨first, ?_, hstep.frozenAs hcall hframe⟩
    rw [hfirst]
    rfl

/-- The states in between are what the last one is. -/
theorem TableRun.frozenSince {baseFlags : Flags} {events : List TableEvent} {vfs : Vfs}
    (hrun : TableRun (initialVfs baseFlags) events vfs)
    (hcalls : ∀ e ∈ events, e.call.Permitted e.before) :
    FrozenSince events vfs ∧ ∀ e ∈ events, e.after.inode.frozen = true →
      ∃ first, firstFrozen events = some first ∧ e.after.FrozenAs first := by
  induction hrun with
  | start => exact ⟨.inl ⟨rfl, rfl⟩, by simp⟩
  | @step events vfs vfs' call hrun hstep ih =>
    obtain ⟨hevents, hcall⟩ := List.forall_mem_append.mp hcalls
    obtain ⟨hsince, hold⟩ := ih hevents
    have hnext : FrozenSince (events ++ [⟨vfs, call, vfs'⟩]) vfs' :=
      FrozenSince.step (e := ⟨vfs, call, vfs'⟩) hsince hstep (hcall _ (List.mem_singleton_self _))
    refine ⟨hnext, List.forall_mem_append.mpr ⟨fun e he hfrozen => ?_, fun e he hfrozen => ?_⟩⟩
    · obtain ⟨first, hfirst, hframe⟩ := hold e he hfrozen
      refine ⟨first, ?_, hframe⟩
      rw [firstFrozen_concat, hfirst]
      rfl
    · obtain rfl := List.mem_singleton.mp he
      rcases hnext with ⟨hopen, -⟩ | hnext
      · exact absurd (hopen.symm.trans hfrozen) (by simp)
      · exact hnext

/-- **Frozen means final.** In a run of calls on the table, whichever allocations fail, a frozen
table stays what it was if and only if no call of `vfs_add_inode` that passes its tests is made on
it: nothing else refuses one. -/
theorem tableRun_frozenFinal_iff {baseFlags : Flags} {events : List TableEvent} {vfs : Vfs}
    (hrun : TableRun (initialVfs baseFlags) events vfs) :
    FrozenFinal events ↔ ∀ e ∈ events, e.before.inode.frozen = true → ∀ d ok,
      e.call = .add d ok → ¬d.Accepted e.before := by
  constructor
  · intro h e he hfrozen d ok hcall hacc
    -- what passes the tests is answered `true`, whatever becomes of it
    obtain ⟨rfl, -⟩ := h.refused e he hfrozen d ok hcall
    have hstep := hrun.steps e he
    rw [hcall] at hstep
    cases hstep with
    | add _ os w w' _ hadd =>
      exact absurd ((d.add_answer _ os w _ w' hadd).mpr hacc) Bool.false_ne_true
  · intro hcalls
    obtain ⟨-, hframe⟩ := hrun.frozenSince hcalls
    constructor
    · intro e he hfrozen
      obtain ⟨first, -, h⟩ := hframe e he hfrozen
      exact h.sorted
    · intro e he hfrozen first hfirst
      obtain ⟨first', hfirst', h⟩ := hframe e he hfrozen
      obtain rfl : first = first' := Option.some.inj (hfirst.symm.trans hfirst')
      exact h.inodes
    · intro e he hfrozen d ok hcall
      have hstep := hrun.steps e he
      rw [hcall] at hstep
      cases hstep with
      | add _ os w w' _ hadd =>
        exact Declaration.add_rejected_unchanged (hcalls e he hfrozen d ok hcall) os w _ w' hadd

/-- The root is added to a table that is frozen without it. -/
theorem tableRun_addsFrozen :
    ∃ events vfs, TableRun (initialVfs 0) events vfs ∧ vfs.inode.frozen = true ∧
      vfs.inode.data.length = 1 ∧ (firstFrozen events).map (·.inode.data) = some [] ∧
      ¬FrozenFinal events := by
  have hrun : ((rootOnly.add (vfsFreezeInodes LibC.reference (initialVfs 0))).eval Os.empty).map
      (fun added => (added.1, added.2.inode.frozen, added.2.inode.data.length)) =
      some (true, true, 1) := by
    decide
  obtain ⟨⟨ok, vfs⟩, hadd, heq⟩ := Option.map_eq_some_iff.mp hrun
  obtain ⟨rfl, hfrozen, hlen⟩ : ok = true ∧ vfs.inode.frozen = true ∧
      vfs.inode.data.length = 1 := by
    simpa using heq
  obtain ⟨⟨_, w⟩, hadd', rfl⟩ := Option.map_eq_some_iff.mp hadd
  refine ⟨_, vfs, .step (.step .start (.freeze LibC.reference _))
    (.add rootOnly Os.empty {} w true hadd'), hfrozen, hlen, rfl, fun h => ?_⟩
  have hrefused := h.refused _ (List.mem_append_right _ (List.mem_singleton_self _)) rfl
    rootOnly true rfl
  exact absurd hrefused.1 (by simp)

/-- It is final when the root is there before. -/
theorem tableRun_frozenFinal_rootOnly :
    ∃ events vfs, TableRun (initialVfs 0) events vfs ∧ vfs.inode.frozen = true ∧
      FrozenFinal events := by
  obtain ⟨vfs, -, hadd, -⟩ := rootOnly_opens
  obtain ⟨⟨_, w⟩, hadd', rfl⟩ := Option.map_eq_some_iff.mp hadd
  have hrun := (TableRun.start.step (.add rootOnly Os.empty {} w true hadd')).step
    (.freeze LibC.reference vfs)
  refine ⟨_, _, hrun, rfl, (tableRun_frozenFinal_iff hrun).mpr ?_⟩
  intro e he hfrozen d ok hcall
  rcases List.mem_append.mp he with he | he
  · obtain rfl := List.mem_singleton.mp he
    exact absurd hfrozen (by simp [initialVfs])
  · obtain rfl := List.mem_singleton.mp he
    exact absurd hcall (by simp)

end Umsftpd
