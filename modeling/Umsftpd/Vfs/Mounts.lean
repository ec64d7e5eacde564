import Umsftpd.Vfs.Lookup

/-!
# The mount table

What a configuration means: the declarations on the way to a path, from the root down, set and
reset flags one after the other, and the last of them that has a target is the mountpoint. The
order in which they were made matters to whether they are accepted and to nothing else.
-/

namespace Umsftpd

open CLib Paths

/-- The declarations at the path or above it, the shallowest first. -/
def declaredAncestors (ds : List CanonicalDeclaration) (cs : List Name) :
    List CanonicalDeclaration :=
  cs.inits.filterMap fun p => ds.find? fun d => decide (d.names = p)

/-! ## The tree of the declarations -/

theorem leafAt_entry (ds : List CanonicalDeclaration) (p : List Name) :
    PathTree.leafAt (ds.map CanonicalDeclaration.entry) p =
      (ds.find? fun d => decide (d.names = p)).map fun d => d.stored := by
  unfold PathTree.leafAt
  rw [List.find?_map, Option.map_map]
  rfl

/-- The inodes that are created on the way. -/
def gaps (ds : List CanonicalDeclaration) : PathTree Name Declaration := fun p =>
  if ∃ d ∈ ds, p <+: d.names then some (intermediate p) else none

theorem declareAll_entries {ds : List CanonicalDeclaration}
    (h : PathTree.Accepted intermediate (ds.map CanonicalDeclaration.entry) PathTree.empty) :
    (PathTree.declareAll intermediate (ds.map CanonicalDeclaration.entry) PathTree.empty).2 =
      fun p => ((ds.find? fun d => decide (d.names = p)).map fun d => d.stored).or (gaps ds p) := by
  funext p
  rw [PathTree.declareAll_apply intermediate h, leafAt_entry]
  simp [PathTree.empty, gaps, CanonicalDeclaration.entry]

theorem gaps_eq_some {ds : List CanonicalDeclaration} {p : List Name} {d : Declaration}
    (h : gaps ds p = some d) : d = intermediate p := by
  unfold gaps at h
  split at h
  · exact (Option.some.inj h).symm
  · exact absurd h (by simp)

theorem applyFlags_intermediate (flags : Flags) (cs : List Name) :
    applyFlags flags (intermediate cs) = flags := by
  show (flags ||| 0#32) &&& ~~~0#32 = flags
  rw [BitVec.or_zero, BitVec.not_zero, BitVec.and_allOnes]

/-- A lookup in the tree of accepted declarations. -/
theorem lookupIn_declareAll {ds : List CanonicalDeclaration}
    (h : PathTree.Accepted intermediate (ds.map CanonicalDeclaration.entry) PathTree.empty)
    (baseFlags : Flags) (cs : List Name) :
    lookupIn baseFlags
        (PathTree.declareAll intermediate (ds.map CanonicalDeclaration.entry) PathTree.empty).2 cs =
      { flags := (declaredAncestors ds cs).foldl (fun flags d => applyFlags flags d.toDeclaration)
          baseFlags
        inode := if ∃ d ∈ ds, cs <+: d.names then some (pathOf cs) else none
        mountpoint := ((declaredAncestors ds cs).filter fun d => d.targetPath.isSome).getLast?.map
          fun d => d.stored } := by
  rw [declareAll_entries h]
  unfold lookupIn
  ext1
  · show PathTree.inherit applyFlags baseFlags _ cs = _
    rw [PathTree.inherit_or, PathTree.inherit_comp]
    · rfl
    · intro p d hd flags
      rw [gaps_eq_some hd, applyFlags_intermediate]
  · show (((ds.find? fun d => decide (d.names = cs)).map fun d => d.stored).or
      (gaps ds cs)).map Declaration.virtualPath = if _ then _ else _
    cases hfind : ds.find? fun d => decide (d.names = cs) with
    | none =>
      rw [Option.map_none, Option.none_or]
      unfold gaps
      split <;> rfl
    | some d =>
      have hnames : d.names = cs := by simpa using List.find?_some hfind
      have hcovered : ∃ d ∈ ds, cs <+: d.names :=
        ⟨d, List.mem_of_find?_eq_some hfind, by rw [hnames]⟩
      rw [if_pos hcovered, ← hnames, ← truncateTrailingSlash_canonical d.canonical]
      rfl
  · show PathTree.inherit _ none _ cs = _
    rw [PathTree.inherit_or, PathTree.inherit_comp]
    · have hstep : ∀ (last : Option CanonicalDeclaration) (d : CanonicalDeclaration),
          (if d.targetPath.isSome then some d else last).map (fun d => d.stored) =
            if d.stored.targetPath.isSome then some d.stored else last.map fun d => d.stored := by
        intro last d
        cases ht : d.targetPath <;> simp [Declaration.stored, ht]
      have hmap := PathTree.inherit_map
        (fun last (d : CanonicalDeclaration) => if d.targetPath.isSome then some d else last)
        (fun last d => if d.stored.targetPath.isSome then some d.stored else last)
        (Option.map fun d => d.stored) hstep none
        (fun p => ds.find? fun d => decide (d.names = p)) cs
      rw [PathTree.inherit_last fun d : CanonicalDeclaration => d.targetPath.isSome] at hmap
      exact hmap.symm
    · intro p d hd last
      rw [gaps_eq_some hd]
      rfl

/-! ## Configurations -/

/-- What a configuration all of whose calls return `true` declares. -/
theorem declared_addAll {baseFlags : Flags} {ds : List CanonicalDeclaration} {os : Os}
    {oks : List Bool} {vfs : Vfs}
    (hrun : (addAll (ds.map (·.toDeclaration)) (initialVfs baseFlags)).eval os = some (oks, vfs)) :
    vfs.Tree ∧ vfs.inode.baseFlags = baseFlags ∧
    ((∀ ok ∈ oks, ok = true) ↔ (∀ d ∈ ds, d.TargetLegal) ∧
      PathTree.Accepted intermediate (ds.map CanonicalDeclaration.entry) PathTree.empty) ∧
    ((∀ ok ∈ oks, ok = true) → vfs.declared =
      (PathTree.declareAll intermediate (ds.map CanonicalDeclaration.entry) PathTree.empty).2) := by
  obtain ⟨oks', vfs', hall, htree, hoks, hdecl⟩ :=
    CanonicalDeclaration.addAll_tree ds (initialVfs_tree baseFlags) os []
  rw [Exec.eval, hall] at hrun
  obtain ⟨rfl, rfl⟩ : oks' = oks ∧ vfs' = vfs := by simpa using hrun
  exact ⟨htree, (Vfs.SameSettings.addAll hall).baseFlags, hoks, hdecl⟩

/-- The pairwise distinct places of accepted declarations. -/
theorem pairwise_names_of_accepted {ds : List CanonicalDeclaration}
    (h : PathTree.Accepted intermediate (ds.map CanonicalDeclaration.entry) PathTree.empty) :
    ds.Pairwise fun d e => ¬e.names <+: d.names := by
  have hpair := ((PathTree.declareAll_accepted intermediate).mp h).2
  rwa [List.pairwise_map] at hpair

/-- Two configurations with the same declarations declare the same tree. -/
theorem declareAll_perm {ds es : List CanonicalDeclaration} (hperm : es.Perm ds)
    (hds : PathTree.Accepted intermediate (ds.map CanonicalDeclaration.entry) PathTree.empty)
    (hes : PathTree.Accepted intermediate (es.map CanonicalDeclaration.entry) PathTree.empty) :
    (PathTree.declareAll intermediate (es.map CanonicalDeclaration.entry) PathTree.empty).2 =
      (PathTree.declareAll intermediate (ds.map CanonicalDeclaration.entry) PathTree.empty).2 := by
  have hdistinct : (es.map CanonicalDeclaration.entry).Pairwise fun d e => d.1 ≠ e.1 := by
    rw [List.pairwise_map]
    apply (pairwise_names_of_accepted hes).imp
    intro d e hpre heq
    exact hpre (by rw [show e.names = d.names from heq.symm])
  funext p
  rw [PathTree.declareAll_apply intermediate hes, PathTree.declareAll_apply intermediate hds,
    PathTree.leafAt_perm (hperm.map _) hdistinct]
  have hcovered : (∃ d ∈ es.map CanonicalDeclaration.entry, p <+: d.1) ↔
      ∃ d ∈ ds.map CanonicalDeclaration.entry, p <+: d.1 := by
    simp [hperm.mem_iff]
  simp only [hcovered]

/-- `/srv` at `/a/b`, read only. -/
def mountAB : CanonicalDeclaration where
  virtualPath := "/a/b".toList
  targetPath := some "/srv".toList
  flagsSet := vfsInodeFlagReadOnly
  flagsReset := 0
  names := [⟨['a'], by decide⟩, ⟨['b'], by decide⟩]
  canonical := Or.inl (by decide)

/-- Hidden files are filtered from `/a` on. -/
def filterA : CanonicalDeclaration where
  virtualPath := "/a/".toList
  targetPath := none
  flagsSet := vfsInodeFlagFilterHidden
  flagsReset := 0
  names := [⟨['a'], by decide⟩]
  canonical := Or.inr (by decide)

end Umsftpd
