import Umsftpd.Vfs.NodeRuns
import Umsftpd.Vfs.Handles
import Umsftpd.Vfs.Slashes

/-!
# Base names

`const_basename` adds one to what `strrchr` gives and has no check for a string without a slash.
`vfs_stat` passes it sanitised paths. `vfs_add_single_inode` passes it a part of a path without its
trailing slashes, which is the empty string for a part of slashes only; what saves it is that such
a part is found, or that there is no parent. Three slashes at the start are one too many.
-/

namespace Umsftpd

open CLib Paths

/-! ## Strings with a base name -/

/-- `const_basename` is defined on the string and gives a part of it. -/
structure HasBasename (s : CStr) : Prop where
  slash : '/' ∈ s
  within : ∃ name, constBasename s = some name ∧ name <:+ s

theorem hasBasename_iff {s : CStr} : HasBasename s ↔ '/' ∈ s := by
  refine ⟨HasBasename.slash, fun h => ⟨h, s.rtakeWhile (· != '/'), ?_, ?_⟩⟩
  · unfold constBasename afterLast
    rw [if_pos h]
  · exact List.rtakeWhile_suffix _ s

/-! ## What is passed to `const_basename` -/

/-- `vfs_add_single_inode` passes the copy of the path, when there is a parent and memory for the
copies. -/
structure SinglePasses (virtualPath : CStr) (targetPath : Option CStr) (parent : Option InodeRef)
    (w : World) (s : CStr) : Prop where
  parent : parent ≠ none
  copies : w.copies targetPath.isSome = true
  arg : s = truncateTrailingSlash virtualPath

/-- `vfs_add_inode_splitter` adds an inode only for a part that is not found. -/
structure VisitPasses (ctx : VfsInodeAddingCtx) (call : CStr × Bool) (w : World) (s : CStr) :
    Prop where
  missing : vfsFindInode ctx.vfs call.1 = none
  single : SinglePasses call.1 (if call.2 then ctx.leafTargetPath else none) ctx.previous w s

/-- `vfs_add_inode` passes it after its tests, in one of the callbacks. -/
inductive Declaration.Passes (d : Declaration) (vfs : Vfs) (os : Os) (w : World) (s : CStr) : Prop
  | visit {before after : List (CStr × Bool)} {call : CStr × Bool} {ctx : VfsInodeAddingCtx}
      {w1 : World} (hacc : d.Accepted vfs)
      (hsplit : splitCalls d.virtualPath = before ++ call :: after)
      (hrun : runCalls vfsAddInodeSplitter before (d.ctx vfs) os w = some (ctx, w1))
      (hvisit : VisitPasses ctx call w1 s)

/-- `vfs_stat` passes the path of its handle, for a virtual directory or after `stat`. -/
inductive StatPasses (vfs : Vfs) (path : Option CStr) (os : Os) (w : World) (s : CStr) : Prop
  | opened {vfs' : Vfs} {handle : VfsHandle} {w1 : World}
      (hopen : vfsOpenNode vfs path os w = some ((vfs', .opened handle), w1))
      (hnode : handle.inode ≠ none ∨ ∃ statbuf, os.stat handle.mappedPath = .ok statbuf)
      (harg : s = handle.virtualPath)

/-- A call that returns has passed strings with a slash only: for others the behaviour is
undefined. -/
theorem Declaration.Passes.undefined {d : Declaration} {vfs : Vfs} {os : Os} {w : World} {s : CStr}
    (h : d.Passes vfs os w s) (hslash : '/' ∉ s) : d.add vfs os w = none := by
  obtain ⟨hacc, hsplit, hrun, hmissing, hparent, hcopies, rfl⟩ := h
  rename_i before after call ctx w1
  -- the visit has no result, and so neither has what follows
  have hvisit : vfsAddInodeSplitter call.1 call.2 ctx os w1 = none := by
    rw [Option.eq_none_iff_forall_ne_some]
    rintro ⟨⟨ok, ctx'⟩, w'⟩ hreturns
    obtain ⟨-, hfound⟩ := vfsAddInodeSplitter_run ctx call os w1 _ w' hreturns
    cases hfound with
    | found hfind => exact absurd (hfind.symm.trans hmissing) (by simp)
    | missing _ hone =>
      apply hslash
      refine hone.named (Option.isSome_iff_ne_none.mpr hparent) ?_
      show w1.copies (Option.map truncateTrailingSlash _).isSome = true
      rw [Option.isSome_map]
      exact hcopies
  rw [d.add_walked hacc, hsplit, runCalls_append, hrun, Option.bind_some, runCalls,
    Exec.bind_apply, hvisit]
  rfl

/-! ## Parts of slashes -/

/-- A part of an absolute path is stored without a slash only if it is made of slashes. -/
theorem eq_slash_of_truncate {part : CStr} (hpart : isAbsolutePath part = true)
    (hslash : '/' ∉ truncateTrailingSlash part) : ∀ c ∈ part, c = '/' := by
  induction part using List.reverseRecOn with
  | nil => simp
  | append_singleton q c ih =>
    by_cases hc : c = '/'
    · subst hc
      rw [truncateTrailingSlash_append_slash] at hslash
      cases q with
      | nil => simp
      | cons a q =>
        have hq := ih (by simpa [isAbsolutePath] using hpart) hslash
        exact List.forall_mem_append.mpr ⟨hq, by simp⟩
    · have htrunc : Truncated (q ++ [c]) := by simpa [Truncated] using hc
      rw [truncateTrailingSlash_of_truncated htrunc] at hslash
      have hhead : (q ++ [c]).head? = some '/' := by simpa [isAbsolutePath] using hpart
      exact absurd (List.mem_of_head? hhead) hslash

/-- Without three slashes at the start the only part made of slashes is the first slash. -/
theorem part_of_slashes {path : CStr} (hpath : isAbsolutePath path = true)
    (hlead : ¬['/', '/', '/'] <+: path) {call : CStr × Bool} (hcall : call ∈ splitCalls path)
    (hslashes : ∀ c ∈ call.1, c = '/') : call.1 = ['/'] := by
  rcases mem_splitCallsFrom hcall with ⟨d, e, hsplit, hpart⟩ | ⟨hpart, htrunc⟩
  · rw [List.nil_append] at hsplit
    rw [hpart] at hslashes ⊢
    by_cases hd : d = []
    · rw [cutAt, if_pos hd]
    · rw [cutAt, if_neg hd] at hslashes ⊢
      -- two slashes or more, and the one that they are cut at, are three at the start
      have hd' : d = List.replicate d.length '/' := List.eq_replicate_iff.mpr ⟨rfl, hslashes⟩
      by_cases hlen : d.length = 1
      · rw [hd', hlen, List.replicate_one]
      · have hpos : 0 < d.length := List.length_pos_iff.mpr hd
        have hthree : ['/', '/', '/'] <+: List.replicate (d.length + 1) '/' :=
          List.prefix_replicate_iff.mpr ⟨by grind, rfl⟩
        have hlong : List.replicate (d.length + 1) '/' <+: path := by
          rw [List.replicate_succ', ← hd', hsplit]
          exact ⟨e, by simp⟩
        exact absurd (hthree.trans hlong) hlead
  · rw [List.nil_append] at hpart htrunc
    rw [hpart] at hslashes
    -- the last part is the whole path only if that does not end in a slash
    have hne : path ≠ [] := by
      rintro rfl
      exact absurd hpath (by simp [isAbsolutePath])
    apply absurd _ htrunc
    rw [List.getLast?_eq_getLast_of_ne_nil hne, hslashes _ (List.getLast_mem hne)]

/-- Parts are at least as long as what has been read. -/
theorem length_le_of_mem_splitCallsFrom {done rest : CStr} (hdone : done ≠ [])
    {call : CStr × Bool} (h : call ∈ splitCallsFrom done rest) : done.length ≤ call.1.length := by
  induction rest generalizing done with
  | nil => simp [splitCallsFrom] at h
  | cons c rest ih =>
    have hrest : call ∈ splitCallsFrom (done ++ [c]) rest → done.length ≤ call.1.length := by
      intro hmem
      have hlen := ih (by simp) hmem
      grind
    rw [splitCallsFrom, cutAt, if_neg hdone] at h
    grind

/-- Before a part that is the first slash nothing has been visited, or the same part. -/
theorem splitCalls_slash {path : CStr} (hpath : isAbsolutePath path = true)
    {before after : List (CStr × Bool)} {isFullPath : Bool}
    (h : splitCalls path = before ++ (['/'], isFullPath) :: after) :
    before = [] ∨ before = [(['/'], false)] := by
  have hlong : ∀ done rest, 2 ≤ done.length → (['/'], isFullPath) ∉ splitCallsFrom done rest := by
    intro done rest hdone hmem
    have hlen := length_le_of_mem_splitCallsFrom (by grind) hmem
    grind
  obtain ⟨rest, rfl⟩ : ∃ rest, path = '/' :: rest := by
    cases path with
    | nil => exact absurd hpath (by simp [isAbsolutePath])
    | cons c rest => exact ⟨rest, by simpa [isAbsolutePath] using hpath⟩
  cases before with
  | nil => exact .inl rfl
  | cons first before =>
    cases rest with
    | nil => simp [splitCalls, splitCallsFrom] at h
    | cons c rest =>
      rw [splitCalls, splitCallsFrom, if_pos rfl, if_neg (by simp), if_pos rfl] at h
      rw [List.cons_append, List.cons.injEq] at h
      obtain ⟨rfl, hrest⟩ := h
      rw [List.nil_append, splitCallsFrom] at hrest
      cases before with
      | nil => exact .inr rfl
      | cons second before =>
        -- whatever comes second, the rest is split behind it
        have hmem : (['/'], isFullPath) ∈ splitCallsFrom (['/'] ++ [c]) rest := by
          split at hrest
          · exact absurd (List.cons.inj hrest).2 (by simp)
          · split at hrest
            · rw [(List.cons.inj hrest).2]
              simp
            · rw [hrest]
              simp
        exact absurd hmem (hlong _ rest (by simp))

theorem isAbsolutePath_part {path : CStr} (hpath : isAbsolutePath path = true)
    {call : CStr × Bool} (hcall : call ∈ splitCalls path) : isAbsolutePath call.1 = true := by
  rcases mem_splitCallsFrom hcall with ⟨d, e, hsplit, hpart⟩ | ⟨hpart, -⟩
  · rw [hpart, cutAt]
    split
    · rfl
    · next hd =>
      rw [List.nil_append] at hsplit
      unfold isAbsolutePath at hpath ⊢
      rwa [hsplit, List.head?_append_of_ne_nil _ hd] at hpath
  · rwa [hpart]

/-! ## The first visits -/

/-- After a visit of the first slash the root is found, or there is no inode to be a parent. -/
theorem VisitRun.root {ctx ctx' : VfsInodeAddingCtx} {isFullPath : Bool} {w w' : World}
    (h : VisitRun ctx (['/'], isFullPath) w ctx' w') (hprevious : ctx'.previous ≠ none) :
    vfsFindInode ctx'.vfs ['/'] ≠ none := by
  cases h with
  | found hfind =>
    show vfsFindInode ctx.vfs ['/'] ≠ none
    rw [hfind]
    exact Option.some_ne_none _
  | @missing one _ hone =>
    obtain ⟨s, hs⟩ := Option.ne_none_iff_exists'.mp hprevious
    obtain ⟨-, -, hinfo⟩ := hone.created s hs
    intro hnone
    apply vfsFindInode_eq_none.mp hnone s
    · show s ∈ one.1.inode.data
      rw [hone.data]
      exact List.mem_append_right _ (Option.mem_toList.mpr hs)
    · exact congrArg NodeInfo.virtualPath hinfo

theorem Declaration.Passes.slash {d : Declaration} {vfs : Vfs} {os : Os} {w : World} {s : CStr}
    (h : d.Passes vfs os w s) (hlead : ¬['/', '/', '/'] <+: d.virtualPath) : '/' ∈ s := by
  obtain ⟨hacc, hsplit, hrun, hmissing, hparent, -, rfl⟩ := h
  rename_i before after call ctx w1
  by_contra hslash
  have hcall : call ∈ splitCalls d.virtualPath := by
    rw [hsplit]
    simp
  have habs := isAbsolutePath_part hacc.virtualPath_absolute hcall
  have hpart := part_of_slashes hacc.virtualPath_absolute hlead hcall
    (eq_slash_of_truncate habs hslash)
  obtain ⟨part, isFullPath⟩ := call
  obtain rfl : part = ['/'] := hpart
  -- in the first visit there is no parent, and in the second the root is found
  rcases splitCalls_slash hacc.virtualPath_absolute hsplit with rfl | rfl
  · obtain ⟨rfl, -⟩ := Prod.mk.inj (Option.some.inj hrun)
    exact hparent rfl
  · obtain ⟨⟨⟨ok, ctx'⟩, w2⟩, hvisit, hrest⟩ := Option.bind_eq_some_iff.mp hrun
    obtain ⟨rfl, hfound⟩ := vfsAddInodeSplitter_run _ (['/'], false) os w _ w2 hvisit
    obtain ⟨rfl, -⟩ := Prod.mk.inj (Option.some.inj hrest)
    exact hfound.root hparent hmissing

/-- When no allocation fails there is a root, and it is the last inode. -/
theorem VfsInodeAddingCtx.visit_slash (ctx : VfsInodeAddingCtx)
    (h : ctx.previous = none ∨ vfsFindInode ctx.vfs ['/'] ≠ none) :
    ∃ ctx', ctx.visit (['/'], false) = some ctx' ∧ ctx'.previous ≠ none ∧
      vfsFindInode ctx'.vfs ['/'] ≠ none := by
  cases hfind : vfsFindInode ctx.vfs ['/'] with
  | some r =>
    refine ⟨{ ctx with previous := some r }, ?_, Option.some_ne_none r, ?_⟩
    · unfold visit
      rw [hfind]
    · show vfsFindInode ctx.vfs ['/'] ≠ none
      rw [hfind]
      exact Option.some_ne_none r
  | none =>
    have hprevious : ctx.previous = none := h.resolve_right fun hne => hne hfind
    obtain ⟨vfs', r, hcreate⟩ := create_of_no_parent ctx.vfs ['/'] none 0 0
    have hvisit : ctx.visit (['/'], false) = some { ctx with vfs := vfs', previous := some r } := by
      unfold visit
      rw [hfind, hprevious]
      show Option.map _ (ctx.vfs.create ['/'] none 0 0 none) = _
      rw [hcreate]
      rfl
    refine ⟨_, hvisit, Option.some_ne_none r, fun hnone => ?_⟩
    obtain ⟨s, hs, hpath⟩ := visit_present hvisit rfl
    exact vfsFindInode_eq_none.mp hnone s hs hpath

/-- The third of three slashes at the start is a part that is not found, and its copy is empty. -/
theorem Declaration.Accepted.passes_nil {d : Declaration} {vfs : Vfs} (h : d.Accepted vfs)
    (hlead : ['/', '/', '/'] <+: d.virtualPath) (os : Os) (tr : List SysCall) :
    d.Passes vfs os ⟨[], tr⟩ [] := by
  obtain ⟨rest, hpath⟩ := hlead
  have hsplit : ∃ isFullPath after, splitCalls d.virtualPath =
      [(['/'], false), (['/'], false)] ++ (['/', '/'], isFullPath) :: after := by
    rw [← hpath]
    by_cases hrest : rest = []
    · exact ⟨true, [], by simp [splitCalls, splitCallsFrom, cutAt, hrest]⟩
    · exact ⟨false, splitCallsFrom ['/', '/', '/'] rest,
        by simp [splitCalls, splitCallsFrom, cutAt, hrest]⟩
  obtain ⟨isFullPath, after, hsplit⟩ := hsplit
  -- the first visit leaves a root, the second finds it, and so the third has a parent
  obtain ⟨ctx1, hvisit1, -, hroot⟩ := (d.ctx vfs).visit_slash (.inl rfl)
  obtain ⟨ctx2, hvisit2, hprevious, -⟩ := ctx1.visit_slash (.inr hroot)
  have hwalk : (d.ctx vfs).walk [(['/'], false), (['/'], false)] = some ctx2 := by
    simp [VfsInodeAddingCtx.walk, hvisit1, hvisit2]
  have hrun := runCalls_vfsAddInodeSplitter [(['/'], false), (['/'], false)] (d.ctx vfs) os tr
  rw [hwalk] at hrun
  refine .visit h hsplit hrun ⟨?_, hprevious, ?_, rfl⟩
  · rw [vfsFindInode_eq_none]
    intro r _ hr
    -- one slash is ignored of two, and no stored path is a slash
    have htrunc := (ctx2.vfs.deref r).virtualPath_truncated
    rw [hr] at htrunc
    exact htrunc rfl
  · simp [World.copies, World.outcome]

/-- The path of a handle has a slash, in whatever state it is opened. -/
theorem StatPasses.slash {vfs : Vfs} {path : Option CStr} {os : Os} {w : World} {s : CStr}
    (h : StatPasses vfs path os w s) : '/' ∈ s := by
  obtain ⟨hopen, -, rfl⟩ := h
  obtain ⟨-, -, p, -, -, rfl⟩ := ((vfsOpenNode_ifReturns vfs path os w).result hopen).node
  have habs := (canonical_absPath (vfs.resolved p)).isAbsolutePath
  show '/' ∈ absPath (vfs.resolved p)
  exact List.mem_of_head? (by simpa [isAbsolutePath] using habs)

/-! ## Sequences of calls -/

/-- A call that can pass strings to `const_basename`, or freezes the table between such calls. -/
inductive NamingCall where
  | add (d : Declaration)
  | stat (path : Option CStr)
  | freeze

/-- The strings that are passed when the call is made. -/
def NamingCall.Passes : NamingCall → Vfs → Os → World → CStr → Prop
  | add d, vfs, os, w, s => d.Passes vfs os w s
  | stat path, vfs, os, w, s => StatPasses vfs path os w s
  | freeze, _, _, _, _ => False

/-- One call that returns, whatever the system answers and whichever allocations fail. -/
inductive NamingStep : Vfs → NamingCall → Vfs → Prop
  | add {vfs vfs' : Vfs} (d : Declaration) (os : Os) (w w' : World) (ok : Bool)
      (h : d.add vfs os w = some ((ok, vfs'), w')) : NamingStep vfs (.add d) vfs'
  | stat {vfs vfs' : Vfs} (path : Option CStr) (before after : VfsDirent) (os : Os)
      (w w' : World) (code : VfsError)
      (h : vfsStat vfs path before os w = some ((vfs', code, after), w')) :
      NamingStep vfs (.stat path) vfs'
  | freeze (libc : LibC) (vfs : Vfs) : NamingStep vfs .freeze (vfsFreezeInodes libc vfs)

/-- The calls of a list, one after the other. -/
inductive NamingRun (start : Vfs) : List NamingCall → Vfs → Prop
  | start : NamingRun start [] start
  | step {calls : List NamingCall} {vfs vfs' : Vfs} {call : NamingCall}
      (hrun : NamingRun start calls vfs) (hstep : NamingStep vfs call vfs') :
      NamingRun start (calls ++ [call]) vfs'

/-- Whichever of the calls is made next, every string it passes has a base name. -/
def BasenamesDefined (start : Vfs) (calls : List NamingCall) : Prop :=
  ∀ before call after vfs, calls = before ++ call :: after → NamingRun start before vfs →
    ∀ os w s, call.Passes vfs os w s → HasBasename s

end Umsftpd
