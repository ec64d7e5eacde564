import Umsftpd.Vfs.Reachable

/-!
# Repeated slashes

Three notions of a path meet when an inode is added: a search ignores one slash at the end, storing
cuts all of them, and `path_split` hands out parts with the slashes between them kept. They agree
on paths without repeated slashes. Elsewhere the same path can be stored twice, and a declaration
can be lost: this module says exactly when.
-/

namespace Umsftpd

open CLib Paths

/-! ## Parts of a path -/

/-- A part is what stands before a slash, or the whole path when it does not end with one. -/
theorem mem_splitCallsFrom {done rest : CStr} {call : CStr × Bool}
    (h : call ∈ splitCallsFrom done rest) :
    (∃ d e, done ++ rest = d ++ '/' :: e ∧ call.1 = cutAt d) ∨
      (call.1 = done ++ rest ∧ Truncated (done ++ rest)) := by
  induction rest generalizing done with
  | nil => simp [splitCallsFrom] at h
  | cons c rest ih =>
    rw [splitCallsFrom] at h
    have hrest : call ∈ splitCallsFrom (done ++ [c]) rest →
        (∃ d e, done ++ c :: rest = d ++ '/' :: e ∧ call.1 = cutAt d) ∨
          (call.1 = done ++ c :: rest ∧ Truncated (done ++ c :: rest)) := by
      intro hmem
      simpa using ih hmem
    by_cases hc : c = '/'
    · subst hc
      have hhead : call.1 = cutAt done → ∃ d e, done ++ '/' :: rest = d ++ '/' :: e ∧
          call.1 = cutAt d := fun h => ⟨done, rest, rfl, h⟩
      by_cases hnil : rest = []
      · rw [if_pos rfl, if_pos hnil, List.mem_singleton] at h
        exact Or.inl (hhead (by rw [h]))
      · rw [if_pos rfl, if_neg hnil, if_pos rfl, List.mem_cons] at h
        rcases h with rfl | h
        · exact Or.inl (hhead rfl)
        · exact hrest h
    · by_cases hnil : rest = []
      · rw [if_neg hc, if_pos hnil, List.mem_singleton] at h
        subst hnil h
        exact Or.inr ⟨rfl, by simpa [Truncated] using hc⟩
      · rw [if_neg hc, if_neg hnil, if_neg hc] at h
        exact hrest h

/-- The inner parts are those before a slash that is read. -/
theorem mem_innerParts {done rest part : CStr} (h : part ∈ innerParts done rest) :
    ∃ d e, done ++ rest = d ++ '/' :: e ∧ part = cutAt d := by
  induction rest generalizing done with
  | nil => simp [innerParts] at h
  | cons c rest ih =>
    rw [innerParts] at h
    have hrest : part ∈ innerParts (done ++ [c]) rest →
        ∃ d e, done ++ c :: rest = d ++ '/' :: e ∧ part = cutAt d := by
      intro hmem
      simpa using ih hmem
    split at h
    · next hc =>
      rcases List.mem_cons.mp h with rfl | h
      · exact ⟨done, rest, by rw [hc], rfl⟩
      · exact hrest h
    · exact hrest h

/-- The last call of a split has what stands before the last character when it is a slash. -/
theorem splitCalls_concat (q : CStr) (c : Char) :
    splitCalls (q ++ [c]) = (innerParts [] q).map (fun part => (part, false)) ++
      [(if c = '/' then cutAt q else q ++ [c], true)] := by
  unfold splitCalls
  rw [splitCallsFrom_append [] q (by simp)]
  simp [splitCallsFrom]

theorem innerParts_concat_slash (done q : CStr) :
    innerParts done (q ++ ['/']) = innerParts done q ++ [cutAt (done ++ q)] := by
  induction q generalizing done with
  | nil => simp [innerParts]
  | cons c q ih =>
    have ih' := ih (done ++ [c])
    rw [List.append_assoc, List.singleton_append] at ih'
    simp only [List.cons_append, innerParts, ih']
    split <;> rfl

theorem append_two_slashes (x : CStr) : x ++ ['/', '/'] = (x ++ ['/']) ++ ['/'] := by simp

theorem cutSlash_append_two (x : CStr) : cutSlash (x ++ ['/', '/']) = x ++ ['/'] := by
  rw [append_two_slashes, cutSlash_append_slash]

theorem truncate_append_two (x : CStr) :
    truncateTrailingSlash (x ++ ['/', '/']) = truncateTrailingSlash x := by
  rw [append_two_slashes, truncateTrailingSlash_append_slash, truncateTrailingSlash_append_slash]

/-- Storing and searching agree on a path unless it ends with two slashes. -/
theorem truncate_eq_cutSlash {part : CStr} (h : ∀ x, part ≠ x ++ ['/', '/']) :
    truncateTrailingSlash part = cutSlash part := by
  rcases List.eq_nil_or_concat' part with rfl | ⟨q, c, rfl⟩
  · rfl
  · by_cases hc : c = '/'
    · subst hc
      have hq : Truncated q := by
        intro hlast
        obtain ⟨x, rfl⟩ := List.getLast?_eq_some_iff.mp hlast
        exact h x (by simp)
      rw [truncateTrailingSlash_append_slash, cutSlash_append_slash,
        truncateTrailingSlash_of_truncated hq]
    · have hq : Truncated (q ++ [c]) := by simpa [Truncated] using hc
      rw [truncateTrailingSlash_of_truncated hq, cutSlash_of_truncated hq]

/-- A part that ends with two slashes is followed by a third. -/
theorem part_of_no_triple {path : CStr} (h : ¬['/', '/', '/'] <:+: path) {call : CStr × Bool}
    (hcall : call ∈ splitCalls path) : truncateTrailingSlash call.1 = cutSlash call.1 := by
  apply truncate_eq_cutSlash
  intro x hx
  rcases mem_splitCallsFrom hcall with ⟨d, e, hpath, hpart⟩ | ⟨hpart, htrunc⟩
  · rw [List.nil_append] at hpath
    apply h
    by_cases hd : d = []
    · rw [hpart, hd] at hx
      have hlen := congrArg List.length hx
      simp [cutAt] at hlen
    · rw [cutAt, if_neg hd] at hpart
      exact ⟨x, e, by rw [hpath, ← hpart, hx]; simp⟩
  · rw [List.nil_append] at hpart htrunc
    apply htrunc
    rw [← hpart, hx]
    simp

/-! ## What a walk leaves -/

theorem cutAt_cutSlash (d : CStr) (h : Truncated d) : cutSlash (cutAt d) = d := by
  unfold cutAt
  split
  · next hd => rw [hd]; rfl
  · exact cutSlash_of_truncated h

theorem cutAt_truncate (d : CStr) (h : Truncated d) : truncateTrailingSlash (cutAt d) = d := by
  unfold cutAt
  split
  · next hd => rw [hd]; rfl
  · exact truncateTrailingSlash_of_truncated h

/-- No part before a slash of a path is stored under a path as long as that one. -/
theorem truncate_cutAt_ne {d e y : CStr} (hy : y.length ≥ (d ++ '/' :: e).length) :
    truncateTrailingSlash (cutAt d) ≠ y := by
  intro heq
  have hlen : (truncateTrailingSlash (cutAt d)).length ≤ d.length := by
    unfold cutAt
    split
    · next hd => rw [hd]; exact Nat.le_refl 0
    · exact (List.length_take_le _ _).trans (truncateTrailingSlashLoop_le _ _)
  rw [heq] at hlen
  simp only [List.length_append, List.length_cons] at hy
  omega

namespace VfsInodeAddingCtx

/-- Old inodes stay, as they were. -/
def Keeps (before after : Vfs) : Prop :=
  ∀ r ∈ before.inode.data, r ∈ after.inode.data ∧
    (after.deref r).declaration = (before.deref r).declaration

theorem Keeps.refl (vfs : Vfs) : Keeps vfs vfs := fun _ hr => ⟨hr, rfl⟩

theorem Keeps.trans {vfs1 vfs2 vfs3 : Vfs} (h : Keeps vfs1 vfs2) (h' : Keeps vfs2 vfs3) :
    Keeps vfs1 vfs3 := fun r hr =>
  ⟨(h' r (h r hr).1).1, (h' r (h r hr).1).2.trans (h r hr).2⟩

theorem Keeps.virtualPath {before after : Vfs} (h : Keeps before after) {r : InodeRef}
    (hr : r ∈ before.inode.data) :
    (after.deref r).virtualPath = (before.deref r).virtualPath :=
  congrArg Declaration.virtualPath (h r hr).2

end VfsInodeAddingCtx

open VfsInodeAddingCtx (Keeps)

theorem Created.keeps {vfs vfs' : Vfs} {r : InodeRef} {inode : VfsInode}
    (h : Created vfs vfs' r inode) (hwf : vfs.WellFormed) : Keeps vfs vfs' := by
  intro s hs
  refine ⟨?_, VfsInode.declaration_congr (h.info_old (hwf.data_lt s hs))⟩
  rw [h.data_eq]
  exact List.mem_append_left _ hs

theorem VfsInodeAddingCtx.keeps_visit {ctx ctx' : VfsInodeAddingCtx} {call : CStr × Bool}
    (hwf : ctx.WellFormed) (h : ctx.visit call = some ctx') : Keeps ctx.vfs ctx'.vfs := by
  rcases visit_cases h with ⟨r, -, rfl⟩ | ⟨vfs, r, -, rfl, hcreated⟩
  · exact Keeps.refl _
  · exact hcreated.keeps hwf.vfs

theorem VfsInodeAddingCtx.keeps_walk {ctx ctx' : VfsInodeAddingCtx} {calls : List (CStr × Bool)}
    (hwf : ctx.WellFormed) (h : ctx.walk calls = some ctx') :
    ctx'.WellFormed ∧ Keeps ctx.vfs ctx'.vfs := by
  refine walk_induction (P := fun c => c.WellFormed ∧ Keeps ctx.vfs c.vfs) ?_ h
    ⟨hwf, Keeps.refl _⟩
  rintro c c' call - ⟨hc, hkeeps⟩ hvisit
  exact ⟨hc.visit hvisit, hkeeps.trans (keeps_visit hc hvisit)⟩

/-- After a visit there is an inode for the part, when storing and searching agree on it. -/
theorem VfsInodeAddingCtx.visit_present {ctx ctx' : VfsInodeAddingCtx} {call : CStr × Bool}
    (h : ctx.visit call = some ctx')
    (hpart : truncateTrailingSlash call.1 = cutSlash call.1) :
    ∃ r ∈ ctx'.vfs.inode.data, (ctx'.vfs.deref r).virtualPath = cutSlash call.1 := by
  rcases visit_cases h with ⟨r, hfind, rfl⟩ | ⟨vfs, r, -, rfl, hcreated⟩
  · exact ⟨r, vfsFindInode_some hfind⟩
  · refine ⟨r, by rw [hcreated.data_eq]; simp, ?_⟩
    rw [hcreated.deref_new, ← hpart]
    rfl

/-! ## Distinct paths -/

/-- No two inodes are stored under the same path. -/
def Vfs.PathsDistinct (vfs : Vfs) : Prop :=
  (vfs.inode.data.map fun r => (vfs.deref r).virtualPath).Nodup

theorem Vfs.WellFormed.pathsDistinct_iff {vfs : Vfs} (hwf : vfs.WellFormed) :
    vfs.PathsDistinct ↔ ∀ r ∈ vfs.inode.data, ∀ s ∈ vfs.inode.data,
      (vfs.deref r).virtualPath = (vfs.deref s).virtualPath → r = s :=
  List.nodup_map_iff_inj_on hwf.data_nodup

/-- What has been stored twice stays so. -/
theorem VfsInodeAddingCtx.Keeps.pathsDistinct {before after : Vfs} (h : Keeps before after)
    (hwf : before.WellFormed) (hwf' : after.WellFormed) (hd : after.PathsDistinct) :
    before.PathsDistinct := by
  rw [hwf.pathsDistinct_iff]
  rw [hwf'.pathsDistinct_iff] at hd
  intro r hr s hs heq
  apply hd r (h r hr).1 s (h s hs).1
  rw [h.virtualPath hr, h.virtualPath hs, heq]

/-- A visit of a part on which storing and searching agree stores no path twice. -/
theorem VfsInodeAddingCtx.pathsDistinct_visit {ctx ctx' : VfsInodeAddingCtx} {call : CStr × Bool}
    (hwf : ctx.WellFormed) (hpart : truncateTrailingSlash call.1 = cutSlash call.1)
    (hd : ctx.vfs.PathsDistinct) (h : ctx.visit call = some ctx') : ctx'.vfs.PathsDistinct := by
  have hwf' := hwf.visit h
  rcases visit_cases h with ⟨r, -, rfl⟩ | ⟨vfs, r, hfind, rfl, hcreated⟩
  · exact hd
  · rw [hwf'.vfs.pathsDistinct_iff]
    rw [hwf.vfs.pathsDistinct_iff] at hd
    have hkeeps := hcreated.keeps hwf.vfs
    have hnew : (vfs.deref r).virtualPath = cutSlash call.1 := by
      rw [hcreated.deref_new, ← hpart]
      rfl
    have hold : ∀ s ∈ ctx.vfs.inode.data, (vfs.deref s).virtualPath ≠ cutSlash call.1 := by
      intro s hs
      rw [hkeeps.virtualPath hs]
      exact vfsFindInode_eq_none.mp hfind s hs
    intro s hs t ht heq
    have hs' : s ∈ ctx.vfs.inode.data ∨ s = r := by simpa [hcreated.data_eq] using hs
    have ht' : t ∈ ctx.vfs.inode.data ∨ t = r := by simpa [hcreated.data_eq] using ht
    rcases hs' with hs' | rfl <;> rcases ht' with ht' | rfl
    · exact hd s hs' t ht' (by rw [← hkeeps.virtualPath hs', heq, hkeeps.virtualPath ht'])
    · exact absurd (heq.trans hnew) (hold s hs')
    · exact absurd (heq.symm.trans hnew) (hold t ht')
    · rfl

/-- A walk over three slashes in a row stores the path before them twice: the third part ends with
two slashes, is never found, and is stored without them. -/
theorem VfsInodeAddingCtx.walk_triple {ctx ctx' : VfsInodeAddingCtx} {x y : CStr}
    (hwf : ctx.WellFormed) (hx : Truncated x)
    (h : ctx.walk (splitCallsFrom x ('/' :: '/' :: '/' :: y)) = some ctx') :
    ¬ctx'.vfs.PathsDistinct := by
  have hcalls : ∃ full rest, splitCallsFrom x ('/' :: '/' :: '/' :: y) =
      (cutAt x, false) :: (x ++ ['/'], false) :: (x ++ ['/', '/'], full) :: rest := by
    by_cases hy : y = []
    · exact ⟨true, [], by simp [splitCallsFrom, cutAt, hy]⟩
    · exact ⟨false, splitCallsFrom (x ++ ['/', '/', '/']) y, by simp [splitCallsFrom, cutAt, hy]⟩
  obtain ⟨full, rest, hcalls⟩ := hcalls
  rw [hcalls] at h
  obtain ⟨ctx1, hvisit1, h1⟩ := Option.bind_eq_some_iff.mp h
  obtain ⟨ctx2, hvisit2, h2⟩ := Option.bind_eq_some_iff.mp h1
  obtain ⟨ctx3, hvisit3, h3⟩ := Option.bind_eq_some_iff.mp h2
  have hwf1 := hwf.visit hvisit1
  have hwf2 := hwf1.visit hvisit2
  obtain ⟨r, hr, hrx⟩ := visit_present hvisit1
    (by rw [cutAt_truncate x hx, cutAt_cutSlash x hx])
  rw [cutAt_cutSlash x hx] at hrx
  have hkeeps2 := keeps_visit hwf1 hvisit2
  have htrunc : truncateTrailingSlash (x ++ ['/', '/']) = x := by
    rw [truncate_append_two, truncateTrailingSlash_of_truncated hx]
  obtain ⟨hwf', hkeeps'⟩ := keeps_walk (hwf2.visit hvisit3) h3
  intro hd
  have hd3 := hkeeps'.pathsDistinct (hwf2.visit hvisit3).vfs hwf'.vfs hd
  rw [(hwf2.visit hvisit3).vfs.pathsDistinct_iff] at hd3
  rcases visit_cases hvisit3 with ⟨s, hfind, -⟩ | ⟨vfs, s, -, rfl, hcreated⟩
  · have hs := (vfsFindInode_some hfind).2
    rw [cutSlash_append_two] at hs
    have htr := (ctx2.vfs.deref s).virtualPath_truncated
    rw [hs] at htr
    exact htr (by simp)
  · have hr2 : r ∈ ctx2.vfs.inode.data := (hkeeps2 r hr).1
    have hr3 := hcreated.keeps hwf2.vfs r hr2
    have hrs : r = s := by
      apply hd3 r hr3.1 s (by rw [hcreated.data_eq]; simp)
      rw [(hcreated.keeps hwf2.vfs).virtualPath hr2, hkeeps2.virtualPath hr, hrx,
        hcreated.deref_new]
      exact htrunc.symm
    have hlt := hwf2.vfs.data_lt r hr2
    rw [hrs, hcreated.ref_eq] at hlt
    exact Nat.lt_irrefl _ hlt

/-- Three slashes in a row, from the first slash of the row on. -/
theorem exists_triple {path : CStr} (h : ['/', '/', '/'] <:+: path) :
    ∃ x y, Truncated x ∧ path = x ++ '/' :: '/' :: '/' :: y := by
  obtain ⟨a, b, rfl⟩ := h
  induction a using List.reverseRecOn generalizing b with
  | nil => exact ⟨[], b, by simp [Truncated], by simp⟩
  | append_singleton a c ih =>
    by_cases hc : c = '/'
    · obtain ⟨x, y, hx, heq⟩ := ih ('/' :: b)
      refine ⟨x, y, hx, ?_⟩
      rw [← heq, hc]
      simp
    · exact ⟨a ++ [c], b, by simpa [Truncated] using hc, by simp⟩

/-- An accepted call that returns keeps the paths distinct exactly when it has no three slashes in
a row. -/
theorem Declaration.pathsDistinct_add {d : Declaration} {vfs vfs' : Vfs} {os : Os}
    {tr : List SysCall} {ok : Bool} {w : World} (hwf : vfs.WellFormed)
    (h : d.add vfs os ⟨[], tr⟩ = some ((ok, vfs'), w)) :
    vfs'.PathsDistinct ↔
      vfs.PathsDistinct ∧ (d.Accepted vfs → ¬['/', '/', '/'] <:+: d.virtualPath) := by
  rcases (d.add_cases h).2 with ⟨-, hrej, code, msg, rfl⟩ | ⟨-, hacc, ctx', hwalk, rfl⟩
  · exact ⟨fun hd => ⟨hd, fun hc => absurd hc hrej⟩, fun hd => hd.1⟩
  · have hctx := d.wellFormed_ctx hwf
    constructor
    · intro hd
      obtain ⟨hwf', hkeeps⟩ := VfsInodeAddingCtx.keeps_walk hctx hwalk
      refine ⟨hkeeps.pathsDistinct hwf hwf'.vfs hd, fun _ htriple => ?_⟩
      obtain ⟨x, y, hx, hpath⟩ := exists_triple htriple
      rw [hpath, splitCalls, splitCallsFrom_append [] x (by simp), List.nil_append,
        VfsInodeAddingCtx.walk_append] at hwalk
      obtain ⟨ctx1, hwalk1, hwalk2⟩ := Option.bind_eq_some_iff.mp hwalk
      have hwf1 := (VfsInodeAddingCtx.keeps_walk hctx hwalk1).1
      exact VfsInodeAddingCtx.walk_triple hwf1 hx hwalk2 hd
    · rintro ⟨hd, htriple⟩
      have hpair : ctx'.WellFormed ∧ ctx'.vfs.PathsDistinct := by
        refine VfsInodeAddingCtx.walk_induction
          (P := fun c => c.WellFormed ∧ c.vfs.PathsDistinct) ?_ hwalk ⟨hctx, hd⟩
        rintro c c' call hcall ⟨hc, hdc⟩ hvisit
        exact ⟨hc.visit hvisit, VfsInodeAddingCtx.pathsDistinct_visit hc
          (part_of_no_triple (htriple hacc) hcall) hdc hvisit⟩
      exact hpair.2

/-- `P` holds of every call of the list and the state it is made in. -/
def EveryCall (P : Declaration → Vfs → Prop) (os : Os) : List Declaration → Vfs → Prop
  | [], _ => True
  | d :: ds, vfs =>
    P d vfs ∧ ∀ ok vfs', (d.add vfs).eval os = some (ok, vfs') → EveryCall P os ds vfs'

/-- A call that passes the tests of `vfs_add_inode` has no three slashes in a row. -/
def NoTripleSlash (d : Declaration) (vfs : Vfs) : Prop :=
  d.Accepted vfs → ¬['/', '/', '/'] <:+: d.virtualPath

theorem pathsDistinct_addAll {ds : List Declaration} {vfs vfs' : Vfs} {oks : List Bool} {os : Os}
    {w : World} (hwf : vfs.WellFormed)
    (h : addAll ds vfs os ⟨[], []⟩ = some ((oks, vfs'), w)) :
    vfs'.PathsDistinct ↔ vfs.PathsDistinct ∧ EveryCall NoTripleSlash os ds vfs := by
  induction ds generalizing vfs oks with
  | nil =>
    obtain ⟨⟨-, rfl⟩, -⟩ : (oks = [] ∧ vfs' = vfs) ∧ w = ⟨[], []⟩ := by
      simpa [addAll, eq_comm] using h
    simp [EveryCall]
  | cons d ds ih =>
    obtain ⟨ok, vfs1, oks', hadd, hrest, -⟩ := addAll_cons_eq h
    have heval : (d.add vfs).eval os = some (ok, vfs1) := by
      rw [Exec.eval, hadd]
      rfl
    rw [ih (hwf.add hadd) hrest, d.pathsDistinct_add hwf hadd, EveryCall, and_assoc]
    apply and_congr_right
    intro _
    apply and_congr_right
    intro _
    constructor
    · intro hevery ok' vfs2 hadd'
      obtain ⟨rfl, rfl⟩ := Prod.mk.inj (Option.some.inj (heval.symm.trans hadd'))
      exact hevery
    · intro hevery
      exact hevery ok vfs1 heval

/-- `/a///b` is declared. -/
def tripleSlash : Declaration := ⟨"/a///b".toList, none, 0, 0⟩

/-- Two slashes at the end, and not three. -/
def EndsInTwoSlashes (path : CStr) : Prop := path = truncateTrailingSlash path ++ ['/', '/']

instance (path : CStr) : Decidable (EndsInTwoSlashes path) := inferInstanceAs (Decidable (_ = _))

/-- The inodes after a walk over inner parts: the old ones, and intermediate ones for parts that
were not stored. -/
theorem VfsInodeAddingCtx.mem_walk_inner {ctx ctx' : VfsInodeAddingCtx} {parts : List CStr}
    (hwf : ctx.WellFormed)
    (h : ctx.walk (parts.map fun part => (part, false)) = some ctx') {r : InodeRef}
    (hr : r ∈ ctx'.vfs.inode.data) :
    r ∈ ctx.vfs.inode.data ∨
      ∃ part ∈ parts, (ctx'.vfs.deref r).declaration = ⟨truncateTrailingSlash part, none, 0, 0⟩ ∧
        ∀ s ∈ ctx.vfs.inode.data, (ctx.vfs.deref s).virtualPath ≠ cutSlash part := by
  let P (c : VfsInodeAddingCtx) : Prop := c.WellFormed ∧ Keeps ctx.vfs c.vfs ∧
    ∀ r ∈ c.vfs.inode.data, r ∈ ctx.vfs.inode.data ∨
      ∃ part ∈ parts, (c.vfs.deref r).declaration = ⟨truncateTrailingSlash part, none, 0, 0⟩ ∧
        ∀ s ∈ ctx.vfs.inode.data, (ctx.vfs.deref s).virtualPath ≠ cutSlash part
  have hP : P ctx' := by
    refine walk_induction (P := P) ?_ h ⟨hwf, Keeps.refl _, fun r hr => Or.inl hr⟩
    rintro c c' call hcall ⟨hc, hkeeps, hmem⟩ hvisit
    obtain ⟨part, hpart, rfl⟩ := List.mem_map.mp hcall
    refine ⟨hc.visit hvisit, hkeeps.trans (keeps_visit hc hvisit), ?_⟩
    rcases visit_cases hvisit with ⟨r, -, rfl⟩ | ⟨vfs, r, hfind, rfl, hcreated⟩
    · exact hmem
    · intro s hs
      have hs' : s ∈ c.vfs.inode.data ∨ s = r := by simpa [hcreated.data_eq] using hs
      rcases hs' with hs' | rfl
      · rw [(hcreated.keeps hc.vfs s hs').2]
        exact hmem s hs'
      · refine Or.inr ⟨part, hpart, ?_, ?_⟩
        · rw [hcreated.deref_new]
          rfl
        · intro s hs
          rw [← hkeeps.virtualPath hs]
          exact vfsFindInode_eq_none.mp hfind s (hkeeps s hs).1
  exact hP.2.2 r hr

section Leaf

variable {d : Declaration} {vfs : Vfs} {q : CStr} {c : Char} {ctx : VfsInodeAddingCtx}

/-- The argument of the last call. -/
def lastPart (q : CStr) (c : Char) : CStr := if c = '/' then cutAt q else q ++ [c]

theorem truncate_lastPart (q : CStr) (c : Char) :
    truncateTrailingSlash (lastPart q c) = truncateTrailingSlash (q ++ [c]) := by
  unfold lastPart
  split
  · next hc =>
    rw [hc, truncateTrailingSlash_append_slash, cutAt]
    split
    · next hq => rw [hq]; rfl
    · rfl
  · rfl

/-- Where the path ends in two slashes, its last part has been stored by the call before. -/
theorem lastPart_found
    (hwalk : (d.ctx vfs).walk ((innerParts [] q).map fun part => (part, false)) = some ctx)
    (h : EndsInTwoSlashes (q ++ [c])) :
    ∃ r, vfsFindInode ctx.vfs (lastPart q c) = some r ∧
      (ctx.vfs.deref r).virtualPath = truncateTrailingSlash (q ++ [c]) := by
  have htrunc := truncateTrailingSlash_truncated (q ++ [c])
  unfold EndsInTwoSlashes at h
  generalize truncateTrailingSlash (q ++ [c]) = x at h htrunc
  obtain ⟨rfl, hc⟩ : q = x ++ ['/'] ∧ [c] = ['/'] :=
    List.append_inj' (h.trans (append_two_slashes x)) rfl
  obtain rfl : c = '/' := by simpa using hc
  rw [innerParts_concat_slash, List.map_append, VfsInodeAddingCtx.walk_append,
    List.nil_append] at hwalk
  obtain ⟨ctx1, hwalk1, hlast⟩ := Option.bind_eq_some_iff.mp hwalk
  obtain ⟨ctx2, hvisit, hdone⟩ := Option.bind_eq_some_iff.mp hlast
  obtain rfl : ctx2 = ctx := Option.some.inj hdone
  obtain ⟨r, hr, hrx⟩ := VfsInodeAddingCtx.visit_present hvisit
    (by rw [cutAt_truncate x htrunc, cutAt_cutSlash x htrunc])
  rw [cutAt_cutSlash x htrunc] at hrx
  have hlastPart : cutSlash (lastPart (x ++ ['/']) '/') = x := by
    rw [lastPart, if_pos rfl, cutAt, if_neg (by simp), cutSlash_append_slash]
  cases hfind : vfsFindInode ctx2.vfs (lastPart (x ++ ['/']) '/') with
  | some s => exact ⟨s, rfl, (vfsFindInode_some hfind).2.trans hlastPart⟩
  | none => exact absurd (hrx.trans hlastPart.symm) (vfsFindInode_eq_none.mp hfind r hr)

/-- Elsewhere nothing the walk has stored so far is found for it. -/
theorem lastPart_not_found (hwf : vfs.WellFormed)
    (hwalk : (d.ctx vfs).walk ((innerParts [] q).map fun part => (part, false)) = some ctx)
    (hfree : vfsFindInode vfs (q ++ [c]) = none) (h : ¬EndsInTwoSlashes (q ++ [c])) :
    vfsFindInode ctx.vfs (lastPart q c) = none := by
  rw [vfsFindInode_eq_none]
  intro r hr hpath
  have hkeeps := (VfsInodeAddingCtx.keeps_walk (d.wellFormed_ctx hwf) hwalk).2
  -- a path of the length of `q` at least was stored neither before nor on the way
  have hlong : ∀ y, cutSlash (q ++ [c]) = y → q.length ≤ y.length →
      (ctx.vfs.deref r).virtualPath ≠ y := by
    intro y hy hlen heq
    rcases VfsInodeAddingCtx.mem_walk_inner (d.wellFormed_ctx hwf) hwalk hr with
      hold | ⟨part, hpart, hdecl, -⟩
    · apply vfsFindInode_eq_none.mp hfree r hold
      rw [hy, ← heq]
      exact (hkeeps.virtualPath hold).symm
    · obtain ⟨d', e, hsplit, rfl⟩ := mem_innerParts hpart
      rw [List.nil_append] at hsplit
      rw [hsplit] at hlen
      apply truncate_cutAt_ne hlen
      rw [← heq]
      exact (congrArg Declaration.virtualPath hdecl).symm
  by_cases hc : c = '/'
  · subst hc
    rw [lastPart, if_pos rfl] at hpath
    by_cases hq : Truncated q
    · rw [cutAt_cutSlash q hq] at hpath
      exact hlong q (cutSlash_append_slash q) (Nat.le_refl _) hpath
    · have hlast : q.getLast? = some '/' := by simpa [Truncated] using hq
      obtain ⟨x, rfl⟩ := List.getLast?_eq_some_iff.mp hlast
      rw [cutAt, if_neg (by simp), cutSlash_append_slash] at hpath
      have hx : Truncated x := hpath ▸ (ctx.vfs.deref r).virtualPath_truncated
      apply h
      unfold EndsInTwoSlashes
      rw [truncateTrailingSlash_append_slash, truncateTrailingSlash_append_slash,
        truncateTrailingSlash_of_truncated hx]
      simp
  · rw [lastPart, if_neg hc] at hpath
    have htrunc : Truncated (q ++ [c]) := by simpa [Truncated] using hc
    refine hlong (cutSlash (q ++ [c])) rfl ?_ hpath
    rw [cutSlash_of_truncated htrunc]
    simp

/-- An inner part that is stored under the path without its two slashes is that path. -/
theorem cutSlash_inner (h : EndsInTwoSlashes (q ++ [c])) {part : CStr}
    (hpart : part ∈ innerParts [] q)
    (hpath : truncateTrailingSlash part = truncateTrailingSlash (q ++ [c])) :
    cutSlash part = truncateTrailingSlash (q ++ [c]) := by
  rw [← hpath]
  refine (truncate_eq_cutSlash ?_).symm
  -- with two slashes of its own it would be stored under a shorter path
  intro y hy
  obtain ⟨d', e, hsplit, hd'⟩ := mem_innerParts hpart
  have hne : d' ≠ [] := by
    rintro rfl
    have hlen := congrArg List.length (hd'.symm.trans hy)
    simp [cutAt] at hlen
  have hd : d' = y ++ ['/', '/'] := by rw [← hy, hd', cutAt, if_neg hne]
  have hle : (truncateTrailingSlash (y ++ ['/', '/'])).length ≤ y.length := by
    rw [truncate_append_two]
    exact (List.length_take_le _ _).trans (truncateTrailingSlashLoop_le _ _)
  have hlen := congrArg List.length h
  rw [← hpath, hy] at hlen
  rw [List.nil_append] at hsplit
  rw [hsplit, hd] at hlen
  simp only [List.length_append, List.length_cons, List.length_nil] at hlen
  omega

/-- Then the declaration is there if it was before, or is all that the intermediate inode says. -/
theorem stored_of_twoSlashes (hwf : vfs.WellFormed) (hqc : d.virtualPath = q ++ [c])
    (hwalk : (d.ctx vfs).walk ((innerParts [] q).map fun part => (part, false)) = some ctx)
    (htwo : EndsInTwoSlashes (q ++ [c])) :
    (∃ r ∈ ctx.vfs.inode.data, (ctx.vfs.deref r).declaration = d.stored) ↔
      (∃ r ∈ vfs.inode.data, (vfs.deref r).declaration = d.stored) ∨
      ((∀ r ∈ vfs.inode.data, (vfs.deref r).virtualPath ≠ truncateTrailingSlash (q ++ [c])) ∧
        d.targetPath = none ∧ d.flagsSet = 0 ∧ d.flagsReset = 0) := by
  have hctx := d.wellFormed_ctx hwf
  have hkeeps := (VfsInodeAddingCtx.keeps_walk hctx hwalk).2
  constructor
  · rintro ⟨s, hs, hdecl⟩
    rcases VfsInodeAddingCtx.mem_walk_inner hctx hwalk hs with
      hold | ⟨part, hpart, hblank, hnew⟩
    · exact Or.inl ⟨s, hold, (hkeeps s hold).2.symm.trans hdecl⟩
    · right
      have heq := hblank.symm.trans hdecl
      have hpath : truncateTrailingSlash part = truncateTrailingSlash (q ++ [c]) := by
        rw [← hqc]
        exact congrArg Declaration.virtualPath heq
      have htarget : none = d.targetPath.map truncateTrailingSlash :=
        congrArg Declaration.targetPath heq
      refine ⟨?_, Option.map_eq_none_iff.mp htarget.symm,
        (congrArg Declaration.flagsSet heq).symm, (congrArg Declaration.flagsReset heq).symm⟩
      intro s hs
      rw [← cutSlash_inner htwo hpart hpath]
      exact hnew s hs
  · rintro (⟨s, hs, hdecl⟩ | ⟨hnone, htarget, hset, hreset⟩)
    · exact ⟨s, (hkeeps s hs).1, (hkeeps s hs).2.trans hdecl⟩
    · obtain ⟨r0, hfound, hr0⟩ := lastPart_found hwalk htwo
      have hmem := (vfsFindInode_some hfound).1
      refine ⟨r0, hmem, ?_⟩
      rcases VfsInodeAddingCtx.mem_walk_inner hctx hwalk hmem with hold | ⟨part, -, hblank, -⟩
      · exact absurd ((hkeeps.virtualPath hold).symm.trans hr0) (hnone r0 hold)
      · have hpath : truncateTrailingSlash part = truncateTrailingSlash (q ++ [c]) :=
          (congrArg Declaration.virtualPath hblank).symm.trans hr0
        rw [hblank, hpath, Declaration.stored, hqc, htarget, hset, hreset]
        rfl

/-- A walk does not change what is declared for the leaf. -/
theorem leaf_of_walk {calls : List (CStr × Bool)} (hwalk : (d.ctx vfs).walk calls = some ctx) :
    ctx.leafTargetPath = d.targetPath ∧ ctx.leafFlagsSet = d.flagsSet ∧
      ctx.leafFlagsReset = d.flagsReset := by
  refine VfsInodeAddingCtx.walk_induction (P := fun c => c.leafTargetPath = d.targetPath ∧
    c.leafFlagsSet = d.flagsSet ∧ c.leafFlagsReset = d.flagsReset) ?_ hwalk ⟨rfl, rfl, rfl⟩
  intro c c' call _ hc hvisit
  rcases VfsInodeAddingCtx.visit_cases hvisit with ⟨r, -, rfl⟩ | ⟨vfs, r, -, rfl, -⟩ <;> exact hc

end Leaf

/-- What remains of an accepted declaration. -/
theorem Declaration.add_stored_iff {d : Declaration} {vfs vfs' : Vfs} {os : Os}
    {tr : List SysCall} {w : World} (hwf : vfs.WellFormed)
    (h : d.add vfs os ⟨[], tr⟩ = some ((true, vfs'), w)) :
    (∃ r ∈ vfs'.inode.data, (vfs'.deref r).declaration = d.stored) ↔
      ¬EndsInTwoSlashes d.virtualPath ∨
      (∃ r ∈ vfs.inode.data, (vfs.deref r).declaration = d.stored) ∨
      ((∀ r ∈ vfs.inode.data, (vfs.deref r).virtualPath ≠ truncateTrailingSlash d.virtualPath) ∧
        d.targetPath = none ∧ d.flagsSet = 0 ∧ d.flagsReset = 0) := by
  rcases (d.add_cases h).2 with ⟨hok, -⟩ | ⟨-, hacc, ctx', hwalk, rfl⟩
  · exact absurd hok (by simp)
  have hne : d.virtualPath ≠ [] := by
    intro hnil
    have habs := hacc.virtualPath_absolute
    rw [hnil] at habs
    exact absurd habs (by decide)
  obtain ⟨q, c, hqc⟩ := (List.eq_nil_or_concat' d.virtualPath).resolve_left hne
  have hfree := hacc.not_found
  rw [hqc] at hwalk hfree ⊢
  -- the walk is one over the inner parts and a visit of the last one
  rw [splitCalls_concat, VfsInodeAddingCtx.walk_append] at hwalk
  obtain ⟨ctx, hinner, hlast⟩ := Option.bind_eq_some_iff.mp hwalk
  obtain ⟨ctx'', hvisit, hdone⟩ := Option.bind_eq_some_iff.mp hlast
  obtain rfl : ctx'' = ctx' := Option.some.inj hdone
  by_cases htwo : EndsInTwoSlashes (q ++ [c])
  · obtain ⟨r0, hfound, -⟩ := lastPart_found hinner htwo
    rcases VfsInodeAddingCtx.visit_cases hvisit with ⟨r, -, rfl⟩ | ⟨_, _, hnone, -, -⟩
    · simp only [htwo, not_true_eq_false, false_or]
      exact stored_of_twoSlashes hwf hqc hinner htwo
    · exact absurd (hfound.symm.trans hnone) (by simp)
  · have hnone := lastPart_not_found hwf hinner hfree htwo
    rcases VfsInodeAddingCtx.visit_cases hvisit with ⟨r, hfound, -⟩ | ⟨vfs1, r, -, rfl, hcreated⟩
    · exact absurd (hfound.symm.trans hnone) (by simp)
    · refine iff_of_true ⟨r, by rw [hcreated.data_eq]; simp, ?_⟩ (Or.inl htwo)
      rw [hcreated.deref_new]
      simp only [if_true, leaf_of_walk hinner, Declaration.stored, hqc]
      rw [← truncate_lastPart]
      rfl

end Umsftpd
