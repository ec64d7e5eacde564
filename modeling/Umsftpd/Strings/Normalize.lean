import Umsftpd.Strings.Resolve

/-!
# What a path means

`sanitize_path` splits a path at its slashes and keeps a stack of components. A path that is
sanitised is left alone by the next sanitising, and joining paths is going on with the stack.
-/

namespace Umsftpd

open CLib Paths

/-! ## Joining paths -/

theorem joinedPath_ne_nil (cwd path : CStr) : joinedPath cwd path ≠ [] := by
  unfold joinedPath
  split_ifs with h
  · rintro rfl
    exact absurd h (by simp [isAbsolutePath])
  · simp

/-- What is added to a path is added to the joined one. -/
theorem joinedPath_append {p : CStr} (hp : p ≠ []) (cwd q : CStr) :
    joinedPath cwd (p ++ '/' :: q) = joinedPath cwd p ++ '/' :: q := by
  unfold joinedPath isAbsolutePath
  rw [List.head?_append_of_ne_nil p hp]
  split_ifs
  · rfl
  · rw [← List.append_assoc]

/-- Below `2 ^ 31` characters the whole path is read. -/
theorem resolve_eq {cwd path : CStr} (h : (joinedPath cwd path).length < 2 ^ 31) :
    resolve cwd path = normalize (tokensOf (joinedPath cwd path)) :=
  namesRead_eq (joinedPath_ne_nil cwd path) h

/-- A joined path goes on from what its first part stands for. -/
theorem resolve_join {p : CStr} (hp : p ≠ []) {cwd q : CStr}
    (h : (joinedPath cwd (p ++ '/' :: q)).length < 2 ^ 31) :
    resolve cwd (p ++ '/' :: q) = normalizeFrom (resolve cwd p) (q.splitOn '/') := by
  rw [resolve_eq h]
  rw [joinedPath_append hp] at h ⊢
  rw [List.length_append] at h
  rw [resolve_eq (by omega), tokensOf_append_slash (joinedPath_ne_nil cwd p)]
  exact normalizeFrom_append [] _ _

/-- What a path and a slash and a name stand for. -/
theorem resolve_append {d n : CStr} (hd : d ≠ []) (hn : '/' ∉ n) {cwd : CStr}
    (h : (joinedPath cwd (d ++ '/' :: n)).length < 2 ^ 31) :
    resolve cwd (d ++ '/' :: n) = pushToken (resolve cwd d) n := by
  rw [resolve_join hd h, List.splitOn_eq_singleton hn]
  rfl

/-- The names of a canonical path are what it stands for. -/
theorem normalize_tokensOf_absPath (cs : List Name) : normalize (tokensOf (absPath cs)) = cs := by
  by_cases h : cs = []
  · subst h
    rfl
  · rw [absPath_of_ne_nil h, tokensOf_pathOf h]
    exact (normalizeFrom_names [] cs).trans (List.nil_append cs)

theorem absPath_injective : Function.Injective absPath := by
  intro cs ds h
  rw [← normalize_tokensOf_absPath cs, h, normalize_tokensOf_absPath]

/-- A canonical path stands for its names in any directory. -/
theorem resolve_absPath (cwd : CStr) {cs : List Name} (h : (absPath cs).length < 2 ^ 31) :
    resolve cwd (absPath cs) = cs := by
  have habs : isAbsolutePath (absPath cs) = true := (canonical_absPath cs).isAbsolutePath
  have hjoined : joinedPath cwd (absPath cs) = absPath cs := if_pos habs
  rw [resolve_eq (by rwa [hjoined]), hjoined, normalize_tokensOf_absPath]

/-- The names that are read make no longer path than the one they are read of. -/
theorem length_absPath_resolve {cwd path : CStr} (h : (joinedPath cwd path).length < 2 ^ 31) :
    (absPath (resolve cwd path)).length ≤ (joinedPath cwd path).length := by
  have hpos := List.length_pos_of_ne_nil (joinedPath_ne_nil cwd path)
  have hinto := (sanitizeInto_eq hpos (Nat.le_refl _)
    (List.length_replicate (n := (joinedPath cwd path).length + 1) (a := (none : Option Char)))).2
  rwa [componentsRead_length (joinedPath_ne_nil cwd path), ← resolve_eq h] at hinto

theorem length_pathOf_resolve {cwd path : CStr} (h : (joinedPath cwd path).length < 2 ^ 31) :
    (pathOf (resolve cwd path)).length ≤ (joinedPath cwd path).length :=
  Nat.le_trans (length_pathOf_le _) (length_absPath_resolve h)

theorem length_joinedPath_le (cwd path : CStr) :
    (joinedPath cwd path).length ≤ cwd.length + 1 + path.length := by
  unfold joinedPath
  split_ifs
  · exact Nat.le_add_left _ _
  · rw [List.length_append, List.length_append, List.length_singleton]

/-- Going to a directory and then on is going all the way. -/
theorem resolve_resolve {p q : CStr} (hp : p ≠ []) (hq : isAbsolutePath q = false) {cwd : CStr}
    (h : (joinedPath cwd (p ++ '/' :: q)).length < 2 ^ 31) :
    (joinedPath (pathOf (resolve cwd p)) q).length ≤ (joinedPath cwd (p ++ '/' :: q)).length ∧
      resolve (pathOf (resolve cwd p)) q = resolve cwd (p ++ '/' :: q) := by
  have hjoined : joinedPath (pathOf (resolve cwd p)) q =
      pathOf (resolve cwd p) ++ '/' :: q := by
    rw [joinedPath, if_neg (by simp [hq]), List.append_assoc]
    rfl
  have hlength : (pathOf (resolve cwd p)).length ≤ (joinedPath cwd p).length := by
    rw [joinedPath_append hp, List.length_append] at h
    exact length_pathOf_resolve (by omega)
  have hle : (joinedPath (pathOf (resolve cwd p)) q).length ≤
      (joinedPath cwd (p ++ '/' :: q)).length := by
    rw [hjoined, joinedPath_append hp, List.length_append, List.length_append]
    exact Nat.add_le_add_right hlength _
  refine ⟨hle, ?_⟩
  rw [resolve_eq (hle.trans_lt h), hjoined, resolve_join hp h]
  generalize resolve cwd p = base
  by_cases hbase : base = []
  · subst hbase
    rfl
  · have hne : pathOf base ≠ [] := fun h => hbase (pathOf_eq_nil_iff.mp h)
    rw [tokensOf_append_slash hne, ← absPath_of_ne_nil hbase]
    show normalizeFrom [] (tokensOf (absPath base) ++ _) = _
    rw [normalizeFrom_append]
    show normalizeFrom (normalize (tokensOf (absPath base))) _ = _
    rw [normalize_tokensOf_absPath]

/-! ## The stack of components -/

/-- What a component does to the stack, whose top is at the end. -/
def stackStep (stack : List CStr) (component : CStr) : List CStr :=
  if component = [] ∨ component = ['.'] then stack
  else if component = ['.', '.'] then stack.dropLast
  else stack ++ [component]

/-- The components that are left of a path when they are processed from left to right. -/
def componentStack (path : CStr) : List CStr := (path.splitOn '/').foldl stackStep []

theorem stackStep_names (stack : List Name) {component : CStr} (h : '/' ∉ component) :
    stackStep (stack.map Name.val) component = (pushToken stack component).map Name.val := by
  unfold stackStep pushToken ValidName
  by_cases hskip : component = [] ∨ component = ['.']
  · rcases hskip with rfl | rfl <;> simp
  · rw [not_or] at hskip
    by_cases hdd : component = ['.', '.']
    · simp [hdd]
    · simp [h, hskip, hdd]

theorem foldl_stackStep_names (components : List CStr) (h : ∀ c ∈ components, '/' ∉ c)
    (stack : List Name) :
    components.foldl stackStep (stack.map Name.val) =
      (normalizeFrom stack components).map Name.val := by
  induction components generalizing stack with
  | nil => rfl
  | cons component components ih =>
    rw [List.foldl_cons, stackStep_names stack (h component List.mem_cons_self), normalizeFrom_cons]
    exact ih (fun c hc => h c (List.mem_cons_of_mem _ hc)) _

/-- Of an absolute path the names are left. -/
theorem componentStack_absolute {path : CStr} (habs : isAbsolutePath path = true) :
    componentStack path = (normalize (tokensOf path)).map Name.val := by
  obtain ⟨rest, rfl⟩ : ∃ rest, path = '/' :: rest := by
    cases path with
    | nil => simp [isAbsolutePath] at habs
    | cons c rest =>
      obtain rfl : c = '/' := by simpa [isAbsolutePath] using habs
      exact ⟨rest, rfl⟩
  have hsplit : ('/' :: rest).splitOn '/' = [] :: rest.splitOn '/' :=
    List.splitOn_append_cons_self_of_not_mem List.not_mem_nil rest
  unfold componentStack
  rw [hsplit]
  exact foldl_stackStep_names _ (fun c hc => not_mem_of_mem_splitOn hc) []

/-- No empty, `.` or `..` component, and no slash at the end but that of the root. -/
structure IsNormal (path : CStr) : Prop where
  absolute : isAbsolutePath path = true
  components : path = ['/'] ∨ ∀ c ∈ tokensOf path, c ≠ [] ∧ c ≠ ['.'] ∧ c ≠ ['.', '.']
  last : path.getLast? = some '/' → path = ['/']

theorem isNormal_absPath (cs : List Name) : IsNormal (absPath cs) := by
  refine ⟨(canonical_absPath cs).isAbsolutePath, ?_, ?_⟩ <;> by_cases h : cs = []
  · exact Or.inl (by rw [h]; rfl)
  · right
    rw [absPath_of_ne_nil h, tokensOf_pathOf h]
    intro c hc
    obtain ⟨n, -, rfl⟩ := List.mem_map.mp hc
    exact ⟨n.valid.1, n.valid.2.2⟩
  · rw [h]
    exact fun _ => rfl
  · rw [absPath_of_ne_nil h]
    exact fun hlast => absurd hlast (pathOf_getLast? cs)

/-! ## What is not read -/

/-- The components of a path that the sanitiser does not come to. -/
def componentsUnread (path : CStr) : List CStr :=
  (tokensOf path).drop (componentsRead path (intLength path).toNat).length

/-- A text that goes on starts with the components that ended before. -/
theorem splitOn_dropLast_isPrefix (a b : CStr) :
    (a.splitOn '/').dropLast <+: (a ++ b).splitOn '/' := by
  by_cases ha : '/' ∈ a
  · obtain ⟨u, v, rfl, hu⟩ := List.eq_append_cons_of_mem ha
    rw [List.append_assoc, List.cons_append, List.splitOn_append_cons_self_of_not_mem hu,
      List.splitOn_append_cons_self_of_not_mem hu,
      List.dropLast_cons_of_ne_nil (List.splitOn_ne_nil _ _), List.prefix_cons_inj]
    exact splitOn_dropLast_isPrefix v b
  · rw [List.splitOn_eq_singleton ha]
    exact List.nil_prefix
termination_by a.length

/-- The components that are read are the first ones. -/
theorem componentsRead_isPrefix {path : CStr} (hpath : path ≠ []) {pathlen : Nat}
    (hwithin : pathlen ≤ path.length) : componentsRead path pathlen <+: tokensOf path := by
  rcases Nat.lt_or_eq_of_le hwithin with hlt | rfl
  · have hpart : readPart path pathlen = path.take (pathlen + 1) :=
      List.take_append_of_le_length hlt
    obtain ⟨c, rest, rfl⟩ := List.exists_cons_of_ne_nil hpath
    unfold componentsRead tokensOf
    rw [hpart, List.take_succ_cons, List.tail_cons, List.tail_cons]
    simpa using splitOn_dropLast_isPrefix (rest.take pathlen) (rest.drop pathlen)
  · rw [componentsRead_length hpath]

/-- What is read and what is not make up the path. -/
theorem componentsRead_append_unread {path : CStr} (hpath : path ≠ [])
    (hpos : 1 ≤ intLength path) :
    componentsRead path (intLength path).toNat ++ componentsUnread path = tokensOf path :=
  List.prefix_iff_eq_append.mp (componentsRead_isPrefix hpath (toNat_intLength hpos).2)

/-- The whole of a path is read below `2 ^ 31` characters. -/
theorem componentsUnread_eq_nil {path : CStr} (hpath : path ≠ []) (h : path.length < 2 ^ 31) :
    componentsUnread path = [] := by
  unfold componentsUnread
  rw [intLength_of_lt h, Int.toNat_natCast, componentsRead_length hpath, List.drop_length]

/-- The components that are not read would change nothing. -/
def UnreadIdle (path : CStr) : Prop :=
  (componentsUnread path).foldl stackStep ((namesRead path).map Name.val) =
    (namesRead path).map Name.val

/-- ... so that the names that are read are those of the whole path. -/
theorem unreadIdle_iff {path : CStr} (hpath : path ≠ []) (hpos : 1 ≤ intLength path) :
    UnreadIdle path ↔ namesRead path = normalize (tokensOf path) := by
  have hsplit := componentsRead_append_unread hpath hpos
  have hall : normalize (tokensOf path) =
      normalizeFrom (namesRead path) (componentsUnread path) := by
    rw [← hsplit]
    exact normalizeFrom_append [] _ _
  have hslashes : ∀ c ∈ componentsUnread path, '/' ∉ c := by
    intro c hc
    exact not_mem_of_mem_splitOn (List.mem_of_mem_drop hc)
  have hinj : Function.Injective (List.map Name.val) :=
    List.map_injective_iff.mpr fun _ _ => Name.ext
  unfold UnreadIdle
  rw [foldl_stackStep_names _ hslashes, ← hall, hinj.eq_iff]
  exact eq_comm

/-! ## Normalisation -/

/-- Sanitising gives a slash and, with slashes between them, the components that are left on the
stack. The result is normal, and sanitising it again changes nothing. -/
def Normalizes (cwd path : CStr) (os : Os) : Prop :=
  ∃ s, (sanitizePath cwd path).eval os = some (some s) ∧
    s = '/' :: List.intercalate ['/']
      (componentStack (if isAbsolutePath path then path else cwd ++ '/' :: path)) ∧
    IsNormal s ∧
    ∀ cwd' os', (sanitizePath cwd' s).eval os' = some (some s)

/-- The components that are left, written as a path. -/
theorem componentStack_joinedPath {cwd path : CStr}
    (habs : isAbsolutePath (joinedPath cwd path) = true) :
    '/' :: List.intercalate ['/']
        (componentStack (if isAbsolutePath path then path else cwd ++ '/' :: path)) =
      absPath (normalize (tokensOf (joinedPath cwd path))) := by
  have hjoined : (if isAbsolutePath path then path else cwd ++ '/' :: path) =
      joinedPath cwd path := by
    unfold joinedPath
    rw [List.append_assoc]
    rfl
  rw [hjoined, componentStack_absolute habs, absPath_eq_cons]
  rfl

/-- What is normalised is read as far as it matters. -/
theorem Normalizes.read {cwd path : CStr} {os : Os} (h : Normalizes cwd path os) :
    Sanitizable cwd path ∧ UnreadIdle (joinedPath cwd path) := by
  obtain ⟨s, heval, hs, -, -⟩ := h
  obtain ⟨hsan, hpath⟩ := sanitizePath_eval_iff.mp heval
  refine ⟨hsan, (unreadIdle_iff (joinedPath_ne_nil cwd path) hsan.positive).mpr ?_⟩
  rw [componentStack_joinedPath (isAbsolutePath_joinedPath.mpr hsan.rooted), hpath] at hs
  exact absPath_injective hs

/-- **Path normalisation.** A path is normalised if and only if its length comes out right, or at
least comes out positive and the components beyond it would change nothing. Below `2 ^ 31`
characters it always is. -/
theorem sanitizePath_normalizes_iff {cwd : CStr} (hcwd : cwd = [] ∨ isAbsolutePath cwd = true)
    (path : CStr) (os : Os) :
    (Normalizes cwd path os ↔ Sanitizable cwd path ∧ UnreadIdle (joinedPath cwd path)) ∧
      ((joinedPath cwd path).length + 1 < 2 ^ 31 → Normalizes cwd path os) := by
  have habs : isAbsolutePath (joinedPath cwd path) = true :=
    isAbsolutePath_joinedPath.mpr (.inr hcwd)
  have hne := joinedPath_ne_nil cwd path
  have hiff : Normalizes cwd path os ↔
      Sanitizable cwd path ∧ UnreadIdle (joinedPath cwd path) := by
    constructor
    · exact Normalizes.read
    · rintro ⟨hsan, hidle⟩
      unfold Normalizes
      rw [componentStack_joinedPath habs]
      have hnames : resolve cwd path = normalize (tokensOf (joinedPath cwd path)) :=
        (unreadIdle_iff hne hsan.positive).mp hidle
      have hlength := length_resolve hsan
      have hfits := hsan.fits
      refine ⟨absPath (resolve cwd path), sanitizePath_eval_iff.mpr ⟨hsan, rfl⟩,
        congrArg absPath hnames, isNormal_absPath _, fun cwd' os' => ?_⟩
      -- the result is short enough to be read once more
      have habs' : isAbsolutePath (absPath (resolve cwd path)) = true :=
        (isNormal_absPath _).absolute
      have hjoined' : joinedPath cwd' (absPath (resolve cwd path)) = absPath (resolve cwd path) :=
        if_pos habs'
      refine sanitizePath_eval_iff.mpr ⟨.of_length (.inl habs') ?_, ?_⟩
      · rw [hjoined']
        omega
      · rw [resolve_absPath cwd' (by omega)]
  refine ⟨hiff, fun h => hiff.mpr ⟨.of_length (.inr hcwd) h, ?_⟩⟩
  unfold UnreadIdle
  rw [componentsUnread_eq_nil hne (by omega)]
  rfl

theorem sanitizePath_normalizes_dots :
    (sanitizePath "/a/b".toList "..//./.c/...//../d/".toList).eval Os.empty =
      some (some "/a/.c/d".toList) := by
  obtain ⟨s, hs, heq, -⟩ := (sanitizePath_normalizes_iff (Or.inr (by decide) :
    "/a/b".toList = [] ∨ isAbsolutePath "/a/b".toList = true) "..//./.c/...//../d/".toList
    Os.empty).2 (by decide)
  rw [hs, heq]
  decide

/-- A name of `k` characters. -/
def nameOf (k : Nat) (hk : 0 < k) : Name :=
  ⟨List.replicate k 'x', by
    have hx : ∀ c ∈ List.replicate k 'x', c = 'x' := fun c hc => List.eq_of_mem_replicate hc
    refine ⟨?_, fun h => absurd (hx _ h) (by decide), fun h => ?_, fun h => ?_⟩
    · rw [Ne, List.replicate_eq_nil_iff]
      exact Nat.ne_of_gt hk
    · exact absurd (hx '.' (h ▸ List.mem_cons_self)) (by decide)
    · exact absurd (hx '.' (h ▸ List.mem_cons_self)) (by decide)⟩

theorem absPath_nameOf {k : Nat} (hk : 0 < k) :
    absPath [nameOf k hk] = '/' :: List.replicate k 'x' := by
  rw [absPath_of_ne_nil (List.cons_ne_nil _ _), pathOf_cons, pathOf_nil, List.append_nil]
  rfl

/-- The length of the path of a name as an `int`, where it wraps around to something small. -/
theorem intLength_nameOf {k n : Nat} (hk : 0 < k) (hwraps : (k + 1) % 2 ^ 32 = n)
    (hn : n < 2 ^ 31) : intLength (absPath [nameOf k hk]) = n := by
  apply intLength_of_mod _ hn
  rw [absPath_nameOf, List.length_cons, List.length_replicate, hwraps]

/-- Where the length of a path comes out as less than that of its first name, no name is read. -/
theorem namesRead_nameOf {k n : Nat} (hk : 0 < k) (rest : CStr)
    (hlength : intLength (absPath [nameOf k hk] ++ rest) = n) (hn : n ≤ k) :
    namesRead (absPath [nameOf k hk] ++ rest) = [] := by
  have hslash : '/' ∉ List.replicate n 'x' := fun h =>
    absurd (List.eq_of_mem_replicate h) (by decide)
  unfold namesRead componentsRead readPart
  rw [hlength, absPath_nameOf, List.cons_append, List.cons_append, Int.toNat_natCast,
    List.take_succ_cons, List.append_assoc,
    List.take_append_of_le_length (by rw [List.length_replicate]; exact hn), List.take_replicate,
    Nat.min_eq_left hn]
  unfold tokensOf
  rw [List.tail_cons, List.splitOn_eq_singleton hslash]
  rfl

/-- Of a name of `2 ^ 32` characters one is read, and it is left out. -/
theorem sanitizePath_wraps :
    (sanitizePath [] (absPath [nameOf (2 ^ 32) (by decide)])).eval Os.empty = some (some ['/']) ∧
      ¬Normalizes [] (absPath [nameOf (2 ^ 32) (by decide)]) Os.empty := by
  have hlength := intLength_nameOf (k := 2 ^ 32) (n := 1) (by decide) (by decide) (by decide)
  have hnames := namesRead_nameOf (k := 2 ^ 32) (n := 1) (by decide) []
    (by rw [List.append_nil]; exact hlength) (by decide)
  rw [List.append_nil] at hnames
  generalize nameOf (2 ^ 32) _ = name at hlength hnames ⊢
  have habs : isAbsolutePath (absPath [name]) = true := (canonical_absPath _).isAbsolutePath
  have hjoined : joinedPath [] (absPath [name]) = absPath [name] := if_pos habs
  constructor
  · rw [sanitizePath_eval_iff]
    refine ⟨⟨.inl habs, .inl habs, ?_, ?_⟩, ?_⟩
    · rw [hjoined, hlength]
      decide
    · rw [hjoined, hlength]
      decide
    · rw [resolve, hjoined, hnames]
      rfl
  · intro h
    have hidle := h.read.2
    rw [hjoined, unreadIdle_iff (absPath_ne_nil _) (by rw [hlength]; decide), hnames,
      normalize_tokensOf_absPath] at hidle
    exact absurd hidle (by simp)

end Umsftpd
