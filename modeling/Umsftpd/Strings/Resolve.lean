import Umsftpd.Strings.Sanitize

/-!
# What a path is sanitised to

`sanitize_path` joins and `sanitize_absolute_path` allocates with lengths of type `int`. Up to
`2 ^ 31` characters the whole path is read; beyond, a joined path is undefined behaviour, and of an
absolute one a part is read, or none, or the buffer is too small. `resolve` are the names that come
of it where a path comes of it (`Sanitizable`).
-/

namespace Umsftpd

open CLib Paths

/-! ## Joining -/

/-- The path that `sanitize_path` sanitises. -/
def joinedPath (cwd path : CStr) : CStr :=
  if isAbsolutePath path then path else cwd ++ ['/'] ++ path

theorem toOption_checkInt_eq_some {x y : Int} :
    (checkInt x).toOption = some y ↔ x = y ∧ -2 ^ 31 ≤ x ∧ x < 2 ^ 31 := by
  rw [← checkInt_eq_ok]
  cases checkInt x <;> simp [Except.toOption]

/-- A copy fits into its array. -/
theorem strcpyAt_eq_some {array array' : Buffer} {offset : Int} {string : CStr}
    (h : strcpyAt array offset string = some array') :
    0 ≤ offset ∧ offset.toNat + (string.length + 1) ≤ array.length ∧
      array'.length = array.length := by
  unfold strcpyAt writeCells at h
  split_ifs at h with hoffset hfits
  rw [length_toBuffer] at hfits
  refine ⟨hoffset, hfits, ?_⟩
  rw [← Option.some.inj h]
  simp [length_toBuffer]
  omega

theorem strcpyAt_take {array : Buffer} {offset : Nat} {string : CStr}
    (h : offset + (string.length + 1) ≤ array.length) :
    ∃ array', strcpyAt array offset string = some array' ∧ array'.length = array.length ∧
      array'.take (offset + (string.length + 1)) = array.take offset ++ toBuffer string := by
  have hfits : offset + (toBuffer string).length ≤ array.length := by rwa [length_toBuffer]
  obtain ⟨array', hwrite, hlength, htake⟩ := writeCells_take hfits
  rw [length_toBuffer] at htake
  exact ⟨array', by rw [strcpyAt, if_pos (Int.natCast_nonneg _), Int.toNat_natCast, hwrite],
    hlength, htake⟩

/-- The three strings and the terminator are the whole array. -/
theorem strcpyAt_join {cwd path : CStr} {array : Buffer}
    (hsize : array.length = cwd.length + 1 + path.length + 1) :
    (do
      let array ← strcpyAt array 0 cwd
      let array ← strcpyAt array cwd.length ['/']
      strcpyAt array (cwd.length + 1) path) = some (toBuffer (cwd ++ ['/'] ++ path)) := by
  have hroom1 : 0 + (cwd.length + 1) ≤ array.length := by omega
  obtain ⟨b1, hw1, hl1, ht1⟩ := strcpyAt_take hroom1
  have hroom2 : cwd.length + (['/'].length + 1) ≤ b1.length := by simp; omega
  obtain ⟨b2, hw2, hl2, ht2⟩ := strcpyAt_take hroom2
  have hroom3 : cwd.length + 1 + (path.length + 1) ≤ b2.length := by omega
  obtain ⟨b3, hw3, hl3, ht3⟩ := strcpyAt_take hroom3
  have hcwd : b1.take cwd.length = cwd.map some := by
    have h := congrArg (List.take cwd.length) ht1
    rw [List.take_take, Nat.min_eq_left (by omega)] at h
    rw [h]
    simp [toBuffer]
  have hslash : b2.take (cwd.length + 1) = cwd.map some ++ [some '/'] := by
    have h := congrArg (List.take (cwd.length + 1)) ht2
    rw [List.take_take, Nat.min_eq_left (by simp), hcwd] at h
    have hcells : cwd.map some ++ toBuffer ['/'] = cwd.map some ++ [some '/'] ++ [none] := by
      simp [toBuffer]
    rw [h, hcells, List.take_left' (by simp)]
  have hall : cwd.length + 1 + (path.length + 1) = b3.length := by omega
  rw [hall, List.take_length, hslash] at ht3
  rw [Int.natCast_zero] at hw1
  rw [Int.natCast_add, Int.natCast_one] at hw3
  rw [hw1, Option.bind_eq_bind, Option.bind_some, hw2, Option.bind_some, hw3, ht3]
  simp [toBuffer]

/-- The concatenation fills its array, if its size is no more than an `int` holds; otherwise the
array cannot be made or is too small. -/
theorem sanitizeJoin_eq (cwd path : CStr) :
    sanitizeJoin cwd path =
      if (cwd ++ ['/'] ++ path).length + 1 < 2 ^ 31 then some (toBuffer (cwd ++ ['/'] ++ path))
      else none := by
  have hlength : (cwd ++ ['/'] ++ path).length = cwd.length + 1 + path.length := by simp; omega
  rw [hlength]
  split_ifs with h
  · unfold sanitizeJoin
    rw [intLength_of_lt (show cwd.length < 2 ^ 31 by omega),
      intLength_of_lt (show path.length < 2 ^ 31 by omega)]
    dsimp only
    rw [toOption_checkInt_eq_some.mpr ⟨rfl, by omega, by omega⟩, Option.bind_eq_bind,
      Option.bind_some, toOption_checkInt_eq_some.mpr ⟨rfl, by omega, by omega⟩,
      Option.bind_some, toOption_checkInt_eq_some.mpr ⟨rfl, by omega, by omega⟩, Option.bind_some]
    apply strcpyAt_join
    rw [List.length_replicate]
    omega
  · rw [Option.eq_none_iff_forall_ne_some]
    intro joined hjoin
    unfold sanitizeJoin at hjoin
    obtain ⟨size1, hsize1, hjoin⟩ := Option.bind_eq_some_iff.mp hjoin
    obtain ⟨size2, hsize2, hjoin⟩ := Option.bind_eq_some_iff.mp hjoin
    obtain ⟨size3, hsize3, hjoin⟩ := Option.bind_eq_some_iff.mp hjoin
    obtain ⟨array1, hcopy1, hjoin⟩ := Option.bind_eq_some_iff.mp hjoin
    obtain ⟨array2, hcopy2, hcopy3⟩ := Option.bind_eq_some_iff.mp hjoin
    obtain ⟨-, -, hlt⟩ := toOption_checkInt_eq_some.mp hsize3
    obtain ⟨rfl, -, -⟩ := toOption_checkInt_eq_some.mp hsize3
    obtain ⟨-, hfits1, hlen1⟩ := strcpyAt_eq_some hcopy1
    obtain ⟨-, -, hlen2⟩ := strcpyAt_eq_some hcopy2
    obtain ⟨-, hfits3, -⟩ := strcpyAt_eq_some hcopy3
    rw [List.length_replicate] at hfits1 hlen1
    -- the first copy shows that the length of the directory is what it is taken for
    rw [intLength_of_lt (show cwd.length < 2 ^ 31 by omega)] at hfits3
    omega

/-! ## Sanitising an absolute path -/

/-- The names that `sanitize_absolute_path` reads. -/
def namesRead (path : CStr) : List Name :=
  Paths.normalize (componentsRead path (intLength path).toNat)

/-- Where the length is what the code takes it for, these are the names of the path. -/
theorem namesRead_eq {path : CStr} (hpath : path ≠ []) (h : path.length < 2 ^ 31) :
    namesRead path = Paths.normalize (tokensOf path) := by
  rw [namesRead, intLength_of_lt h, Int.toNat_natCast, componentsRead_length hpath]

section Absolute

variable {path : CStr}

/-- A length that comes out positive is within the path. -/
theorem toNat_intLength (h : 1 ≤ intLength path) :
    0 < (intLength path).toNat ∧ (intLength path).toNat ≤ path.length := by
  obtain ⟨n, hn, hlen⟩ := intLength_eq (Int.le_trans (by decide) h)
  omega

/-- Where the length comes out positive and can be counted up, sanitising allocates once, and when
that succeeds gives the canonical path of the names that are read. -/
theorem sanitizeAbsolutePath_eq (habs : isAbsolutePath path = true) (hpos : 1 ≤ intLength path)
    (hfits : intLength path + 1 < 2 ^ 31) :
    sanitizeAbsolutePath path = do
      return if ← Exec.malloc then some (absPath (namesRead path)) else none := by
  obtain ⟨hnat, hwithin⟩ := toNat_intLength hpos
  have hcheck : (checkInt (intLength path + 1)).toOption = some (intLength path + 1) :=
    toOption_checkInt_eq_some.mpr ⟨rfl, by omega, hfits⟩
  have hlength : (List.replicate (intLength path + 1).toNat (none : Option Char)).length =
      (intLength path).toNat + 1 := by
    rw [List.length_replicate]
    omega
  have hinto := (sanitizeInto_eq hnat hwithin hlength).1
  unfold sanitizeAbsolutePath
  rw [habs]
  simp only [Bool.not_true, Bool.false_eq_true, if_false, hcheck, Exec.checked_some_bind]
  congr 1
  funext ok
  cases ok with
  | false => rfl
  | true =>
    have hsize : decide (0 ≤ intLength path + 1) = true := by simp; omega
    simp only [allocate, hsize, Bool.and_self, if_true, hinto]
    rfl

/-- Where it comes out negative there is no memory for the buffer. -/
theorem sanitizeAbsolutePath_negative (habs : isAbsolutePath path = true)
    (hneg : intLength path + 1 < 0) :
    sanitizeAbsolutePath path = do
      let _ ← Exec.malloc
      return none := by
  have hlow : -2 ^ 31 ≤ intLength path := by
    unfold intLength
    exact BitVec.le_toInt _
  have hcheck : (checkInt (intLength path + 1)).toOption = some (intLength path + 1) :=
    toOption_checkInt_eq_some.mpr ⟨rfl, by omega, by omega⟩
  have hsize : decide (0 ≤ intLength path + 1) = false := by simp; omega
  unfold sanitizeAbsolutePath
  rw [habs]
  simp only [Bool.not_true, Bool.false_eq_true, if_false, hcheck, Exec.checked_some_bind, allocate,
    hsize, Bool.and_false]

/-- A buffer that holds the slash and no more is too small. -/
theorem sanitizeInto_small {result : Buffer} (h : result.length ≤ 1) :
    sanitizeInto path result = none := by
  have hrounds : result.length - 1 = 0 := by omega
  unfold sanitizeInto
  rw [hrounds]
  show (writeCell result 0 (some '/')).bind _ = none
  unfold writeCell
  split_ifs
  · simp [sanitizeLoop, h]
  · rfl

/-- In between, the run comes back only where there is no memory. -/
theorem sanitizeAbsolutePath_small (habs : isAbsolutePath path = true)
    (hsmall : 0 ≤ intLength path + 1) (hsmall' : intLength path + 1 ≤ 1) (os : Os) (w : World) :
    sanitizeAbsolutePath path os w =
      if w.outcome 0 = true then none else some (none, w.allocated) := by
  have hcheck : (checkInt (intLength path + 1)).toOption = some (intLength path + 1) :=
    toOption_checkInt_eq_some.mpr ⟨rfl, by omega, by omega⟩
  have hinto : sanitizeInto path (List.replicate (intLength path + 1).toNat none) = none :=
    sanitizeInto_small (by rw [List.length_replicate]; omega)
  unfold sanitizeAbsolutePath
  rw [habs]
  simp only [Bool.not_true, Bool.false_eq_true, if_false, hcheck, Exec.checked_some_bind,
    Exec.bind_apply, Exec.malloc_run, Option.bind_some, allocate]
  cases w.outcome 0 with
  | false => rfl
  | true =>
    simp only [hsmall, decide_true, Bool.and_self, if_true, hinto]
    rfl

end Absolute

/-! ## Sanitising a path -/

/-- The names a path stands for in a working directory, as far as it is read. -/
def resolve (cwd path : CStr) : List Name := namesRead (joinedPath cwd path)

/-- What it takes for a path to be sanitised where there is memory: an absolute path to work on, and
lengths that come out positive and can be counted up. -/
@[mk_iff] structure Sanitizable (cwd path : CStr) : Prop where
  rooted : isAbsolutePath path = true ∨ cwd = [] ∨ isAbsolutePath cwd = true
  joins : isAbsolutePath path = true ∨ (joinedPath cwd path).length + 1 < 2 ^ 31
  positive : 1 ≤ intLength (joinedPath cwd path)
  fits : intLength (joinedPath cwd path) + 1 < 2 ^ 31

instance (cwd path : CStr) : Decidable (Sanitizable cwd path) :=
  decidable_of_iff _ (sanitizable_iff cwd path).symm

section Paths

variable {cwd path : CStr}

theorem isAbsolutePath_joinedPath :
    isAbsolutePath (joinedPath cwd path) = true ↔
      isAbsolutePath path = true ∨ cwd = [] ∨ isAbsolutePath cwd = true := by
  unfold joinedPath
  by_cases hpath : isAbsolutePath path = true
  · simp [hpath]
  · rw [if_neg hpath, or_iff_right hpath]
    cases cwd with
    | nil => simp [isAbsolutePath]
    | cons c cwd => simp [isAbsolutePath]

/-- Below `2 ^ 31` nothing goes wrong with the lengths. -/
theorem Sanitizable.of_length
    (hrooted : isAbsolutePath path = true ∨ cwd = [] ∨ isAbsolutePath cwd = true)
    (h : (joinedPath cwd path).length + 1 < 2 ^ 31) : Sanitizable cwd path := by
  have hpos := length_pos_of_isAbsolutePath (isAbsolutePath_joinedPath.mpr hrooted)
  have hlen := intLength_of_lt (Nat.lt_of_succ_lt h)
  refine ⟨hrooted, .inr h, ?_, ?_⟩ <;> rw [hlen] <;> omega

/-- Where the array can be made, sanitising a path is sanitising the joined one. -/
theorem sanitizePath_joined
    (h : isAbsolutePath path = true ∨ (joinedPath cwd path).length + 1 < 2 ^ 31) :
    sanitizePath cwd path = sanitizeAbsolutePath (joinedPath cwd path) := by
  unfold sanitizePath joinedPath
  by_cases hpath : isAbsolutePath path = true
  · simp only [hpath, Bool.not_true, Bool.false_eq_true, if_false, if_true]
  · have hpath' : isAbsolutePath path = false := by simpa using hpath
    have hfits := h.resolve_left hpath
    rw [joinedPath, if_neg hpath] at hfits
    simp only [hpath', Bool.not_false, if_true, Bool.false_eq_true, if_false, sanitizeJoin_eq,
      if_pos hfits, Exec.checked_some_bind, cstr_toBuffer]

/-- Otherwise there is no result. -/
theorem sanitizePath_unjoined (hpath : isAbsolutePath path = false)
    (h : ¬(joinedPath cwd path).length + 1 < 2 ^ 31) (os : Os) (w : World) :
    sanitizePath cwd path os w = none := by
  rw [joinedPath, if_neg (by simp [hpath])] at h
  unfold sanitizePath
  simp only [hpath, Bool.not_false, if_true, sanitizeJoin_eq, if_neg h]
  rfl

/-- Sanitising allocates once, and when that succeeds gives the canonical path of the names. -/
theorem sanitizePath_eq (h : Sanitizable cwd path) :
    sanitizePath cwd path = do
      return if ← Exec.malloc then some (absPath (resolve cwd path)) else none := by
  rw [sanitizePath_joined h.joins]
  exact sanitizeAbsolutePath_eq (isAbsolutePath_joinedPath.mpr h.rooted) h.positive h.fits

/-- Where memory does not run out, sanitising gives the canonical path of the names. -/
theorem sanitizePath_apply (h : Sanitizable cwd path) (os : Os) (tr : List SysCall) :
    sanitizePath cwd path os ⟨[], tr⟩ = some (some (absPath (resolve cwd path)), ⟨[], tr⟩) := by
  rw [sanitizePath_eq h]
  rfl

/-- What comes of sanitising: the path of the names where there is memory for it, and no more than
one allocation. -/
structure SanitizeRun (cwd path : CStr) (w : World) (sanitized : Option CStr) (w' : World) :
    Prop where
  result : sanitized =
    if Sanitizable cwd path ∧ w.outcome 0 = true then some (absPath (resolve cwd path)) else none
  world : w' = w ∧ sanitized = none ∨ w' = w.allocated

theorem SanitizeRun.refused {w w' : World} (h : ¬(Sanitizable cwd path ∧ w.outcome 0 = true))
    (hworld : w' = w ∨ w' = w.allocated) : SanitizeRun cwd path w none w' :=
  ⟨(if_neg h).symm, hworld.imp_left fun heq => ⟨heq, rfl⟩⟩

/-- **Sanitising, from any working directory and under any outcome of the allocation.** A path comes
of it exactly where it can. -/
theorem sanitizePath_ifReturns (cwd path : CStr) (os : Os) (w : World) :
    Exec.IfReturns (sanitizePath cwd path) os w (SanitizeRun cwd path w) := by
  by_cases hsan : Sanitizable cwd path
  · rw [sanitizePath_eq hsan]
    apply Exec.IfReturns.malloc
    refine .pure ⟨?_, .inr rfl⟩
    simp [hsan]
  by_cases hjoins : isAbsolutePath path = true ∨ (joinedPath cwd path).length + 1 < 2 ^ 31
  swap
  · intro sanitized w' hrun
    rw [not_or, Bool.not_eq_true] at hjoins
    rw [sanitizePath_unjoined hjoins.1 hjoins.2] at hrun
    exact absurd hrun (by simp)
  rw [sanitizePath_joined hjoins]
  by_cases habs : isAbsolutePath (joinedPath cwd path) = true
  swap
  · unfold sanitizeAbsolutePath
    simp only [habs, Bool.not_false, if_true]
    exact .pure (.refused (fun h => hsan h.1) (.inl rfl))
  have hlengths : ¬(1 ≤ intLength (joinedPath cwd path) ∧
      intLength (joinedPath cwd path) + 1 < 2 ^ 31) :=
    fun h => hsan ⟨isAbsolutePath_joinedPath.mp habs, hjoins, h.1, h.2⟩
  by_cases hneg : intLength (joinedPath cwd path) + 1 < 0
  · rw [sanitizeAbsolutePath_negative habs hneg]
    apply Exec.IfReturns.malloc
    exact .pure (.refused (fun h => hsan h.1) (.inr rfl))
  intro sanitized w' hrun
  by_cases hsmall : intLength (joinedPath cwd path) + 1 ≤ 1
  · rw [sanitizeAbsolutePath_small habs (Int.not_lt.mp hneg) hsmall] at hrun
    split_ifs at hrun
    obtain ⟨rfl, rfl⟩ := Prod.mk.inj (Option.some.inj hrun)
    exact .refused (fun h => hsan h.1) (.inr rfl)
  · -- counting the length up overflows
    have hwide : (checkInt (intLength (joinedPath cwd path) + 1)).toOption = none := by
      rw [Option.eq_none_iff_forall_ne_some]
      intro size hsize
      obtain ⟨-, -, hlt⟩ := toOption_checkInt_eq_some.mp hsize
      exact hlengths ⟨by omega, hlt⟩
    unfold sanitizeAbsolutePath at hrun
    rw [habs] at hrun
    simp only [Bool.not_true, Bool.false_eq_true, if_false, hwide] at hrun
    exact absurd hrun (by simp)

/-- Sanitising comes back where it gives a path, and below `2 ^ 31`. -/
theorem sanitizePath_returns
    (h : Sanitizable cwd path ∨ (joinedPath cwd path).length + 1 < 2 ^ 31) (os : Os) (w : World) :
    Exec.Returns (sanitizePath cwd path) os w (SanitizeRun cwd path w) := by
  have hreturns : ∃ r, sanitizePath cwd path os w = some r := by
    by_cases hsan : Sanitizable cwd path
    · rw [sanitizePath_eq hsan, Exec.bind_apply, Exec.malloc_run]
      exact ⟨_, rfl⟩
    · have hlength := h.resolve_left hsan
      rw [sanitizePath_joined (.inr hlength)]
      have habs : ¬isAbsolutePath (joinedPath cwd path) = true :=
        fun habs => hsan (.of_length (isAbsolutePath_joinedPath.mp habs) hlength)
      unfold sanitizeAbsolutePath
      simp only [habs, Bool.not_false, if_true]
      exact ⟨_, rfl⟩
  obtain ⟨⟨sanitized, w'⟩, hrun⟩ := hreturns
  exact ⟨sanitized, w', hrun, sanitizePath_ifReturns cwd path os w _ _ hrun⟩

/-- A path that is sanitised where memory does not run out can be sanitised. -/
theorem sanitizePath_eval_iff {os : Os} {p : CStr} :
    (sanitizePath cwd path).eval os = some (some p) ↔
      Sanitizable cwd path ∧ p = absPath (resolve cwd path) := by
  constructor
  · intro heval
    obtain ⟨⟨sanitized, w⟩, hrun, rfl⟩ := Option.map_eq_some_iff.mp heval
    have hresult := (sanitizePath_ifReturns cwd path os {} _ _ hrun).result
    split_ifs at hresult with h
    exact ⟨h.1, Option.some.inj hresult⟩
  · rintro ⟨h, rfl⟩
    rw [Exec.eval, sanitizePath_apply h]
    rfl

/-- What is sanitised is below `2 ^ 31`. -/
theorem length_resolve (h : Sanitizable cwd path) :
    (absPath (resolve cwd path)).length ≤ (intLength (joinedPath cwd path)).toNat := by
  obtain ⟨hnat, hwithin⟩ := toNat_intLength h.positive
  exact (sanitizeInto_eq hnat hwithin (List.length_replicate (a := (none : Option Char)))).2

end Paths

end Umsftpd
