import Umsftpd.Paths.Names
import Umsftpd.Strings.Split

/-!
# The sanitiser keeps a stack

`sanitize_absolute_path` rewrites a flat buffer. Between two tokens the bytes written are the
absolute path of a list of names, so the buffer is a stack: a token is pushed by appending it and
popped by going back to the slash before it. `SanitizeInv` says this of the loop, together with the
room that is left; from it no access leaves the buffers and the result is the path `normalize`
means. The loop goes as far as `pathlen`, and of a path that is too long for an `int` that is only a
part.
-/

namespace Umsftpd

open CLib Paths

/-! ## What is read -/

/-- The part of a path that the loop reads when it takes `n` for the length; the terminator ends a
token as a slash does. -/
def readPart (path : CStr) (n : Nat) : CStr := (path ++ ['/']).take (n + 1)

/-- The components that end in that part. -/
def componentsRead (path : CStr) (n : Nat) : List CStr := (tokensOf (readPart path n)).dropLast

theorem length_readPart {path : CStr} {n : Nat} (hn : n ≤ path.length) :
    (readPart path n).length = n + 1 := by
  unfold readPart
  rw [List.length_take, List.length_append, List.length_singleton]
  omega

theorem take_readPart {path : CStr} {n i : Nat} (hi : i ≤ n) (hn : n ≤ path.length) :
    (readPart path n).take i = path.take i := by
  unfold readPart
  rw [List.take_take, Nat.min_eq_left (by omega), List.take_append_of_le_length (hi.trans hn)]

/-- Before the index a token is the same in the part and in the path. -/
theorem take_drop_readPart {path : CStr} {n token tokenLen : Nat} (hi : token + tokenLen ≤ n)
    (hn : n ≤ path.length) :
    ((readPart path n).drop token).take tokenLen = (path.drop token).take tokenLen := by
  rw [List.take_drop, List.take_drop, take_readPart hi hn]

/-- The components of a joined path are those of its parts. -/
theorem tokensOf_append_slash {p : CStr} (hp : p ≠ []) (q : CStr) :
    tokensOf (p ++ '/' :: q) = tokensOf p ++ q.splitOn '/' := by
  unfold tokensOf
  rw [List.tail_append_of_ne_nil hp, List.splitOn_append_cons_self]

/-- With its own length all of a path is read. -/
theorem componentsRead_length {path : CStr} (hpath : path ≠ []) :
    componentsRead path path.length = tokensOf path := by
  unfold componentsRead readPart
  rw [List.take_of_length_le (by simp), tokensOf_append_slash hpath]
  exact List.dropLast_concat

/-! ## The invariant -/

/-- The bytes written are the path of `stack`. -/
structure Holds (stack : List Name) (st : SanitizeState) : Prop where
  written : st.result.take st.resultLen = (absPath stack).map some
  resultLen_eq : st.resultLen = (absPath stack).length

/-- The invariant of the loop at index `i`: what is written, the token that is being read, and that
the output stays behind the token. -/
structure SanitizeInv (path : CStr) (pathlen : Nat) (stack : List Name) (i : Nat)
    (st : SanitizeState) : Prop extends Holds stack st where
  within : pathlen ≤ path.length
  size : st.result.length = pathlen + 1
  index : st.token + st.tokenLen = i
  pending : '/' ∉ ((readPart path pathlen).drop st.token).take st.tokenLen
  token_pos : 1 ≤ st.token
  room : stack = [] ∨ st.resultLen + 1 ≤ st.token

/-! ## Reading what is written -/

theorem Holds.getD {stack : List Name} {st : SanitizeState} (h : Holds stack st) {j : Nat}
    (hj : j < st.resultLen) : st.result.getD j none = (absPath stack)[j]? := by
  have hj' : j < (absPath stack).length := h.resultLen_eq ▸ hj
  rw [List.getD_eq_getElem?_getD, ← List.getElem?_take_of_lt hj, h.written, List.getElem?_map,
    List.getElem?_eq_getElem hj']
  rfl

theorem Holds.resultLen_pos {stack : List Name} {st : SanitizeState} (h : Holds stack st) :
    1 ≤ st.resultLen := by
  rw [h.resultLen_eq]
  exact List.length_pos_of_ne_nil (absPath_ne_nil stack)

/-- The last character written is a slash at the root only. -/
theorem Holds.last {stack : List Name} {st : SanitizeState} (h : Holds stack st) :
    st.result.getD (st.resultLen - 1) none = some '/' ↔ stack = [] := by
  have hpos := h.resultLen_pos
  rw [h.getD (by omega), h.resultLen_eq, ← List.getLast?_eq_getElem?]
  constructor
  · intro hlast
    by_contra hne
    rw [absPath_of_ne_nil hne] at hlast
    exact pathOf_getLast? stack hlast
  · rintro rfl
    rfl

/-! ## Going back over a name -/

/-- Backtracking passes what is no slash and stops at the slash before it, or at the start. -/
theorem sanitizeBacktrack_eq {b : Buffer} {k : Nat}
    (hstop : k = 0 ∨ b.getD k none = some '/') (l : Nat)
    (hpass : ∀ j, k + 1 ≤ j → j < k + 1 + l → b.getD j none ≠ some '/') :
    sanitizeBacktrack b (k + 1 + l) = k + 1 := by
  induction l with
  | zero =>
    rw [Nat.add_zero, sanitizeBacktrack, if_neg]
    rintro ⟨hgt, hne⟩
    rcases hstop with rfl | hslash
    · omega
    · exact hne hslash
  | succ l ih =>
    have hne : b.getD (k + 1 + l) none ≠ some '/' := hpass _ (by omega) (by omega)
    rw [← Nat.add_assoc, sanitizeBacktrack, if_pos ⟨by omega, hne⟩]
    exact ih fun j hj hlt => hpass j hj (by omega)

/-- The length after backtracking is that of the path without its last name. -/
theorem Holds.backtrack {stack : List Name} {st : SanitizeState} (h : Holds stack st) :
    (let n := sanitizeBacktrack st.result st.resultLen - 1
     if n = 0 then 1 else n) = (absPath stack.dropLast).length := by
  rcases List.eq_nil_or_concat' stack with rfl | ⟨pre, n, rfl⟩
  · have hlen : st.resultLen = 0 + 1 + 0 := h.resultLen_eq
    have hback := sanitizeBacktrack_eq (b := st.result) (k := 0) (Or.inl rfl) 0 (by omega)
    rw [hlen, hback]
    rfl
  · have hpath : absPath (pre ++ [n]) = pathOf pre ++ '/' :: n.val := by
      rw [absPath_of_ne_nil (by simp)]
      simp
    have hlen : st.resultLen = (pathOf pre).length + 1 + n.val.length := by
      rw [h.resultLen_eq, hpath]
      simp
      omega
    have hstop : st.result.getD (pathOf pre).length none = some '/' := by
      rw [h.getD (by omega), hpath, List.getElem?_append_right (Nat.le_refl _)]
      simp
    have hpass : ∀ j, (pathOf pre).length + 1 ≤ j → j < (pathOf pre).length + 1 + n.val.length →
        st.result.getD j none ≠ some '/' := by
      intro j hj hlt hslash
      obtain ⟨d, rfl⟩ := Nat.exists_eq_add_of_le hj
      rw [h.getD (by omega), hpath, List.getElem?_append_right (by omega), Nat.add_assoc,
        Nat.add_sub_cancel_left, Nat.add_comm, List.getElem?_cons_succ] at hslash
      exact n.no_slash (List.mem_of_getElem? hslash)
    rw [hlen, sanitizeBacktrack_eq (Or.inr hstop) _ hpass, Nat.add_sub_cancel, List.dropLast_concat]
    by_cases hpre : pre = []
    · subst hpre
      rfl
    · have hne : (pathOf pre).length ≠ 0 := by
        simpa [pathOf_eq_nil_iff] using hpre
      rw [absPath_of_ne_nil hpre]
      simp only [hne, if_false]

/-- A shorter path that the written one starts with is written as well. -/
theorem Holds.shorten {stack shorter : List Name} {st : SanitizeState} (h : Holds stack st)
    {n : Nat} (hn : n = (absPath shorter).length) (hpre : absPath shorter <+: absPath stack) :
    Holds shorter { st with resultLen := n } := by
  refine ⟨?_, hn⟩
  have hle : n ≤ st.resultLen := by
    rw [hn, h.resultLen_eq]
    exact hpre.length_le
  show st.result.take n = _
  obtain ⟨rest, hrest⟩ := hpre
  have hall : ((absPath shorter).map some).take n = (absPath shorter).map some :=
    List.take_of_length_le (by simp [hn])
  have htake := congrArg (List.take n) h.written
  rw [List.take_take, Nat.min_eq_left hle, ← hrest, List.map_append,
    List.take_append_of_le_length (by simp [hn]), hall] at htake
  exact htake

theorem absPath_dropLast_isPrefix (stack : List Name) :
    absPath stack.dropLast <+: absPath stack := by
  rcases List.eq_nil_or_concat' stack with rfl | ⟨pre, n, rfl⟩
  · exact List.prefix_rfl
  · rw [List.dropLast_concat, absPath_of_ne_nil (by simp : pre ++ [n] ≠ [])]
    by_cases hpre : pre = []
    · subst hpre
      exact ⟨n.val, by simp⟩
    · rw [absPath_of_ne_nil hpre]
      exact ⟨pathOf [n], by simp⟩

/-! ## One token -/

theorem SanitizeInv.length_token {path : CStr} {pathlen : Nat} {stack : List Name} {i : Nat}
    {st : SanitizeState} (h : SanitizeInv path pathlen stack i st) (hi : i ≤ pathlen) :
    ((path.drop st.token).take st.tokenLen).length = st.tokenLen := by
  have hidx := h.index
  have hwithin := h.within
  rw [List.length_take_of_le]
  rw [List.length_drop]
  omega

/-- There is no slash in the token. -/
theorem SanitizeInv.token_no_slash {path : CStr} {pathlen : Nat} {stack : List Name} {i : Nat}
    {st : SanitizeState} (h : SanitizeInv path pathlen stack i st) (hi : i ≤ pathlen) :
    '/' ∉ (path.drop st.token).take st.tokenLen := by
  rw [← take_drop_readPart (h.index.trans_le hi) h.within]
  exact h.pending

/-- Appending a name: the slash in front of it unless one is there, and its characters. -/
theorem append_name {path : CStr} {pathlen : Nat} {stack : List Name} {i : Nat}
    {st : SanitizeState} (h : SanitizeInv path pathlen stack i st) (hi : i ≤ pathlen) (n : Name)
    (hn : (path.drop st.token).take st.tokenLen = n.val) :
    ∃ result resultLen,
      sanitizeSlash st.result st.resultLen = some (result, resultLen) ∧
      result.length = pathlen + 1 ∧
      result.take resultLen ++ n.val.map some = (absPath (stack ++ [n])).map some ∧
      resultLen + n.val.length = (absPath (stack ++ [n])).length ∧
      resultLen + n.val.length ≤ i := by
  have hnlen : n.val.length = st.tokenLen := by
    rw [← hn]
    exact h.length_token hi
  have hidx := h.index
  by_cases hs : stack = []
  · subst hs
    have hlen : st.resultLen = 1 := h.resultLen_eq
    have htok := h.token_pos
    refine ⟨st.result, st.resultLen, if_neg (by simpa using h.last.mpr rfl), h.size, ?_, ?_, ?_⟩
    · rw [h.written]
      simp
    · rw [hlen]
      simp
      omega
    · omega
  · have hroom := h.room.resolve_left hs
    have hsize := h.size
    obtain ⟨result, hw, hl, ht⟩ := writeCell_take (b := st.result) (i := st.resultLen)
      (c := some '/') (by omega)
    have hlast : st.result.getD (st.resultLen - 1) none ≠ some '/' := fun hc => hs (h.last.mp hc)
    refine ⟨result, st.resultLen + 1, ?_, hl.trans h.size, ?_, ?_, by omega⟩
    · rw [sanitizeSlash, if_pos hlast, hw]
      rfl
    · rw [ht, h.written, absPath_of_ne_nil hs, absPath_of_ne_nil (by simp)]
      simp
    · rw [h.resultLen_eq, absPath_of_ne_nil hs, absPath_of_ne_nil (by simp)]
      simp
      omega

/-- The comparison with a dot, over the length of the token. -/
theorem beq_take_dot {t : CStr} :
    (t == List.take t.length ['.']) = true ↔ t = [] ∨ t = ['.'] := by
  rw [beq_iff_eq, ← List.prefix_iff_eq_take, List.prefix_cons_iff]
  simp

theorem beq_take_dotdot {t : CStr} :
    (t == List.take t.length ['.', '.']) = true ↔ t = [] ∨ t = ['.'] ∨ t = ['.', '.'] := by
  rw [beq_iff_eq, ← List.prefix_iff_eq_take]
  simp only [List.prefix_cons_iff, List.prefix_nil]
  grind

/-- What is compared with the dots is the token. -/
theorem strncmpEq_token {path : CStr} {pathlen : Nat} {stack : List Name} {i : Nat}
    {st : SanitizeState} (h : SanitizeInv path pathlen stack i st) (hi : i ≤ pathlen) :
    (st.tokenLen = 0 ∨ strncmpEq (path.drop st.token) ['.'] st.tokenLen = true ↔
      (path.drop st.token).take st.tokenLen = [] ∨
        (path.drop st.token).take st.tokenLen = ['.']) ∧
    (strncmpEq (path.drop st.token) ['.', '.'] st.tokenLen = true ↔
      (path.drop st.token).take st.tokenLen = [] ∨
        (path.drop st.token).take st.tokenLen = ['.'] ∨
        (path.drop st.token).take st.tokenLen = ['.', '.']) := by
  have hlen := h.length_token hi
  unfold strncmpEq
  generalize (path.drop st.token).take st.tokenLen = t at hlen ⊢
  rw [← hlen, beq_take_dot, beq_take_dotdot, List.length_eq_zero_iff,
    or_iff_right_of_imp Or.inl]
  exact ⟨Iff.rfl, Iff.rfl⟩

/-- A token that is neither skipped nor taken for a way back is a name. -/
theorem SanitizeInv.validName {path : CStr} {pathlen : Nat} {stack : List Name} {i : Nat}
    {st : SanitizeState} (h : SanitizeInv path pathlen stack i st) (hi : i ≤ pathlen)
    (hskip : ¬(st.tokenLen = 0 ∨ strncmpEq (path.drop st.token) ['.'] st.tokenLen = true))
    (hback : ¬strncmpEq (path.drop st.token) ['.', '.'] st.tokenLen = true) :
    ValidName ((path.drop st.token).take st.tokenLen) := by
  obtain ⟨hskipped, hbacktracked⟩ := strncmpEq_token h hi
  rw [hskipped] at hskip
  rw [hbacktracked] at hback
  exact ⟨fun hc => hskip (Or.inl hc), h.token_no_slash hi, fun hc => hskip (Or.inr hc),
    fun hc => hback (Or.inr (Or.inr hc))⟩

/-- A token does to the bytes what `pushToken` does to the names. -/
theorem sanitizeToken_push {path : CStr} {pathlen : Nat} {stack : List Name} {i : Nat}
    {st : SanitizeState} (h : SanitizeInv path pathlen stack i st) (hi : i ≤ pathlen) :
    ∃ st', sanitizeToken path st = some st' ∧
      Holds (pushToken stack ((path.drop st.token).take st.tokenLen)) st' ∧
      st'.result.length = pathlen + 1 ∧
      (pushToken stack ((path.drop st.token).take st.tokenLen) = [] ∨ st'.resultLen ≤ i) := by
  have hlen := h.length_token hi
  have hroom : stack = [] ∨ st.resultLen ≤ i := by
    have := h.index
    rcases h.room with hs | hr
    · exact Or.inl hs
    · right; omega
  obtain ⟨hskipped, hbacktracked⟩ := strncmpEq_token h hi
  unfold sanitizeToken
  dsimp only
  by_cases hskip : st.tokenLen = 0 ∨ strncmpEq (path.drop st.token) ['.'] st.tokenLen = true
  · have hpush : pushToken stack ((path.drop st.token).take st.tokenLen) = stack := by
      rcases hskipped.mp hskip with ht | ht <;> simp [ht]
    rw [if_pos hskip, hpush]
    exact ⟨st, rfl, h.toHolds, h.size, hroom⟩
  · rw [if_neg hskip]
    by_cases hback : strncmpEq (path.drop st.token) ['.', '.'] st.tokenLen = true
    · have ht : (path.drop st.token).take st.tokenLen = ['.', '.'] := by
        rw [hskipped] at hskip
        rw [hbacktracked, ← or_assoc] at hback
        exact hback.resolve_left hskip
      rw [if_pos hback, ht, pushToken_dotdot]
      have hshort := h.toHolds.shorten h.backtrack (absPath_dropLast_isPrefix stack)
      refine ⟨_, rfl, hshort, h.size, ?_⟩
      rcases hroom with rfl | hr
      · exact Or.inl rfl
      · right
        have hle := (absPath_dropLast_isPrefix stack).length_le
        rw [← hshort.resultLen_eq, ← h.resultLen_eq] at hle
        exact hle.trans hr
    · have hvalid := h.validName hi hskip hback
      have hpush : pushToken stack ((path.drop st.token).take st.tokenLen) =
        stack ++ [⟨_, hvalid⟩] := dif_pos hvalid
      obtain ⟨result, resultLen, hslash, hsize, hwritten, hrlen, hle⟩ :=
        append_name h hi ⟨_, hvalid⟩ rfl
      have hfit : resultLen + (((path.drop st.token).take st.tokenLen).map some).length ≤
          result.length := by
        rw [List.length_map, hsize]
        exact Nat.le_succ_of_le (hle.trans hi)
      obtain ⟨result', hw, hl, htake⟩ := writeCells_take hfit
      rw [if_neg hback, hslash, hpush]
      simp only [Option.bind_eq_bind, Option.bind_some, hw]
      rw [List.length_map, hlen] at htake
      rw [hlen] at hrlen hle
      exact ⟨_, rfl, ⟨htake.trans hwritten, hrlen⟩, hl.trans hsize, Or.inr hle⟩

/-! ## The loop -/

section Loop

variable {path : CStr} {pathlen : Nat} {stack : List Name} {i : Nat} {st : SanitizeState}

/-- The character at the index ends a token in the part that is read when it does in the path. -/
theorem getElem?_readPart (hi : i ≤ pathlen) (hwithin : pathlen ≤ path.length) :
    ∃ c, (toBuffer path)[i]? = some c ∧
      (readPart path pathlen)[i]? = some (c.getD '/') := by
  unfold readPart
  rw [getElem?_toBuffer, List.getElem?_take_of_lt (by omega)]
  by_cases hend : i = path.length
  · subst hend
    exact ⟨none, by simp, by simp⟩
  · have hlt : i < path.length := by omega
    refine ⟨some path[i], ?_, ?_⟩
    · rw [if_pos hlt, List.getElem?_eq_getElem hlt]
      rfl
    · rw [List.getElem?_append_left hlt, List.getElem?_eq_getElem hlt]
      rfl

/-- Reading on inside a token. -/
theorem SanitizeInv.read (h : SanitizeInv path pathlen stack i st) {c : Char}
    (hread : (readPart path pathlen)[i]? = some c) (hc : c ≠ '/') :
    SanitizeInv path pathlen stack (i + 1) { st with tokenLen := st.tokenLen + 1 } := by
  have hidx := h.index
  refine ⟨⟨h.written, h.resultLen_eq⟩, h.within, h.size, by simp; omega, ?_, h.token_pos, h.room⟩
  show '/' ∉ ((readPart path pathlen).drop st.token).take (st.tokenLen + 1)
  rw [List.take_add_one, List.mem_append, List.getElem?_drop, hidx, hread]
  rintro (hm | hm)
  · exact h.pending hm
  · exact hc (by simpa [eq_comm] using hm)

/-- Starting on the next token. -/
theorem SanitizeInv.next (h : Holds stack st) (hwithin : pathlen ≤ path.length)
    (hsize : st.result.length = pathlen + 1) (hroom : stack = [] ∨ st.resultLen ≤ i) :
    SanitizeInv path pathlen stack (i + 1) { st with token := i + 1, tokenLen := 0 } where
  toHolds := ⟨h.written, h.resultLen_eq⟩
  within := hwithin
  size := hsize
  index := rfl
  pending := by simp
  token_pos := by simp
  room := hroom.imp_right Nat.succ_le_succ

/-- One round: the token grows, or it is pushed and the rest of what is read is split on. What the
names and the components that end in the rest come to stays the same. -/
theorem sanitizeStep_normalizes (h : SanitizeInv path pathlen stack i st) (hi : i ≤ pathlen) :
    ∃ st' stack', sanitizeStep path i st = some st' ∧
      SanitizeInv path pathlen stack' (i + 1) st' ∧
      normalizeFrom stack (((readPart path pathlen).drop st.token).splitOn '/').dropLast =
        normalizeFrom stack' (((readPart path pathlen).drop st'.token).splitOn '/').dropLast := by
  have hidx := h.index
  have hpend := h.pending
  have htoken := take_drop_readPart (hidx.trans_le hi) h.within
  have hsplit : (readPart path pathlen).drop st.token =
      ((readPart path pathlen).drop st.token).take st.tokenLen ++
        (readPart path pathlen).drop i := by
    rw [← hidx, ← List.drop_drop, List.take_append_drop]
  obtain ⟨c, hpath, hread⟩ := getElem?_readPart hi h.within
  rw [sanitizeStep, hpath]
  by_cases hc : c = some '/' ∨ c = none
  · obtain ⟨st', hpush, hholds, hsize, hroom⟩ := sanitizeToken_push h hi
    refine ⟨_, _, by simp [hc, hpush], SanitizeInv.next hholds h.within hsize hroom, ?_⟩
    have hslash : c.getD '/' = '/' := by rcases hc with rfl | rfl <;> rfl
    obtain ⟨hlt, hget⟩ := List.getElem?_eq_some_iff.mp hread
    rw [← htoken]
    generalize ((readPart path pathlen).drop st.token).take st.tokenLen = t at hsplit hpend ⊢
    rw [hsplit, List.drop_eq_getElem_cons hlt, hget, hslash,
      List.splitOn_append_cons_self_of_not_mem hpend,
      List.dropLast_cons_of_ne_nil (List.splitOn_ne_nil _ _)]
    rfl
  · obtain ⟨c, rfl⟩ := Option.ne_none_iff_exists'.mp fun h => hc (.inr h)
    have hne : c ≠ '/' := fun h => hc (.inl (congrArg some h))
    exact ⟨_, stack, by simp [hne], h.read hread hne, rfl⟩

/-- The rest of the loop processes the tokens that end in what is left, by induction on the
rounds. -/
theorem sanitizeLoop_normalizes (rounds : Nat) (h : SanitizeInv path pathlen stack i st)
    (hi : i + rounds = pathlen + 1) :
    ∃ st', sanitizeLoop path rounds i st = some st' ∧
      SanitizeInv path pathlen
        (normalizeFrom stack (((readPart path pathlen).drop st.token).splitOn '/').dropLast)
        (pathlen + 1) st' := by
  induction rounds generalizing i stack st with
  | zero =>
    have hlast : i = pathlen + 1 := hi
    have hidx := h.index
    have hlen := length_readPart h.within
    have hrest : ((readPart path pathlen).drop st.token).take st.tokenLen =
        (readPart path pathlen).drop st.token := by
      apply List.take_of_length_le
      rw [List.length_drop]
      omega
    have hpend := h.pending
    rw [hrest] at hpend
    refine ⟨st, rfl, ?_⟩
    rw [List.splitOn_eq_singleton hpend, ← hlast]
    exact h
  | succ rounds ih =>
    obtain ⟨st', stack', hstep, hinv, hnames⟩ := sanitizeStep_normalizes h (by omega)
    obtain ⟨st'', hloop, hinv'⟩ := ih hinv (by omega)
    refine ⟨st'', ?_, hnames ▸ hinv'⟩
    rw [sanitizeLoop, hstep, Option.bind_some]
    exact hloop

end Loop

/-! ## The whole function -/

theorem length_pos_of_isAbsolutePath {path : CStr} (h : isAbsolutePath path = true) :
    0 < path.length := by
  cases path with
  | nil => simp [isAbsolutePath] at h
  | cons c path => simp

/-- Before the loop the slash is written. -/
theorem SanitizeInv.start {path : CStr} {pathlen : Nat} (hwithin : pathlen ≤ path.length)
    {result : Buffer} (hsize : result.length = pathlen + 1) :
    ∃ b, writeCell result 0 (some '/') = some b ∧
      SanitizeInv path pathlen [] 1 { result := b, resultLen := 1, tokenLen := 0, token := 1 } := by
  obtain ⟨b, hw, hl, ht⟩ := writeCell_take (b := result) (i := 0) (c := some '/') (by omega)
  exact ⟨b, hw, ⟨⟨ht, rfl⟩, hwithin, hl.trans hsize, rfl, by simp, Nat.le_refl 1, Or.inl rfl⟩⟩

/-- There is room for the terminator, also in the middle of the loop. -/
theorem SanitizeInv.resultLen_le {path : CStr} {pathlen : Nat} {stack : List Name} {i : Nat}
    {st : SanitizeState} (h : SanitizeInv path pathlen stack i st) (hi : i ≤ pathlen + 1)
    (hpos : 0 < pathlen) : st.resultLen ≤ pathlen := by
  have hidx := h.index
  rcases h.room with hs | hr
  · rw [h.resultLen_eq, hs]
    exact hpos
  · omega

/-- Whatever the buffer held before, the sanitiser stays inside it and gives the path that the
components come to which it reads. -/
theorem sanitizeInto_eq {path : CStr} {pathlen : Nat} (hpos : 0 < pathlen)
    (hwithin : pathlen ≤ path.length) {result : Buffer} (hsize : result.length = pathlen + 1) :
    sanitizeInto path result =
      some (absPath (Paths.normalize (componentsRead path pathlen))) ∧
    (absPath (Paths.normalize (componentsRead path pathlen))).length ≤ pathlen := by
  obtain ⟨b, hw, hinit⟩ := SanitizeInv.start hwithin hsize
  obtain ⟨st, hloop, hinv⟩ := sanitizeLoop_normalizes pathlen hinit (by omega)
  have hstack : normalizeFrom [] (((readPart path pathlen).drop 1).splitOn '/').dropLast =
      Paths.normalize (componentsRead path pathlen) := by
    simp [Paths.normalize, componentsRead, tokensOf]
  rw [hstack] at hinv
  have hle := hinv.resultLen_le (Nat.le_refl _) hpos
  have hfit : st.resultLen < st.result.length := by
    rw [hinv.size]
    exact Nat.lt_succ_of_le hle
  obtain ⟨b', hw', -, ht'⟩ := writeCell_take (b := st.result) (i := st.resultLen) (c := none) hfit
  have hcstr : cstr b' = absPath (Paths.normalize (componentsRead path pathlen)) := by
    rw [← List.take_append_drop (st.resultLen + 1) b', ht', hinv.written, List.append_assoc]
    exact cstr_map_some_append _ _
  have hrounds : result.length - 1 = pathlen := by omega
  refine ⟨?_, hinv.resultLen_eq ▸ hle⟩
  unfold sanitizeInto
  simp only [hw, hrounds, Option.bind_eq_bind, Option.bind_some, hloop, hw', hcstr]
  rfl

end Umsftpd
