import Mathlib

/-!
# Words and pieces

Two ways to cut a text. `words` are the maximal runs between separators. `pieces` end at the first
end mark, or when they are as long as they may get, and together they are the text.
-/

namespace Umsftpd.Text

variable {α : Type*}

/-! ## Words -/

section Words

variable (sep : α → Bool)

/-- A word is not empty and holds no separator. -/
structure IsWord (w : List α) : Prop where
  ne_nil : w ≠ []
  no_sep : ∀ a ∈ w, sep a = false

/-- The maximal runs without separators, in their order. -/
def words (s : List α) : List (List α) := (s.splitOnP sep).filter fun w => !w.isEmpty

/-- The parts of a text and what is between them are all of it. -/
theorem sum_length_splitOnP (s : List α) :
    ((s.splitOnP sep).map fun w => w.length + 1).sum = s.length + 1 := by
  induction s with
  | nil => rfl
  | cons a s ih =>
    rw [List.splitOnP_cons_eq_if_modifyHead]
    by_cases ha : sep a = true
    · rw [if_pos ha, List.map_cons, List.sum_cons, ih, List.length_nil, List.length_cons]
      omega
    · obtain ⟨w, ws, hsplit⟩ := List.exists_cons_of_ne_nil (List.splitOnP_ne_nil sep s)
      rw [hsplit, List.map_cons, List.sum_cons] at ih
      rw [if_neg ha, hsplit, List.modifyHead_cons, List.map_cons, List.sum_cons, List.length_cons,
        List.length_cons]
      omega

variable {sep}

@[simp] theorem words_nil : words sep [] = [] := rfl

/-- A separator ends the words before it. -/
theorem words_append_sep (s : List α) {a : α} (ha : sep a = true) (t : List α) :
    words sep (s ++ a :: t) = words sep s ++ words sep t := by
  unfold words
  rw [List.splitOnP_append_cons s t ha, List.filter_append]

theorem words_cons_sep {a : α} (ha : sep a = true) (s : List α) :
    words sep (a :: s) = words sep s := words_append_sep [] ha s

theorem words_dropWhile (s : List α) : words sep (s.dropWhile sep) = words sep s := by
  induction s with
  | nil => rfl
  | cons a s ih =>
    cases ha : sep a with
    | true => rw [List.dropWhile_cons_of_pos ha, ih, words_cons_sep ha]
    | false => rw [List.dropWhile_cons_of_neg (by simp [ha])]

theorem words_of_no_sep {s : List α} (h : ∀ a ∈ s, sep a = false) :
    words sep s = if s.isEmpty then [] else [s] := by
  unfold words
  rw [List.splitOnP_eq_singleton h]
  cases s <;> rfl

theorem IsWord.words {w : List α} (h : IsWord sep w) : words sep w = [w] := by
  rw [words_of_no_sep h.no_sep, if_neg (by simpa using h.ne_nil)]

/-- A text of words with a separator behind each of them. -/
theorem IsWord.words_cons {w : List α} (h : IsWord sep w) {a : α} (ha : sep a = true)
    (s : List α) : Text.words sep (w ++ a :: s) = w :: Text.words sep s := by
  rw [words_append_sep w ha s, h.words]
  rfl

/-- Words have room in their text, with a separator between any two. -/
theorem sum_length_words_le (s : List α) :
    ((words sep s).map fun w => w.length + 1).sum ≤ s.length + 1 := by
  rw [← sum_length_splitOnP sep]
  exact (List.filter_sublist.map _).sum_le_sum fun _ _ => Nat.zero_le _

end Words

/-! ## Pieces -/

section Pieces

variable (isEnd : α → Bool)

/-- The first piece of a text, of at most `n` elements, and what comes after it. -/
def piece : Nat → List α → List α × List α
  | 0, s => ([], s)
  | _ + 1, [] => ([], [])
  | n + 1, a :: s =>
    if isEnd a then ([a], s) else (a :: (piece n s).1, (piece n s).2)

/-- A piece as it is cut out of `s` with `rest` left: an end mark is the last of its elements, and
it is only short of `n` elements where an end mark or the text ends it. -/
structure IsPiece (n : Nat) (p rest : List α) : Prop where
  length_le : p.length ≤ n
  only_last : ∀ a ∈ p.dropLast, isEnd a = false
  full : p.length = n ∨ (∃ a, p.getLast? = some a ∧ isEnd a = true) ∨ rest = []

variable {isEnd}

variable (isEnd) in
theorem piece_append (n : Nat) (s : List α) :
    (piece isEnd n s).1 ++ (piece isEnd n s).2 = s := by
  fun_induction piece isEnd n s with
  | case1 s => rfl
  | case2 n => rfl
  | case3 n a s h => rfl
  | case4 n a s h ih => rw [List.cons_append, ih]

variable (isEnd) in
theorem piece_isPiece (n : Nat) (s : List α) :
    IsPiece isEnd n (piece isEnd n s).1 (piece isEnd n s).2 := by
  fun_induction piece isEnd n s with
  | case1 s => exact ⟨Nat.le_refl _, by simp, .inl rfl⟩
  | case2 n => exact ⟨Nat.zero_le _, by simp, .inr (.inr rfl)⟩
  | case3 n a s h => exact ⟨by simp, by simp, .inr (.inl ⟨a, rfl, h⟩)⟩
  | case4 n a s h ih =>
    refine ⟨Nat.succ_le_succ ih.length_le, ?_, ?_⟩
    · intro b hb
      cases hp : (piece isEnd n s).1 with
      | nil => simp [hp] at hb
      | cons c p =>
        rw [hp, List.dropLast_cons_cons, List.mem_cons] at hb
        rcases hb with rfl | hb
        · simpa using h
        · exact ih.only_last b (by rw [hp]; exact hb)
    · rcases ih.full with hlen | ⟨b, hb, hend⟩ | hrest
      · exact .inl (congrArg (· + 1) hlen)
      · refine .inr (.inl ⟨b, ?_, hend⟩)
        rw [List.getLast?_cons, hb, Option.getD_some]
      · exact .inr (.inr hrest)

variable (isEnd) in
theorem piece_ne_nil {n : Nat} (hn : 0 < n) {s : List α} (hs : s ≠ []) :
    (piece isEnd n s).1 ≠ [] := by
  obtain ⟨n, rfl⟩ := Nat.exists_eq_succ_of_ne_zero (Nat.ne_of_gt hn)
  cases s with
  | nil => exact absurd rfl hs
  | cons a s =>
    unfold piece
    split <;> exact List.cons_ne_nil _ _

theorem length_piece_rest_lt {n : Nat} {s p rest : List α} {a : α}
    (h : piece isEnd n s = (a :: p, rest)) : rest.length < s.length := by
  have happend := piece_append isEnd n s
  rw [h] at happend
  rw [← happend]
  simp

variable (isEnd) in
/-- A text cut into pieces of at most `n` elements. -/
def pieces (n : Nat) (s : List α) : List (List α) :=
  match _h : piece isEnd n s with
  | ([], _) => []
  | (a :: p, rest) => (a :: p) :: pieces n rest
termination_by s.length
decreasing_by exact length_piece_rest_lt _h

@[simp] theorem pieces_nil (n : Nat) : pieces isEnd n [] = [] := by
  unfold pieces
  cases n <;> rfl

theorem pieces_ne_nil {n : Nat} (hn : 0 < n) {s : List α} (hs : s ≠ []) :
    pieces isEnd n s = (piece isEnd n s).1 :: pieces isEnd n (piece isEnd n s).2 := by
  have hne := piece_ne_nil isEnd hn hs
  rw [pieces]
  split
  · next h => exact absurd (congrArg Prod.fst h) hne
  · next h => rw [h]

/-- The pieces are the text: nothing is lost and nothing comes twice. -/
theorem flatten_pieces {n : Nat} (hn : 0 < n) (s : List α) : (pieces isEnd n s).flatten = s := by
  induction hlen : s.length using Nat.strong_induction_on generalizing s with
  | _ len ih =>
    by_cases hs : s = []
    · rw [hs, pieces_nil, List.flatten_nil]
    · have happend := piece_append isEnd n s
      have hlt : (piece isEnd n s).2.length < len := by
        have hpos := List.length_pos_iff.mpr (piece_ne_nil isEnd hn hs)
        rw [← hlen, ← congrArg List.length happend, List.length_append]
        omega
      rw [pieces_ne_nil hn hs, List.flatten_cons, ih _ hlt _ rfl, happend]

/-- A piece that is not longer than a smaller bound is cut out with that as well. -/
theorem piece_of_length_le {n m : Nat} (hnm : n ≤ m) {s : List α}
    (h : (piece isEnd m s).1.length ≤ n) : piece isEnd n s = piece isEnd m s := by
  induction s generalizing n m with
  | nil => cases n <;> cases m <;> rfl
  | cons a s ih =>
    cases m with
    | zero =>
      obtain rfl := Nat.le_zero.mp hnm
      rfl
    | succ m =>
      cases n with
      | zero =>
        have hpos := List.length_pos_iff.mpr
          (piece_ne_nil isEnd (Nat.succ_pos m) (List.cons_ne_nil a s))
        exact absurd h (Nat.not_le_of_lt hpos)
      | succ n =>
        unfold piece at h ⊢
        split
        · rfl
        · next hend =>
          rw [if_neg hend, List.length_cons] at h
          rw [ih (Nat.le_of_succ_le_succ hnm) (Nat.le_of_succ_le_succ h)]

/-- A smaller bound gives the same pieces exactly when none of them is longer. -/
theorem pieces_eq_iff {n m : Nat} (hn : 0 < n) (hnm : n ≤ m) (s : List α) :
    pieces isEnd n s = pieces isEnd m s ↔ ∀ p ∈ pieces isEnd m s, p.length ≤ n := by
  induction hlen : s.length using Nat.strong_induction_on generalizing s with
  | _ len ih =>
    by_cases hs : s = []
    · simp [hs]
    · have hm : 0 < m := Nat.lt_of_lt_of_le hn hnm
      rw [pieces_ne_nil hn hs, pieces_ne_nil hm hs, List.forall_mem_cons]
      by_cases hle : (piece isEnd m s).1.length ≤ n
      · have hlt : (piece isEnd m s).2.length < len := by
          have happend := congrArg List.length (piece_append isEnd m s)
          have hpos := List.length_pos_iff.mpr (piece_ne_nil isEnd hm hs)
          rw [List.length_append] at happend
          omega
        rw [piece_of_length_le hnm hle, List.cons.injEq, ih _ hlt _ rfl]
        simp [hle]
      · have hlen_le := (piece_isPiece isEnd n s).length_le
        constructor
        · intro heq
          exact absurd ((congrArg List.length (List.cons.inj heq).1) ▸ hlen_le) hle
        · exact fun h => absurd h.1 hle

/-- Behind an end mark the cutting starts anew. -/
theorem piece_append_end {n : Nat} (hn : 0 < n) {s : List α} {a : α} (ha : isEnd a = true)
    (t : List α) :
    piece isEnd n (s ++ a :: t) =
      ((piece isEnd n (s ++ [a])).1, (piece isEnd n (s ++ [a])).2 ++ t) := by
  induction s generalizing n with
  | nil =>
    obtain ⟨n, rfl⟩ := Nat.exists_eq_succ_of_ne_zero (Nat.ne_of_gt hn)
    simp [piece, ha]
  | cons b s ih =>
    obtain ⟨n, rfl⟩ := Nat.exists_eq_succ_of_ne_zero (Nat.ne_of_gt hn)
    rw [List.cons_append, List.cons_append, piece, piece]
    cases hb : isEnd b with
    | true => simp
    | false =>
      cases n with
      | zero => simp [piece]
      | succ n => simp [ih (Nat.succ_pos n)]

variable (isEnd) in
/-- What is left behind the first piece of a text that ends with an end mark ends with it too, or
is empty. -/
theorem piece_rest_end (n : Nat) (s : List α) (a : α) :
    (piece isEnd n (s ++ [a])).2 = [] ∨
      ∃ s', (piece isEnd n (s ++ [a])).2 = s' ++ [a] := by
  have happend := piece_append isEnd n (s ++ [a])
  rcases List.eq_nil_or_concat (piece isEnd n (s ++ [a])).2 with h | ⟨s', b, h⟩
  · exact .inl h
  · refine .inr ⟨s', ?_⟩
    rw [List.concat_eq_append] at h
    rw [h, ← List.append_assoc] at happend
    rw [h, (List.append_inj' happend rfl).2]

end Pieces

end Umsftpd.Text
