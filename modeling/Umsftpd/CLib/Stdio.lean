import Umsftpd.CLib.Posix
import Umsftpd.Text.Words

/-!
# Streams and tokens

What a program sees of `<stdio.h>` and of `strtok`. A stream that is read is the list of what it
still gives, characters and the errors between them, and the end of the list is the end of the file.
A stream that is written takes what it is handed, or fails after some of it.
-/

namespace Umsftpd.CLib

open Text

variable {α : Type}

/-! ## Reading -/

/-- What reading a stream still gives. -/
abbrev Stream (α : Type) := List (Except Errno α)

namespace Stream

/-- The characters before the first error. -/
def good : Stream α → List α
  | .ok a :: s => a :: good s
  | _ => []

/-- The first error, if there is one before the end. -/
def failure : Stream α → Option Errno
  | [] => none
  | .error errno :: _ => some errno
  | .ok _ :: s => failure s

/-- A stream that gives a text and then ends. -/
def ofText (text : List α) : Stream α := text.map .ok

end Stream

/-- `fread(ptr, 1, n, stream)`: the characters that are stored, `errno` where the call fails, and
the stream after it. -/
def fread : Nat → Stream α → List α × Option Errno × Stream α
  | 0, s => ([], none, s)
  | _ + 1, [] => ([], none, [])
  | _ + 1, .error errno :: s => ([], some errno, s)
  | n + 1, .ok a :: s => (a :: (fread n s).1, (fread n s).2)

/-- A read is full, or it comes to an error or to the end. -/
theorem fread_eq (n : Nat) (s : Stream α) :
    fread n s =
      if n ≤ s.good.length then (s.good.take n, none, s.drop n)
      else (s.good, s.failure, s.drop (s.good.length + 1)) := by
  fun_induction fread n s with
  | case1 s => simp
  | case2 n => simp [Stream.good, Stream.failure]
  | case3 n errno s => simp [Stream.good, Stream.failure]
  | case4 n a s ih =>
    rw [ih]
    by_cases h : n ≤ (Stream.good s).length
    · have h' : n.succ ≤ (Stream.good (.ok a :: s)).length := Nat.succ_le_succ h
      rw [if_pos h, if_pos h']
      rfl
    · have h' : ¬n.succ ≤ (Stream.good (.ok a :: s)).length :=
        fun hle => h (Nat.le_of_succ_le_succ hle)
      rw [if_neg h, if_neg h']
      rfl

theorem good_drop {s : Stream α} {n : Nat} (h : n ≤ s.good.length) :
    Stream.good (s.drop n) = s.good.drop n := by
  induction n generalizing s with
  | zero => rfl
  | succ n ih =>
    cases s with
    | nil => rfl
    | cons x s =>
      cases x with
      | error errno => exact absurd h (by simp [Stream.good])
      | ok a => exact ih (Nat.le_of_succ_le_succ h)

theorem failure_drop {s : Stream α} {n : Nat} (h : n ≤ s.good.length) :
    Stream.failure (s.drop n) = s.failure := by
  induction n generalizing s with
  | zero => rfl
  | succ n ih =>
    cases s with
    | nil => rfl
    | cons x s =>
      cases x with
      | error errno => exact absurd h (by simp [Stream.good])
      | ok a => exact ih (Nat.le_of_succ_le_succ h)

theorem length_good_le (s : Stream α) : s.good.length ≤ s.length := by
  induction s with
  | nil => exact Nat.le_refl _
  | cons x s ih =>
    cases x with
    | error errno => exact Nat.zero_le _
    | ok a => exact Nat.succ_le_succ ih

/-- Without an error the stream is a text. -/
theorem length_good {s : Stream α} (h : s.failure = none) : s.good.length = s.length := by
  induction s with
  | nil => rfl
  | cons x s ih =>
    cases x with
    | error errno => exact absurd h (by simp [Stream.failure])
    | ok a => exact congrArg (· + 1) (ih h)

/-- A read that stores something leaves less. -/
theorem length_fread_lt {n : Nat} {s : Stream α} (h : (fread n s).1 ≠ []) :
    (fread n s).2.2.length < s.length := by
  rw [fread_eq] at h ⊢
  have hle := length_good_le s
  by_cases hn : n ≤ s.good.length
  · rw [if_pos hn] at h ⊢
    have hpos : 0 < n := by
      rcases Nat.eq_zero_or_pos n with rfl | hpos
      · exact absurd rfl h
      · exact hpos
    rw [List.length_drop]
    omega
  · rw [if_neg hn] at h ⊢
    have hpos : 0 < s.good.length := List.length_pos_iff.mpr h
    rw [List.length_drop]
    omega

/-! ## Lines -/

/-- The newline, as a cell. -/
def isNewline (cell : Option Char) : Bool := cell == some '\n'

/-- The characters that `fgets` stores when it may store `n`, unless it comes to an error. -/
def fgetsLoop : Nat → Stream (Option Char) → Option Buffer × Stream (Option Char)
  | 0, s => (some [], s)
  | _ + 1, [] => (some [], [])
  | _ + 1, .error _ :: s => (none, s)
  | n + 1, .ok cell :: s =>
    if isNewline cell then (some [cell], s)
    else ((fgetsLoop n s).1.map (cell :: ·), (fgetsLoop n s).2)

/-- `fgets(s, n, stream)`: the cells that are stored before the terminator, and the stream after
it. There are none where it returns `NULL`, at the end of the stream or for an error. -/
def fgets (n : Nat) (s : Stream (Option Char)) : Option Buffer × Stream (Option Char) :=
  match fgetsLoop (n - 1) s with
  | (some (cell :: cells), s) => (some (cell :: cells), s)
  | (_, s) => (none, s)

/-- Unless an error comes first, it stores a piece of the text. -/
theorem fgetsLoop_ofText (n : Nat) (text : Buffer) :
    fgetsLoop n (Stream.ofText text) =
      (some (piece isNewline n text).1, Stream.ofText (piece isNewline n text).2) := by
  fun_induction piece isNewline n text with
  | case1 text => cases text <;> rfl
  | case2 n => rfl
  | case3 n cell text h => simp [Stream.ofText, fgetsLoop, h]
  | case4 n cell text h ih =>
    have ih' : fgetsLoop n (List.map Except.ok text) = _ := ih
    simp [Stream.ofText, fgetsLoop, h, ih']

theorem fgets_ofText {n : Nat} (hn : 1 < n) (text : Buffer) :
    fgets n (Stream.ofText text) =
      if text = [] then (none, [])
      else (some (piece isNewline (n - 1) text).1,
        Stream.ofText (piece isNewline (n - 1) text).2) := by
  unfold fgets
  rw [fgetsLoop_ofText]
  by_cases htext : text = []
  · obtain ⟨m, hm⟩ := Nat.exists_eq_succ_of_ne_zero (show n - 1 ≠ 0 by omega)
    rw [if_pos htext, htext, hm]
    rfl
  · have hne := piece_ne_nil isNewline (show 0 < n - 1 by omega) htext
    rw [if_neg htext]
    cases hp : (piece isNewline (n - 1) text).1 with
    | nil => exact absurd hp hne
    | cons cell cells => rfl

/-- What is stored comes from the front of the stream. -/
theorem fgetsLoop_append {n : Nat} {s rest : Stream (Option Char)} {cells : Buffer}
    (h : fgetsLoop n s = (some cells, rest)) : s = Stream.ofText cells ++ rest := by
  fun_induction fgetsLoop n s generalizing cells rest with
  | case1 s =>
    obtain ⟨⟨⟩, rfl⟩ := Prod.mk.inj h
    rfl
  | case2 n =>
    obtain ⟨⟨⟩, rfl⟩ := Prod.mk.inj h
    rfl
  | case3 n errno s => exact absurd (congrArg Prod.fst h) (by simp)
  | case4 n cell s hend =>
    obtain ⟨⟨⟩, rfl⟩ := Prod.mk.inj h
    rfl
  | case5 n cell s hend ih =>
    obtain ⟨hcells, hrest⟩ := Prod.mk.inj h
    obtain ⟨cells', hcells', rfl⟩ := Option.map_eq_some_iff.mp hcells
    have hs := ih (Prod.ext hcells' hrest)
    exact congrArg (Except.ok cell :: ·) hs

theorem fgets_append {n : Nat} {s rest : Stream (Option Char)} {cells : Buffer}
    (h : fgets n s = (some cells, rest)) : cells ≠ [] ∧ s = Stream.ofText cells ++ rest := by
  unfold fgets at h
  split at h
  · next cell cells' rest' hloop =>
    obtain ⟨⟨⟩, rfl⟩ := Prod.mk.inj h
    exact ⟨List.cons_ne_nil _ _, fgetsLoop_append hloop⟩
  · exact absurd (congrArg Prod.fst h) (by simp)

/-! ## Writing -/

/-- What a stream does with the text it is handed: it takes all of it, or at most `count` of it
before it fails. -/
inductive Taking where
  | all
  | failing (count : Nat) (errno : Errno)

/-- `fwrite(text, 1, n, stream)`: what the stream takes, and `errno` where the call fails. -/
def fwrite (taking : Taking) (text : List α) : List α × Option Errno :=
  match taking with
  | .all => (text, none)
  | .failing count errno =>
    if count < text.length then (text.take count, some errno) else (text, none)

/-- A short count is an error, and an error is a short count. -/
theorem fwrite_cases (taking : Taking) (text : List α) :
    (fwrite taking text = (text, none)) ∨
      ∃ written errno, fwrite taking text = (written, some errno) ∧ written <+: text ∧
        written.length < text.length := by
  cases taking with
  | all => exact .inl rfl
  | failing count errno =>
    unfold fwrite
    dsimp only
    split
    · next h =>
      refine .inr ⟨_, errno, rfl, List.take_prefix _ _, ?_⟩
      rw [List.length_take]
      omega
    · exact .inl rfl

/-! ## Tokens -/

section Tokens

variable (delim : List Char)

/-- `strtok`, on the string that is given or saved: the token that comes next and the string that
is saved behind it, none where `NULL` is returned. -/
def strtok (saved : CStr) : Option (CStr × CStr) :=
  match saved.dropWhile (delim.contains ·) with
  | [] => none
  | c :: rest =>
    some (c :: rest.takeWhile (!delim.contains ·), (rest.dropWhile (!delim.contains ·)).tail)

theorem length_strtok_lt {saved token rest : CStr} (h : strtok delim saved = some (token, rest)) :
    rest.length < saved.length := by
  unfold strtok at h
  split at h
  · exact absurd h (by simp)
  · next c tail hdrop =>
    obtain ⟨rfl, rfl⟩ := Prod.mk.inj (Option.some.inj h)
    have h1 := (List.dropWhile_suffix (p := (delim.contains ·)) (l := saved)).length_le
    have h2 := (List.dropWhile_suffix (p := (!delim.contains ·)) (l := tail)).length_le
    rw [hdrop, List.length_cons] at h1
    rw [List.length_tail]
    omega

/-- The tokens that `strtok` returns for a string before it returns `NULL`. -/
def strtokAll (saved : CStr) : List CStr :=
  match _h : strtok delim saved with
  | none => []
  | some (token, rest) => token :: strtokAll rest
termination_by saved.length
decreasing_by exact length_strtok_lt delim _h

/-- The tokens are the words. -/
theorem strtokAll_eq_words (saved : CStr) :
    strtokAll delim saved = words (delim.contains ·) saved := by
  fun_induction strtokAll delim saved with
  | case1 saved hnone =>
    rw [← words_dropWhile]
    unfold strtok at hnone
    split at hnone
    · next hdrop => rw [hdrop, words_nil]
    · exact absurd hnone (by simp)
  | case2 saved token rest hsome ih =>
    unfold strtok at hsome
    split at hsome
    · exact absurd hsome (by simp)
    · next c tail hdrop =>
      obtain ⟨rfl, rfl⟩ := Prod.mk.inj (Option.some.inj hsome)
      have hc : delim.contains c = false := by
        have hhead := List.head?_dropWhile_not (delim.contains ·) saved
        rw [hdrop] at hhead
        exact hhead
      have hword : IsWord (delim.contains ·) (c :: tail.takeWhile (!delim.contains ·)) := by
        refine ⟨List.cons_ne_nil _ _, ?_⟩
        intro a ha
        rcases List.mem_cons.mp ha with rfl | ha
        · exact hc
        · simpa using List.mem_takeWhile_imp ha
      have hsplit : c :: tail = (c :: tail.takeWhile (!delim.contains ·)) ++
          tail.dropWhile (!delim.contains ·) := by
        rw [List.cons_append, List.takeWhile_append_dropWhile]
      rw [ih, ← words_dropWhile saved, hdrop, hsplit]
      cases hrest : tail.dropWhile (!delim.contains ·) with
      | nil => rw [List.append_nil, hword.words, List.tail_nil, words_nil]
      | cons a rest =>
        have ha : delim.contains a = true := by
          have hhead := List.head?_dropWhile_not (!delim.contains ·) tail
          rw [hrest] at hhead
          simpa only [List.head?_cons, Bool.not_eq_false'] using hhead
        rw [hword.words_cons ha, List.tail_cons]

end Tokens

end Umsftpd.CLib
