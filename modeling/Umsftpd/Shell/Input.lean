import Umsftpd.Shell.Commands

/-!
# What a session reads

On a text without errors the lines of a session are the pieces of the text, in their order. Nothing
of it is lost, and a session over two texts is a session over the first and then one over the
second.
-/

namespace Umsftpd

open CLib Systems Text

variable {libc : LibC} {start : Vfs} {rounds : List ShellRound} {s s' : Shell}

/-- The first line of a text, and what comes after it. -/
def firstLine (text : Buffer) : Buffer × Buffer := piece isNewline (lineSize - 1) text

/-- A round over a text reads its first line. -/
theorem shellStep_text {vfs : Vfs} {text : Buffer} (hne : text ≠ []) :
    ShellStep libc ⟨vfs, Stream.ofText text, false⟩ rounds s' ↔
      ∃ os mallocs console vfs' output w',
        vfsShellRound libc console vfs (firstLine text).1 os ⟨mallocs, []⟩ =
          some ((vfs', output), w') ∧
        rounds = [⟨os, mallocs, console, vfs, some (firstLine text).1, w'.calls, output, vfs'⟩] ∧
        s' = ⟨vfs', Stream.ofText (firstLine text).2, false⟩ := by
  have hfgets : fgets lineSize (Stream.ofText text) =
      (some (firstLine text).1, Stream.ofText (firstLine text).2) := by
    rw [fgets_ofText (by decide), if_neg hne]
    rfl
  constructor
  · intro hstep
    cases hstep with
    | round os mallocs console hread hrun =>
      obtain ⟨hcells, rfl⟩ := Prod.mk.inj (hread.symm.trans hfgets)
      obtain rfl := Option.some.inj hcells
      exact ⟨os, mallocs, console, _, _, _, hrun, rfl, rfl⟩
    | eof os mallocs console hread =>
      exact absurd (congrArg Prod.fst (hread.symm.trans hfgets)) (by simp)
  · rintro ⟨os, mallocs, console, vfs', output, w', hrun, rfl, rfl⟩
    exact .round os mallocs console hfgets hrun

/-- At the end of a text it returns. -/
theorem shellStep_end {vfs : Vfs} (hstep : ShellStep libc ⟨vfs, [], false⟩ rounds s') :
    rounds.map ShellRound.cells = [none] ∧ s' = ⟨vfs, [], true⟩ := by
  have hfgets : fgets lineSize ([] : Stream (Option Char)) = (none, []) := rfl
  cases hstep with
  | round os mallocs console hread hrun =>
    exact absurd (congrArg Prod.fst (hread.symm.trans hfgets)) (by simp)
  | eof os mallocs console hread =>
    obtain ⟨-, rfl⟩ := Prod.mk.inj (hread.symm.trans hfgets)
    exact ⟨rfl, rfl⟩

/-- No round starts after the last. -/
theorem ShellStep.going (hstep : ShellStep libc s rounds s') : s.returned = false := by
  cases hstep <;> rfl

/-! ## Lines -/

/-- What has been read after some rounds and what is still to come. -/
def Reads (text : Buffer) (rounds : List ShellRound) (s : Shell) : Prop :=
  ∃ rest, s.stdin = Stream.ofText rest ∧
    if s.returned then rest = [] ∧ rounds.map ShellRound.cells =
      (pieces isNewline (lineSize - 1) text).map some ++ [none]
    else ∃ lines, rounds.map ShellRound.cells = lines.map some ∧
      lines ++ pieces isNewline (lineSize - 1) rest = pieces isNewline (lineSize - 1) text

/-- The step. -/
theorem ShellStep.reads_lines {text : Buffer} {before : List ShellRound}
    (hstep : ShellStep libc s rounds s') (h : Reads text before s) :
    Reads text (before ++ rounds) s' := by
  obtain ⟨vfs, stdin, returned⟩ := s
  obtain rfl : returned = false := hstep.going
  obtain ⟨rest, rfl, lines, hlines, hpieces⟩ := h
  by_cases hrest : rest = []
  · subst hrest
    obtain ⟨hcells, rfl⟩ := shellStep_end hstep
    refine ⟨[], rfl, rfl, ?_⟩
    rw [List.map_append, hlines, hcells, ← hpieces, pieces_nil, List.append_nil]
  · obtain ⟨os, mallocs, console, vfs', output, w', -, rfl, rfl⟩ := (shellStep_text hrest).mp hstep
    refine ⟨(firstLine rest).2, rfl, lines ++ [(firstLine rest).1], ?_, ?_⟩
    · rw [List.map_append, hlines, List.map_append]
      rfl
    · rw [← hpieces, pieces_ne_nil (by decide) hrest, List.append_assoc]
      rfl

/-- The run. -/
theorem shellRun_reads {text : Buffer}
    (hrun : ShellRun libc ⟨start, Stream.ofText text, false⟩ rounds s') : Reads text rounds s' := by
  have hstart : Reads text [] ⟨start, Stream.ofText text, false⟩ :=
    ⟨text, rfl, [], rfl, rfl⟩
  exact hrun.preserves hstart fun _ _ _ _ h hstep => hstep.reads_lines h

/-- **Lines of a session.** A session that has returned has read its text in pieces of at most 254
characters, once and in their order, and then nothing; these are the lines of the text exactly when
no line of it is longer. -/
theorem shellRun_lines {text : Buffer}
    (hrun : ShellRun libc ⟨start, Stream.ofText text, false⟩ rounds s')
    (hreturned : s'.returned = true) :
    rounds.map ShellRound.cells = (pieces isNewline 254 text).map some ++ [none] ∧
      (rounds.filterMap ShellRound.cells).flatten = text ∧
      ∀ m, 254 ≤ m → (rounds.filterMap ShellRound.cells = pieces isNewline m text ↔
        ∀ line ∈ pieces isNewline m text, line.length ≤ 254) := by
  obtain ⟨rest, -, hread⟩ := shellRun_reads hrun
  rw [hreturned, if_pos rfl] at hread
  have hmap : rounds.map ShellRound.cells = (pieces isNewline 254 text).map some ++ [none] :=
    hread.2
  have hcells : rounds.filterMap ShellRound.cells = pieces isNewline 254 text := by
    have h := congrArg (List.filterMap id) hmap
    simpa [List.filterMap_map, Function.comp_def] using h
  refine ⟨hmap, ?_, fun m hm => ?_⟩
  · rw [hcells, flatten_pieces (by decide)]
  · rw [hcells]
    exact pieces_eq_iff (by decide) hm text

theorem shellRun_lines_putLine :
    ∃ start rounds s', ShellRun LibC.reference ⟨start, Stream.ofText putLine, false⟩ rounds s' ∧
      rounds.map ShellRound.cells = [some putLine, none] := by
  obtain ⟨start, round, vfs', -, hrun, -⟩ := shellRun_putLine
  have hend := hrun.step (.eof Os.creating [] Console.empty rfl)
  have hpieces : pieces isNewline 254 putLine = [putLine] := by
    rw [pieces_ne_nil (by decide) (by decide),
      show piece isNewline 254 putLine = (putLine, []) by decide, pieces_nil]
  have hlines := (shellRun_lines hend rfl).1
  rw [hpieces] at hlines
  exact ⟨start, _, _, hend, hlines⟩

/-! ## One text after another -/

/-- A text that ends with a newline. -/
def EndsLine (text : Buffer) : Prop := ∃ front, text = front ++ [some '\n']

section EndsLine

variable {text : Buffer} (h : EndsLine text)
include h

theorem EndsLine.ne_nil : text ≠ [] := by
  obtain ⟨front, rfl⟩ := h
  simp

/-- The first line is the same, whatever comes behind the text. -/
theorem EndsLine.firstLine_append (more : Buffer) :
    firstLine (text ++ more) = ((firstLine text).1, (firstLine text).2 ++ more) := by
  obtain ⟨front, rfl⟩ := h
  rw [List.append_assoc]
  exact piece_append_end (by decide) rfl more

theorem EndsLine.firstLine_rest : (firstLine text).2 = [] ∨ EndsLine (firstLine text).2 := by
  obtain ⟨front, rfl⟩ := h
  exact piece_rest_end isNewline _ _ _

/-- A round does the same when more comes behind the text. -/
theorem EndsLine.step_append {vfs : Vfs} (more : Buffer) :
    ShellStep libc ⟨vfs, Stream.ofText (text ++ more), false⟩ rounds s' ↔
      ∃ vfs', s' = ⟨vfs', Stream.ofText ((firstLine text).2 ++ more), false⟩ ∧
        ShellStep libc ⟨vfs, Stream.ofText text, false⟩ rounds
          ⟨vfs', Stream.ofText (firstLine text).2, false⟩ := by
  have hne : text ++ more ≠ [] := List.append_ne_nil_of_left_ne_nil h.ne_nil more
  rw [shellStep_text hne, h.firstLine_append]
  constructor
  · rintro ⟨os, mallocs, console, vfs', output, w', hrun, rfl, rfl⟩
    exact ⟨vfs', rfl, (shellStep_text h.ne_nil).mpr
      ⟨os, mallocs, console, vfs', output, w', hrun, rfl, rfl⟩⟩
  · rintro ⟨vfs', rfl, hstep⟩
    obtain ⟨os, mallocs, console, vfs1, output, w', hrun, rfl, hs⟩ :=
      (shellStep_text h.ne_nil).mp hstep
    obtain ⟨rfl, -⟩ := Shell.mk.inj hs
    exact ⟨os, mallocs, console, vfs', output, w', hrun, rfl, rfl⟩

end EndsLine

section Append

variable {first second : Buffer}

/-- After some rounds the session is in the first text, or it has got through with it. -/
def Passes (libc : LibC) (start : Vfs) (first second : Buffer) (rounds : List ShellRound)
    (s : Shell) : Prop :=
  (∃ vfs rest, EndsLine rest ∧ s = ⟨vfs, Stream.ofText (rest ++ second), false⟩ ∧
    ShellRun libc ⟨start, Stream.ofText first, false⟩ rounds ⟨vfs, Stream.ofText rest, false⟩) ∨
  ∃ before after vfs, rounds = before ++ after ∧
    ShellRun libc ⟨start, Stream.ofText first, false⟩ before ⟨vfs, [], false⟩ ∧
    ShellRun libc ⟨vfs, Stream.ofText second, false⟩ after s

theorem ShellStep.passes {before : List ShellRound} (hstep : ShellStep libc s rounds s')
    (h : Passes libc start first second before s) :
    Passes libc start first second (before ++ rounds) s' := by
  rcases h with ⟨vfs, rest, hends, rfl, hrun⟩ | ⟨before, after, vfs, rfl, hrun, hmore⟩
  · obtain ⟨vfs', rfl, hfirst⟩ := (hends.step_append second).mp hstep
    have hrun' := hrun.step hfirst
    rcases hends.firstLine_rest with hrest | hrest
    · rw [hrest] at hrun' ⊢
      exact .inr ⟨_, [], vfs', (List.append_nil _).symm, hrun', .start⟩
    · exact .inl ⟨vfs', _, hrest, rfl, hrun'⟩
  · exact .inr ⟨before, after ++ rounds, vfs, List.append_assoc _ _ _, hrun, hmore.step hstep⟩

/-- A run over the first text is one over both. -/
theorem EndsLine.run_append (h : EndsLine first)
    (hrun : ShellRun libc ⟨start, Stream.ofText first, false⟩ rounds s') (second : Buffer)
    (hgoing : s'.returned = false) :
    ∃ rest, (rest = [] ∨ EndsLine rest) ∧ s'.stdin = Stream.ofText rest ∧
      ShellRun libc ⟨start, Stream.ofText (first ++ second), false⟩ rounds
        ⟨s'.vfs, Stream.ofText (rest ++ second), false⟩ := by
  induction hrun with
  | start => exact ⟨first, .inr h, rfl, .start⟩
  | @step before more t u hrun hstep ih =>
    obtain ⟨vfs, stdin, returned⟩ := t
    obtain rfl : returned = false := hstep.going
    obtain ⟨rest, hends, rfl, hboth⟩ := ih rfl
    rcases hends with rfl | hends
    · obtain ⟨-, rfl⟩ := shellStep_end hstep
      exact absurd hgoing (by simp)
    · have hstep' := hstep
      obtain ⟨os, mallocs, console, vfs', output, w', -, -, rfl⟩ :=
        (shellStep_text hends.ne_nil).mp hstep
      exact ⟨(firstLine rest).2, hends.firstLine_rest, rfl,
        hboth.step ((hends.step_append second).mpr ⟨vfs', rfl, hstep'⟩)⟩

/-- **One text after another.** The sessions over two texts, of which the first ends with a newline,
are those over the first up to its end and then those over the second, in the file system that the
first leaves. -/
theorem shellRun_append (h : EndsLine first) (second : Buffer) :
    (ShellRun libc ⟨start, Stream.ofText (first ++ second), false⟩ rounds s' ∧
        s'.returned = true) ↔
      ∃ before after vfs, rounds = before ++ after ∧
        ShellRun libc ⟨start, Stream.ofText first, false⟩ before ⟨vfs, [], false⟩ ∧
        ShellRun libc ⟨vfs, Stream.ofText second, false⟩ after s' ∧ s'.returned = true := by
  constructor
  · rintro ⟨hrun, hreturned⟩
    have hstart : Passes libc start first second []
        ⟨start, Stream.ofText (first ++ second), false⟩ :=
      .inl ⟨start, first, h, rfl, .start⟩
    rcases hrun.preserves hstart fun _ _ _ _ hpasses hstep => hstep.passes hpasses with
      ⟨vfs, rest, -, rfl, -⟩ | ⟨before, after, vfs, hrounds, hfirst, hsecond⟩
    · exact absurd hreturned (by simp)
    · exact ⟨before, after, vfs, hrounds, hfirst, hsecond, hreturned⟩
  · rintro ⟨before, after, vfs, rfl, hfirst, hsecond, hreturned⟩
    obtain ⟨rest, -, hrest, hboth⟩ := h.run_append hfirst second rfl
    obtain rfl : rest = [] := List.map_eq_nil_iff.mp hrest.symm
    exact ⟨hboth.trans hsecond, hreturned⟩

theorem shellRun_append_putLine :
    ∃ start rounds s', ShellRun LibC.reference
        ⟨start, Stream.ofText (putLine ++ []), false⟩ rounds s' ∧ s'.returned = true := by
  obtain ⟨start, round, vfs', -, hrun, -⟩ := shellRun_putLine
  exact ⟨start, _, _, (shellRun_append ⟨"put /incoming/a".toList.map some, rfl⟩ []).mpr
    ⟨[round], _, vfs', rfl, hrun, .single (.eof Os.creating [] Console.empty rfl), rfl⟩⟩

end Append

end Umsftpd
