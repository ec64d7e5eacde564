import Umsftpd.Shell.Commands
import Umsftpd.Shell.Handlers
import Umsftpd.Vfs.Freeing
import Umsftpd.Vfs.Visibility
import Umsftpd.Vfs.WorkingDirectory

/-!
# Sessions of the shell

Whatever is typed, the system answers and allocations do, a session goes on from prompt to prompt
and returns at the end of its input. Of the file system it only moves the working directory, and
that as the commands `cd` say that succeed: the abstract machine behind the prompts has a list of
names for its state.
-/

namespace Umsftpd

open CLib Paths Systems Text

/-! ## The file system in a session -/

/-- What is left of `start` when names were reordered and the working directory went to `cs`. The
error that is recorded may be another one. -/
structure Vfs.Served (start vfs : Vfs) (cs : List Name) : Prop where
  table : start.Resorted { vfs with cwd := start.cwd }
  cwd : vfs.cwd.At cs

section Served

variable {start vfs vfs' : Vfs} {cs : List Name}

theorem Vfs.Served.refl (h : start.cwd.At cs) : start.Served start cs := ⟨.refl start, h⟩

theorem Vfs.Served.resorted (h : start.Served vfs cs) (hsame : vfs.Resorted vfs') :
    start.Served vfs' cs := by
  refine ⟨h.table.trans ?_, h.cwd.resorted hsame⟩
  exact ⟨hsame.inode, rfl, hsame.handles, hsame.next, hsame.info, hsame.subdirs⟩

theorem Vfs.Served.moved {ds : List Name} (h : start.Served vfs cs) (hmoved : vfs.Moved vfs' ds) :
    start.Served vfs' ds := by
  refine ⟨?_, hmoved.cwd⟩
  have hrest : { vfs' with cwd := start.cwd } = { vfs with cwd := start.cwd } := by
    rw [hmoved.rest]
  rw [hrest]
  exact h.table

theorem Vfs.Served.valid (h : start.Served vfs cs) (hvalid : start.Valid) : vfs.Valid := by
  have hsame := h.table.valid hvalid
  obtain ⟨hlt, hnodup, hparent, hsubdirs⟩ := hsame.table
  exact ⟨⟨hlt, hnodup, hparent, hsubdirs⟩, ⟨⟨cs, h.cwd.path⟩, hsame.ready.handles⟩⟩

theorem Vfs.Served.mounted (h : start.Served vfs cs) (hmounted : start.Mounted) : vfs.Mounted := by
  intro ds hnode
  have hstart := hmounted ds ((h.table.nodeAt ds).symm.trans_ne hnode)
  exact (h.table.mountAt ds).trans_ne hstart

theorem Vfs.Served.nodeAt (h : start.Served vfs cs) (ds : List Name) :
    vfs.nodeAt ds = start.nodeAt ds := h.table.nodeAt ds

end Served

/-! ## Calls -/

/-- The handlers that take a path from their arguments without looking whether there is one. -/
def VfsShellCallback.takesPath : VfsShellCallback → Bool
  | .cd | .stat | .cat | .put => true
  | _ => false

/-- What a call does to the file system: `cd` moves the working directory if it has nothing to
say. -/
def VfsShellCallback.Effect (handler : VfsShellCallback) (vfs : Vfs) (arguments : List CStr)
    (r : VfsShellResult) : Prop :=
  if handler = .cd ∧ r.2.2 = [] then
    ∃ path rest, arguments = path :: rest ∧ vfs.Moved r.2.1 (vfs.resolved path)
  else vfs.Resorted r.2.1

section Calls

variable (libc : LibC) (console : Console) {vfs : Vfs} (os : Os) (w : World)

theorem VfsShellCallback.Effect.of_resorted {handler : VfsShellCallback} {arguments : List CStr}
    {r : VfsShellResult} (hcd : handler = .cd → r.2.2 ≠ []) (h : vfs.Resorted r.2.1) :
    handler.Effect vfs arguments r := by
  unfold Effect
  rw [if_neg fun hboth => hcd hboth.1 hboth.2]
  exact h

/-- What a call does that comes back, if the handler has the path that it takes. -/
theorem VfsShellCallback.call_ifReturns (hvalid : vfs.Valid) (handler : VfsShellCallback)
    {arguments : List CStr} (hpath : handler.takesPath = true → arguments ≠ []) :
    Exec.IfReturns (handler.call libc console vfs arguments.length arguments) os w fun r _ =>
      handler.Effect vfs arguments r := by
  have hother : ∀ {x : Exec VfsShellResult} {Q : VfsShellResult → World → Prop}, handler ≠ .cd →
      Exec.IfReturns x os w Q → (∀ r w', Q r w' → vfs.Resorted r.2.1) →
      Exec.IfReturns x os w fun r _ => handler.Effect vfs arguments r := by
    intro x Q hcd hx hsame
    exact hx.mono fun r w' hQ => .of_resorted (fun h => absurd h hcd) (hsame r w' hQ)
  cases handler with
  | ls =>
    exact hother (by simp) (vfsShellLs_ifReturns libc console hvalid arguments os w)
      fun _ _ h => h.resorted
  | cd =>
    obtain ⟨path, rest, rfl⟩ := List.exists_cons_of_ne_nil (hpath rfl)
    refine (vfsShellCd_ifReturns vfs path rest os w).mono ?_
    rintro ⟨result, vfs', output⟩ _ ⟨hmoved, hkept⟩
    cases result with
    | true =>
      obtain ⟨hmove, hnil⟩ := hmoved rfl
      unfold Effect
      rw [if_pos ⟨rfl, hnil⟩]
      exact ⟨path, rest, rfl, hmove⟩
    | false =>
      obtain ⟨hsame, code, -, houtput⟩ := hkept rfl
      refine .of_resorted (fun _ => ?_) hsame
      rw [houtput]
      exact List.cons_ne_nil _ _
  | stat =>
    obtain ⟨path, rest, rfl⟩ := List.exists_cons_of_ne_nil (hpath rfl)
    exact hother (by simp) (vfsShellStat_ifReturns console vfs path rest os w)
      fun _ _ h => h.resorted
  | cat =>
    obtain ⟨path, rest, rfl⟩ := List.exists_cons_of_ne_nil (hpath rfl)
    exact hother (by simp) (vfsShellCat_ifReturns console vfs path rest os w)
      fun _ _ h => h.resorted
  | put =>
    obtain ⟨path, rest, rfl⟩ := List.exists_cons_of_ne_nil (hpath rfl)
    exact hother (by simp) (vfsShellPut_ifReturns console vfs path rest os w)
      fun _ _ h => h.resorted
  | _ => exact .pure (.of_resorted (by simp) (.refl vfs))

/-- What a round needs to come back: no directory that `opendir` gets no path of, and times that can
be told. -/
structure Responsive (vfs : Vfs) (os : Os) (console : Console) : Prop where
  mapped : os.opendirNull = true ∨ vfs.Mounted
  tellsTime : console.TellsTime

theorem Responsive.served {start : Vfs} {cs : List Name} {os : Os} {console : Console}
    (hresponsive : Responsive start os console) (h : start.Served vfs cs) :
    Responsive vfs os console :=
  ⟨hresponsive.mapped.imp_right h.mounted, hresponsive.tellsTime⟩

/-- Every handler comes back from paths that can be taken. -/
theorem VfsShellCallback.call_returns (hvalid : vfs.Valid) (hresponsive : Responsive vfs os console)
    (handler : VfsShellCallback) {arguments : List CStr}
    (hpath : handler.takesPath = true → arguments ≠ [])
    (htakes : ∀ path ∈ ['.'] :: arguments, vfs.Takes (some path)) :
    Exec.Returns (handler.call libc console vfs arguments.length arguments) os w fun r _ =>
      handler.Effect vfs arguments r := by
  apply (handler.call_ifReturns libc console os w hvalid hpath).returns (R := fun _ _ => True)
  have hfirst : ∀ {path rest}, arguments = path :: rest → vfs.Takes (some path) := by
    rintro path rest rfl
    exact htakes path (List.mem_cons_of_mem _ List.mem_cons_self)
  cases handler with
  | ls =>
    have hls : vfs.Takes (some (lsPath arguments)) := by
      cases arguments with
      | nil => exact htakes _ List.mem_cons_self
      | cons path rest => exact hfirst rfl
    exact (vfsShellLs_returns libc hresponsive.tellsTime hvalid hls
      (.of_mounted hresponsive.mapped w _)).mono fun _ _ _ => trivial
  | cd =>
    obtain ⟨path, rest, rfl⟩ := List.exists_cons_of_ne_nil (hpath rfl)
    exact vfsShellCd_returns rest (hfirst rfl) os w
  | stat =>
    obtain ⟨path, rest, rfl⟩ := List.exists_cons_of_ne_nil (hpath rfl)
    exact (vfsShellStat_returns hresponsive.tellsTime rest (hfirst rfl) os w).mono
      fun _ _ _ => trivial
  | cat =>
    obtain ⟨path, rest, rfl⟩ := List.exists_cons_of_ne_nil (hpath rfl)
    exact (vfsShellCat_returns console rest (hfirst rfl) os w).mono fun _ _ _ => trivial
  | put =>
    obtain ⟨path, rest, rfl⟩ := List.exists_cons_of_ne_nil (hpath rfl)
    exact (vfsShellPut_returns console rest (hfirst rfl) os w).mono fun _ _ _ => trivial
  | _ => exact .pure trivial

end Calls

/-! ## Rounds -/

theorem takesPath_needs {cmd : VfsShellCommand} (h : cmd ∈ vfsShellCommands)
    (hpath : cmd.handler.takesPath = true) : 1 ≤ cmd.minArgumentCount := by
  have hall : ∀ cmd ∈ vfsShellCommands, cmd.handler.takesPath = true →
      1 ≤ cmd.minArgumentCount := by decide
  exact hall cmd h hpath

theorem command_length_pos {cmd : VfsShellCommand} (h : cmd ∈ vfsShellCommands) :
    0 < cmd.command.length := by
  have hall : ∀ cmd ∈ vfsShellCommands, 0 < cmd.command.length := by decide
  exact hall cmd h

theorem Calls.hasPath {line : CStr} {cmd : VfsShellCommand} {arguments : List CStr}
    (h : Calls line cmd arguments) : cmd.handler.takesPath = true → arguments ≠ [] := by
  rintro htakes rfl
  have hneeds := takesPath_needs h.mem htakes
  have henough := h.enough
  rw [List.length_nil] at henough
  omega

/-- `cd` has its name alone, and one argument. -/
theorem handler_eq_cd_iff {cmd : VfsShellCommand} (h : cmd ∈ vfsShellCommands) :
    (cmd.handler = .cd ↔ cmd.command = "cd".toList) ∧
      (cmd.handler = .cd → cmd.minArgumentCount = 1 ∧ cmd.maxArgumentCount = 1) := by
  have hall : ∀ cmd ∈ vfsShellCommands, (cmd.handler = .cd ↔ cmd.command = "cd".toList) ∧
      (cmd.handler = .cd → cmd.minArgumentCount = 1 ∧ cmd.maxArgumentCount = 1) := by decide
  exact hall cmd h

/-- The path that a line and what came of it say the working directory has moved to. -/
def movedTo (line : CStr) (output : List ShellOutput) : Option CStr :=
  match lineWords line with
  | [command, path] => if command = "cd".toList ∧ output = [] then some path else none
  | _ => none

theorem movedTo_eq_some {line path : CStr} {output : List ShellOutput} :
    movedTo line output = some path ↔ lineWords line = ["cd".toList, path] ∧ output = [] := by
  unfold movedTo
  split
  · next command p hwords =>
    rw [hwords]
    by_cases h : command = "cd".toList ∧ output = []
    · rw [if_pos h]
      simp [h.1, h.2]
    · rw [if_neg h]
      simp only [reduceCtorEq, List.cons.injEq, and_true, false_iff, not_and]
      rintro ⟨hcommand, -⟩ houtput
      exact h ⟨hcommand, houtput⟩
  · next hno =>
    simp only [reduceCtorEq, false_iff, not_and]
    intro hwords
    exact absurd hwords (hno _ _)

section Rounds

variable (libc : LibC) (console : Console) {vfs : Vfs} (os : Os) (w : World)

/-- What a line does to the file system. -/
theorem vfsShellLine_ifReturns (hvalid : vfs.Valid) (line : CStr) :
    Exec.IfReturns (vfsShellLine libc console vfs line) os w fun r _ =>
      (∀ path, movedTo line r.2 = some path → vfs.Moved r.1 (vfs.resolved path)) ∧
        (movedTo line r.2 = none → vfs.Resorted r.1) := by
  rcases vfsShellLine_cases libc console vfs line with
    ⟨cmd, arguments, hcalls, -, hline⟩ | ⟨hno, complaints, hline, -, hnil, -⟩
  · rw [hline]
    obtain ⟨hname, hone⟩ := handler_eq_cd_iff hcalls.mem
    refine (cmd.handler.call_ifReturns libc console os w hvalid hcalls.hasPath).bind ?_
    rintro ⟨result, vfs', output⟩ w' heffect
    apply Exec.IfReturns.pure
    unfold VfsShellCallback.Effect at heffect
    by_cases hboth : cmd.handler = .cd ∧ output = []
    · rw [if_pos hboth] at heffect
      obtain ⟨path, rest, rfl, hmoved⟩ := heffect
      obtain rfl : rest = [] := by
        have hfew := hcalls.few
        rw [(hone hboth.1).2, List.length_cons] at hfew
        exact List.eq_nil_of_length_eq_zero (by omega)
      have hmove : movedTo line output = some path := by
        rw [movedTo_eq_some, hcalls.words, hname.mp hboth.1]
        exact ⟨rfl, hboth.2⟩
      constructor
      · intro path' hpath'
        obtain rfl := Option.some.inj (hmove.symm.trans hpath')
        exact hmoved
      · intro hnone
        exact absurd (hmove.symm.trans hnone) (by simp)
    · rw [if_neg hboth] at heffect
      refine ⟨fun path hmove => ?_, fun _ => heffect⟩
      obtain ⟨hwords, hout⟩ := movedTo_eq_some.mp hmove
      have hcommand : cmd.command = "cd".toList :=
        (List.cons.inj (hcalls.words.symm.trans hwords)).1
      exact absurd ⟨hname.mpr hcommand, hout⟩ hboth
  · rw [hline]
    refine Exec.IfReturns.pure ⟨fun path hmove => ?_, fun _ => .refl vfs⟩
    obtain ⟨hwords, hout⟩ := movedTo_eq_some.mp hmove
    rw [hnil.mp hout] at hwords
    exact absurd hwords (by simp)

/-- The words of a line and the blanks between them fit into it. -/
theorem Calls.length_words {line : CStr} {cmd : VfsShellCommand} {arguments : List CStr}
    (h : Calls line cmd arguments) :
    cmd.command.length + 1 + (arguments.map fun w : CStr => w.length + 1).sum ≤
      line.length + 1 := by
  rw [← List.sum_cons, ← List.map_cons (f := fun w : CStr => w.length + 1), ← h.words]
  exact sum_length_words_le line

/-- The words of a line can be taken where there is room for the line behind the directory. -/
theorem Calls.takes {line : CStr} {cmd : VfsShellCommand} {arguments : List CStr}
    (h : Calls line cmd arguments) (hlength : vfs.cwd.path.length + line.length + 2 < 2 ^ 31) :
    ∀ path ∈ ['.'] :: arguments, vfs.Takes (some path) := by
  have hwords := h.length_words
  have hcommand := command_length_pos h.mem
  intro path hpath p hp
  obtain rfl := Option.some.inj hp
  have hshort : path.length ≤ line.length := by
    rcases List.mem_cons.mp hpath with rfl | hargument
    · show 1 ≤ line.length
      omega
    · have hone := List.le_sum_of_mem
        (List.mem_map_of_mem (f := fun w : CStr => w.length + 1) hargument)
      omega
  have hjoined := length_joinedPath_le vfs.cwd.path path
  right
  omega

/-- A line that there is room for is carried out. -/
theorem vfsShellLine_returns (hvalid : vfs.Valid) (hresponsive : Responsive vfs os console)
    {line : CStr} (hlength : vfs.cwd.path.length + line.length + 2 < 2 ^ 31) :
    Exec.Returns (vfsShellLine libc console vfs line) os w fun _ _ => True := by
  rcases vfsShellLine_cases libc console vfs line with
    ⟨cmd, arguments, hcalls, -, hline⟩ | ⟨hno, complaints, hline, -, hnil, -⟩
  · rw [hline]
    exact (cmd.handler.call_returns libc console os w hvalid hresponsive hcalls.hasPath
      (hcalls.takes hlength)).bind fun _ _ _ => .pure trivial
  · rw [hline]
    exact .pure trivial

/-- A round prints the prompt and carries out the line. -/
theorem vfsShellRound_eq_some {w w' : World} {os : Os} {cells : Buffer} {vfs' : Vfs}
    {output : List ShellOutput} :
    vfsShellRound libc console vfs cells os w = some ((vfs', output), w') ↔
      ∃ rest, output = prompt vfs :: rest ∧
        vfsShellLine libc console vfs (lineOf cells) os w = some ((vfs', rest), w') := by
  unfold vfsShellRound
  rw [Exec.bind_apply, Option.bind_eq_some_iff]
  constructor
  · rintro ⟨⟨⟨vfs1, rest⟩, w1⟩, hline, heq⟩
    obtain ⟨⟨rfl, rfl⟩, rfl⟩ : (vfs1 = vfs' ∧ prompt vfs :: rest = output) ∧ w1 = w' := by
      simpa using heq
    exact ⟨rest, rfl, hline⟩
  · rintro ⟨rest, rfl, hline⟩
    exact ⟨_, hline, rfl⟩

/-- The prompt in a directory. -/
def promptAt (cs : List Name) : ShellOutput :=
  .stdout ("vfs [".toList ++ absPath cs ++ "]: ".toList)

theorem prompt_eq {cs : List Name} (h : vfs.cwd.At cs) : prompt vfs = promptAt cs := by
  have hpath : (if vfs.cwd.path = [] then ['/'] else vfs.cwd.path) = absPath cs := by
    rw [h.path]
    unfold absPath
    simp only [pathOf_eq_nil_iff]
  unfold prompt promptAt
  rw [hpath]

/-- Where a round leads to from `cs`. -/
def ShellRound.directory (cs : List Name) (round : ShellRound) : List Name :=
  (round.cells.bind fun cells => movedTo (lineOf cells) round.output.tail).elim cs
    (resolve (pathOf cs))

end Rounds

/-! ## Runs -/

section Runs

variable {libc : LibC} {start : Vfs} {s s' : Shell} {rounds : List ShellRound} {cs : List Name}

/-- What a round shows of the abstract machine. -/
structure ShellRound.Shows (start : Vfs) (cs : List Name) (round : ShellRound) : Prop where
  served : start.Served round.before cs
  prompt : round.output.head? = some (promptAt cs)

/-- The step: from a valid file system a round follows the abstract machine. -/
theorem ShellStep.follows (hstep : ShellStep libc s rounds s') (hvalid : start.Valid)
    (hserved : start.Served s.vfs cs) :
    ∃ round, rounds = [round] ∧ round.Shows start cs ∧
      start.Served s'.vfs (round.directory cs) := by
  cases hstep with
  | @round vfs vfs' stdin stdin' cells os mallocs console output w' hread hrun =>
    obtain ⟨rest, rfl, hline⟩ := (vfsShellRound_eq_some libc console).mp hrun
    refine ⟨_, rfl, ⟨hserved, congrArg some (prompt_eq hserved.cwd)⟩, ?_⟩
    obtain ⟨hmoved, hkept⟩ := (vfsShellLine_ifReturns libc console os ⟨mallocs, []⟩
      (hserved.valid hvalid) (lineOf cells)).result hline
    unfold ShellRound.directory
    rw [Option.bind_some, List.tail_cons]
    cases hmove : movedTo (lineOf cells) rest with
    | none => exact hserved.resorted (hkept hmove)
    | some path =>
      have hpath := hmoved path hmove
      unfold Vfs.resolved at hpath
      rw [hserved.cwd.path] at hpath
      exact hserved.moved hpath
  | eof os mallocs console hread =>
    exact ⟨_, rfl, ⟨hserved, congrArg some (prompt_eq hserved.cwd)⟩, hserved⟩

theorem vfsShellSetup_adds {libc : LibC} {os : Os} {start : Vfs}
    (h : (vfsShellSetup libc).eval os = some start) :
    ∃ oks vfs, (addAll vfsShellInodes (initialVfs 0)).eval os = some (oks, vfs) ∧
      start = vfsFreezeInodes libc vfs := by
  obtain ⟨⟨start', w⟩, hrun, rfl⟩ := Option.map_eq_some_iff.mp h
  unfold vfsShellSetup at hrun
  rw [Exec.bind_apply, vfsInit_apply, Option.bind_some] at hrun
  dsimp only at hrun
  rw [Exec.checked_some_bind, Exec.bind_apply] at hrun
  obtain ⟨⟨⟨oks, vfs⟩, w1⟩, hall, hrest⟩ := Option.bind_eq_some_iff.mp hrun
  obtain ⟨rfl, -⟩ : vfsFreezeInodes libc vfs = start' ∧ w1 = w := by simpa using hrest
  refine ⟨oks, vfs, ?_, rfl⟩
  unfold Exec.eval
  rw [hall]
  rfl

/-- The file system that `main` sets up. -/
theorem vfsShellSetup_reachable {libc : LibC} {os : Os} {start : Vfs}
    (h : (vfsShellSetup libc).eval os = some start) : Reachable start ∧ start.cwd.At [] := by
  obtain ⟨oks, vfs, hadd, rfl⟩ := vfsShellSetup_adds h
  obtain ⟨⟨r, w⟩, hall, rfl⟩ := Option.map_eq_some_iff.mp hadd
  refine ⟨((Reachable.init 0).addAll hadd).step (.freeze libc vfs), ?_⟩
  rw [vfsFreezeInodes_cwd, (Vfs.SameSettings.addAll hall).cwd]
  exact ⟨rfl, Nat.le_succ 1⟩

/-- The directory of a line that was moved to is no longer than the one before it and the line. -/
theorem length_movedTo {vfs vfs' : Vfs} {line path : CStr} {output : List ShellOutput}
    (h : movedTo line output = some path) (hmoved : vfs.Moved vfs' (vfs.resolved path))
    (hlength : vfs.cwd.path.length + line.length < 2 ^ 31) :
    vfs'.cwd.path.length ≤ vfs.cwd.path.length + line.length := by
  have hwords : ((lineWords line).map fun w : CStr => w.length + 1).sum ≤ line.length + 1 :=
    sum_length_words_le line
  rw [(movedTo_eq_some.mp h).1] at hwords
  have hline : 2 + 1 + (path.length + 1) ≤ line.length + 1 := hwords
  have hjoined := length_joinedPath_le vfs.cwd.path path
  have hpath := length_pathOf_resolve (show (joinedPath vfs.cwd.path path).length < 2 ^ 31 by omega)
  rw [hmoved.cwd.path]
  show (pathOf (resolve vfs.cwd.path path)).length ≤ _
  omega

theorem length_lineOf_le (cells : Buffer) : (lineOf cells).length ≤ cells.length := by
  have hstrip : ∀ string : CStr, (stripCrlf string).length ≤ string.length := by
    intro string
    unfold stripCrlf
    split_ifs <;> grind
  exact Nat.le_trans (hstrip _) (length_cstr_append_none cells)

/-- The directory and what is still to be read have room in an `int`, as they have at the start. -/
def Shell.Fits (s : Shell) : Prop := s.vfs.cwd.path.length + s.stdin.length + 2 < 2 ^ 31

/-- The step: what a directory is longer than the one before it was read. -/
theorem ShellStep.fits (hstep : ShellStep libc s rounds s') (hvalid : s.vfs.Valid)
    (hfits : s.Fits) (hgoing : s'.returned = false) : s'.Fits := by
  unfold Shell.Fits at hfits ⊢
  cases hstep with
  | @round vfs vfs' stdin stdin' cells os mallocs console output w' hread hrun =>
    obtain ⟨rest, rfl, hline⟩ := (vfsShellRound_eq_some libc console).mp hrun
    obtain ⟨hmoved, hkept⟩ := (vfsShellLine_ifReturns libc console os ⟨mallocs, []⟩ hvalid
      (lineOf cells)).result hline
    obtain ⟨-, rfl⟩ := fgets_append hread
    have hcells := length_lineOf_le cells
    rw [List.length_append, Stream.ofText, List.length_map] at hfits
    change vfs.cwd.path.length + (cells.length + stdin'.length) + 2 < 2 ^ 31 at hfits
    show vfs'.cwd.path.length + stdin'.length + 2 < 2 ^ 31
    cases hmove : movedTo (lineOf cells) rest with
    | none =>
      have hcwd : vfs'.cwd = vfs.cwd := (hkept hmove).cwd
      rw [hcwd]
      omega
    | some path =>
      have hle : vfs'.cwd.path.length ≤ vfs.cwd.path.length + (lineOf cells).length :=
        length_movedTo hmove (hmoved path hmove) (by omega)
      omega
  | eof os mallocs console hread => exact absurd hgoing (by simp)

/-- The rounds follow the directories of the lines before them. -/
theorem shellRun_directories (hreach : Reachable start) (hcwd : start.cwd.At cs)
    {stdin : Stream (Option Char)} (hrun : ShellRun libc ⟨start, stdin, false⟩ rounds s') :
    start.Served s'.vfs (rounds.foldl ShellRound.directory cs) ∧
      ∀ i (round : ShellRound), rounds[i]? = some round →
        round.Shows start ((rounds.take i).foldl ShellRound.directory cs) :=
  hrun.follows (R := fun s cs => start.Served s.vfs cs)
    (P := fun cs round => round.Shows start cs) (Vfs.Served.refl hcwd)
    fun _ _ _ _ hserved hstep => hstep.follows hreach.valid hserved

/-- **Prompts.** The directory that a prompt shows is found from the lines before it alone: each
`cd` that had nothing to say moved it to the names of its path. Nothing else of the file system is
ever changed than the order of names and the error that a failed call records. -/
theorem shellRun_prompts (hreach : Reachable start) (hcwd : start.cwd.At cs)
    {stdin : Stream (Option Char)} (hrun : ShellRun libc ⟨start, stdin, false⟩ rounds s') :
    start.Served s'.vfs (rounds.foldl ShellRound.directory cs) ∧
      ∀ i round, rounds[i]? = some round →
        start.Served round.before ((rounds.take i).foldl ShellRound.directory cs) ∧
          round.output.head? =
            some (promptAt ((rounds.take i).foldl ShellRound.directory cs)) := by
  have hfollows := shellRun_directories hreach hcwd hrun
  refine ⟨hfollows.1, fun i round hround => ?_⟩
  have hshows := hfollows.2 i round hround
  exact ⟨hshows.served, hshows.prompt⟩

theorem ShellRun.served (hreach : Reachable start) {stdin : Stream (Option Char)}
    (hrun : ShellRun libc ⟨start, stdin, false⟩ rounds s') : ∃ ds, start.Served s'.vfs ds := by
  obtain ⟨cs, hcwd⟩ := hreach.cwd_at
  exact ⟨_, (shellRun_directories hreach hcwd hrun).1⟩

/-! ## Safety -/

/-- A round that does not return reads something. -/
theorem ShellStep.reads (hstep : ShellStep libc s rounds s') :
    rounds.length = 1 ∧ s.returned = false ∧
      (s'.returned = false → s'.stdin.length < s.stdin.length) := by
  cases hstep with
  | round os mallocs console hread hrun =>
    obtain ⟨hcells, hstdin⟩ := fgets_append hread
    refine ⟨rfl, rfl, fun _ => ?_⟩
    have hpos := List.length_pos_iff.mpr hcells
    dsimp only
    rw [hstdin, List.length_append, Stream.ofText, List.length_map]
    omega
  | eof os mallocs console hread => exact ⟨rfl, rfl, fun h => absurd h (by simp)⟩

theorem ShellRun.fits (hreach : Reachable start) {stdin : Stream (Option Char)}
    (hfits : Shell.Fits ⟨start, stdin, false⟩)
    (hrun : ShellRun libc ⟨start, stdin, false⟩ rounds s') (hgoing : s'.returned = false) :
    s'.Fits := by
  obtain ⟨cs, hcwd⟩ := hreach.cwd_at
  have hall := (hrun.invariant (P := fun _ => True)
    (I := fun s => (∃ ds, start.Served s.vfs ds) ∧ (s.returned = false → s.Fits))
    ⟨⟨cs, .refl hcwd⟩, fun _ => hfits⟩ ?_).1
  · exact hall.2 hgoing
  · rintro s rounds s' ⟨⟨ds, hserved⟩, hroom⟩ hstep
    obtain ⟨round, rfl, -, hserved'⟩ := hstep.follows hreach.valid hserved
    have hfits' := hstep.fits (hserved.valid hreach.valid) (hroom hstep.reads.2.1)
    exact ⟨⟨⟨_, hserved'⟩, hfits'⟩, fun _ _ => trivial⟩

/-- As long as it has not returned, there is a next round, whatever the system and the streams do
in it. -/
theorem Shell.goes_on (libc : LibC) {vfs : Vfs} (hvalid : vfs.Valid)
    {stdin : Stream (Option Char)} (hfits : Shell.Fits ⟨vfs, stdin, false⟩) {os : Os}
    (mallocs : List Bool) {console : Console} (hresponsive : Responsive vfs os console) :
    ∃ round s', ShellStep libc ⟨vfs, stdin, false⟩ [round] s' ∧ round.os = os ∧
      round.mallocs = mallocs ∧ round.console = console ∧ round.before = vfs ∧
      round.cells = (fgets lineSize stdin).1 := by
  cases hread : fgets lineSize stdin with
  | mk cells stdin' =>
    cases cells with
    | none => exact ⟨_, _, .eof os mallocs console hread, rfl, rfl, rfl, rfl, rfl⟩
    | some cells =>
      obtain ⟨-, rfl⟩ := fgets_append hread
      have hline := length_lineOf_le cells
      unfold Shell.Fits at hfits
      rw [List.length_append, Stream.ofText, List.length_map] at hfits
      change vfs.cwd.path.length + (cells.length + stdin'.length) + 2 < 2 ^ 31 at hfits
      obtain ⟨⟨vfs', output⟩, w', hrun, -⟩ :=
        vfsShellLine_returns libc console os ⟨mallocs, []⟩ hvalid hresponsive
          (show vfs.cwd.path.length + (lineOf cells).length + 2 < 2 ^ 31 by omega)
      have hround := (vfsShellRound_eq_some libc console).mpr ⟨output, rfl, hrun⟩
      exact ⟨_, _, .round os mallocs console hread hround, rfl, rfl, rfl, rfl, rfl⟩

/-- **Safety.** From a file system that is reachable no session comes to undefined behaviour: after
any rounds it has returned or goes on, whatever the system answers, whichever allocations fail and
whatever was left on the stack, if every directory is mapped, where `opendir` does not take `NULL`,
the times can be told and an `int` holds the length of the input behind the directory. It returns
after at most one round more than there are characters in its input, with a file system that is
valid. -/
theorem shellRun_safe (hreach : Reachable start) {stdin : Stream (Option Char)}
    (hlength : start.cwd.path.length + stdin.length + 2 < 2 ^ 31)
    (hrun : ShellRun libc ⟨start, stdin, false⟩ rounds s') :
    s'.vfs.Valid ∧ rounds.length ≤ stdin.length + 1 ∧
      (s'.returned = false → ∀ os mallocs console, Responsive start os console →
        ∃ round s'', ShellStep libc s' [round] s'' ∧ round.os = os ∧ round.mallocs = mallocs ∧
          round.console = console) := by
  obtain ⟨ds, hserved⟩ := ShellRun.served hreach hrun
  have hvalid := hserved.valid hreach.valid
  have hcount : rounds.length ≤ stdin.length + 1 ∧
      (s'.returned = false → rounds.length + s'.stdin.length ≤ stdin.length) := by
    refine @Run.preserves _ _ _ (fun rounds s => rounds.length ≤ stdin.length + 1 ∧
        (s.returned = false → rounds.length + s.stdin.length ≤ stdin.length))
      _ _ _ hrun [] ⟨Nat.zero_le _, fun _ => by simp⟩ ?_
    intro outputs more t u hhistory hstep
    obtain ⟨hone, hgoing, hreads⟩ := hstep.reads
    have hsofar := hhistory.2 hgoing
    rw [List.length_append, hone]
    refine ⟨by omega, fun hreturned => ?_⟩
    have hlt := hreads hreturned
    omega
  refine ⟨hvalid, hcount.1, fun hgoing os mallocs console hresponsive => ?_⟩
  have hfits := hrun.fits hreach hlength hgoing
  obtain ⟨vfs, rest, returned⟩ := s'
  obtain rfl : returned = false := hgoing
  obtain ⟨round, s'', hstep, hos, hmallocs, hconsole, -⟩ :=
    Shell.goes_on libc hvalid hfits mallocs (hresponsive.served hserved)
  exact ⟨round, s'', hstep, hos, hmallocs, hconsole⟩

/-! ## The end of a session -/

/-- What `start` stores is still stored. -/
theorem Vfs.Served.storesAll {vfs : Vfs} (h : start.Served vfs cs) (hall : start.StoresAll) :
    vfs.StoresAll := h.table.storesAll hall

/-- **The end of the program.** Whatever a session does, `vfs_free` after it frees every block there
is, once. -/
theorem vfsShell_frees {libc' : LibC} {os : Os}
    (hsetup : (vfsShellSetup libc').eval os = some start) {stdin : Stream (Option Char)}
    (hrun : ShellRun libc ⟨start, stdin, false⟩ rounds s') :
    ∃ blocks, vfsFree (some s'.vfs) = some blocks ∧ blocks.Nodup ∧
      ∀ b, b ∈ blocks ↔ s'.vfs.Has b := by
  have hreach := (vfsShellSetup_reachable hsetup).1
  obtain ⟨ds, hserved⟩ := ShellRun.served hreach hrun
  have hall := hserved.storesAll hreach.storesAll
  obtain ⟨blocks, hblocks⟩ := vfsFree_returns hall (hserved.valid hreach.valid)
  exact ⟨blocks, hblocks, hall.vfsFree_frees hblocks⟩

end Runs

/-- A session in the file system of the program. -/
theorem shellRun_prompts_putLine :
    ∃ start round vfs', (vfsShellSetup LibC.reference).eval Os.creating = some start ∧
      ShellRun LibC.reference ⟨start, Stream.ofText putLine, false⟩ [round] ⟨vfs', [], false⟩ ∧
      round.output.head? = some (promptAt []) := by
  obtain ⟨start, round, vfs', hsetup, hrun, -⟩ := shellRun_putLine
  obtain ⟨hreach, hcwd⟩ := vfsShellSetup_reachable hsetup
  exact ⟨start, round, vfs', hsetup, hrun, ((shellRun_prompts hreach hcwd hrun).2 0 round rfl).2⟩

theorem Console.empty_tellsTime : Console.empty.TellsTime := fun _ => Option.some_ne_none _

/-- Every directory of the program is below the root, which is mapped. -/
theorem vfsShellSetup_mounted {start : Vfs} {os : Os}
    (hsetup : (vfsShellSetup LibC.reference).eval os = some start) : start.Mounted := by
  have hroot : ((vfsShellSetup LibC.reference).eval os).map
      (fun start => (start.mountAt []).isSome) = some true := by
    rfl
  rw [hsetup, Option.map_some, Option.some_inj, Option.isSome_iff_ne_none] at hroot
  exact fun cs _ => Vfs.mountAt_of_root hroot cs

/-- A first round of the program. -/
theorem vfsShellSetup_goes_on {start : Vfs} {os : Os}
    (hsetup : (vfsShellSetup LibC.reference).eval os = some start) {text : Buffer}
    (hlength : text.length + 2 < 2 ^ 31) {console : Console} (htells : console.TellsTime) :
    ∃ round s', ShellRun LibC.reference ⟨start, Stream.ofText text, false⟩ [round] s' ∧
      round.os = os ∧ round.mallocs = [] ∧ round.console = console ∧ round.before = start ∧
      round.cells = (fgets lineSize (Stream.ofText text)).1 := by
  obtain ⟨hreach, hcwd⟩ := vfsShellSetup_reachable hsetup
  have hfits : Shell.Fits ⟨start, Stream.ofText text, false⟩ := by
    unfold Shell.Fits
    rwa [hcwd.path, pathOf_nil, List.length_nil, Nat.zero_add, Stream.ofText, List.length_map]
  obtain ⟨round, s', hstep, hround⟩ := Shell.goes_on LibC.reference hreach.valid hfits []
    (show Responsive start os console from ⟨.inr (vfsShellSetup_mounted hsetup), htells⟩)
  exact ⟨round, s', .single hstep, hround⟩

theorem shellRun_safe_putLine :
    ∃ start round vfs', (vfsShellSetup LibC.reference).eval Os.creating = some start ∧
      ShellRun LibC.reference ⟨start, Stream.ofText putLine, false⟩ [round] ⟨vfs', [], false⟩ ∧
      vfs'.Valid ∧ ∃ round' s'', ShellStep LibC.reference ⟨vfs', [], false⟩ [round'] s'' := by
  obtain ⟨start, round, vfs', hsetup, hrun, -⟩ := shellRun_putLine
  obtain ⟨hreach, hcwd⟩ := vfsShellSetup_reachable hsetup
  have hlength : start.cwd.path.length + (Stream.ofText putLine).length + 2 < 2 ^ 31 := by
    rw [hcwd.path]
    decide
  obtain ⟨hvalid, -, hgoes⟩ := shellRun_safe hreach hlength hrun
  obtain ⟨round', s'', hstep, -⟩ := hgoes rfl Os.creating [] Console.empty
    ⟨.inr (vfsShellSetup_mounted hsetup), Console.empty_tellsTime⟩
  exact ⟨start, round, vfs', hsetup, hrun, hvalid, round', s'', hstep⟩

theorem vfsShell_frees_putLine :
    ∃ start round vfs' blocks, (vfsShellSetup LibC.reference).eval Os.creating = some start ∧
      ShellRun LibC.reference ⟨start, Stream.ofText putLine, false⟩ [round] ⟨vfs', [], false⟩ ∧
      vfsFree (some vfs') = some blocks ∧ blocks.Nodup := by
  obtain ⟨start, round, vfs', hsetup, hrun, -⟩ := shellRun_putLine
  obtain ⟨blocks, hblocks, hnodup, -⟩ := vfsShell_frees hsetup hrun
  exact ⟨start, round, vfs', blocks, hsetup, hrun, hblocks, hnodup⟩

end Umsftpd
