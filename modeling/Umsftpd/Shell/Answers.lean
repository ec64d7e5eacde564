import Umsftpd.Shell.Sessions
import Umsftpd.Vfs.Accesses

/-!
# What a session answers

In any round of any session the line calls one command or none. `ls` prints all that is in the
directory of its path, `stat` describes the node of its path, `cat` prints all that the stream of
its file gives, in however many reads it comes, and `put` does not say how much of its text is
written.
-/

namespace Umsftpd

open CLib Paths Systems

/-! ## Commands -/

/-- A line calls one command at most. -/
theorem Calls.unique {line : CStr} {cmd cmd' : VfsShellCommand} {arguments arguments' : List CStr}
    (h : Calls line cmd arguments) (h' : Calls line cmd' arguments') :
    cmd = cmd' ∧ arguments = arguments' := by
  obtain ⟨hname, harguments⟩ := List.cons.inj (h.words.symm.trans h'.words)
  exact ⟨List.inj_on_of_nodup_map vfsShellCommands_nodup h.mem h'.mem hname, harguments⟩

/-- The round is a call of the command. -/
def ShellRound.Runs (libc : LibC) (round : ShellRound) (cmd : VfsShellCommand)
    (arguments : List CStr) : Prop :=
  ∃ r w', cmd.handler.call libc round.console round.before arguments.length arguments round.os
      ⟨round.mallocs, []⟩ = some (r, w') ∧
    round.output = prompt round.before :: r.2.2 ∧ round.after = r.2.1 ∧ round.calls = w'.calls

/-- Nothing is called in the round, and it complains if there are words on its line. -/
def ShellRound.Complains (round : ShellRound) (line : CStr) : Prop :=
  round.after = round.before ∧ round.calls = [] ∧
    ∃ complaints, round.output = prompt round.before :: complaints ∧
      (∀ output ∈ complaints, ∃ text, output = .stderr text) ∧
      (complaints = [] ↔ lineWords line = []) ∧
      (8 < (lineWords line).length → tooManyTokens ∈ complaints)

section Steps

variable {libc : LibC} {s s' : Shell} {rounds : List ShellRound}

theorem ShellStep.runs (hstep : ShellStep libc s rounds s') :
    ∀ round ∈ rounds, ∀ cells, round.cells = some cells → ∀ cmd arguments,
      Calls (lineOf cells) cmd arguments → round.Runs libc cmd arguments := by
  cases hstep with
  | @round vfs vfs' stdin stdin' cells os mallocs console output w' hread hrun =>
    rw [List.forall_mem_singleton]
    intro cells' hcells cmd arguments hcalls
    obtain rfl := Option.some.inj hcells
    obtain ⟨rest, rfl, hline⟩ := (vfsShellRound_eq_some libc console).mp hrun
    rw [vfsShellLine_of_calls libc console vfs hcalls, Exec.bind_apply] at hline
    obtain ⟨⟨r, w1⟩, hcall, hpure⟩ := Option.bind_eq_some_iff.mp hline
    obtain ⟨hr, rfl⟩ : r.2 = (vfs', rest) ∧ w1 = w' := by simpa using hpure
    refine ⟨r, w1, hcall, ?_, ?_, rfl⟩
    · rw [hr]
    · rw [hr]
  | eof os mallocs console hread =>
    rw [List.forall_mem_singleton]
    exact fun cells hcells => absurd hcells (by simp)

theorem ShellStep.complains (hstep : ShellStep libc s rounds s') :
    ∀ round ∈ rounds, ∀ cells, round.cells = some cells →
      (∀ cmd arguments, ¬Calls (lineOf cells) cmd arguments) →
      round.Complains (lineOf cells) := by
  cases hstep with
  | @round vfs vfs' stdin stdin' cells os mallocs console output w' hread hrun =>
    rw [List.forall_mem_singleton]
    intro cells' hcells hno
    obtain rfl := Option.some.inj hcells
    obtain ⟨rest, rfl, hline⟩ := (vfsShellRound_eq_some libc console).mp hrun
    obtain ⟨complaints, hpure, htexts, hnil, hmany⟩ :=
      vfsShellLine_of_not_calls libc console vfs hno
    rw [hpure] at hline
    obtain ⟨⟨rfl, rfl⟩, rfl⟩ : (vfs = vfs' ∧ complaints = rest) ∧ ⟨mallocs, []⟩ = w' := by
      simpa using hline
    exact ⟨rfl, rfl, complaints, rfl, htexts, hnil, hmany⟩
  | eof os mallocs console hread =>
    rw [List.forall_mem_singleton]
    exact fun cells hcells => absurd hcells (by simp)

end Steps

section Runs

variable {libc : LibC} {start : Vfs} {stdin : Stream (Option Char)} {s' : Shell}
  {rounds : List ShellRound}

theorem ShellRun.runs (hrun : ShellRun libc ⟨start, stdin, false⟩ rounds s') :
    ∀ round ∈ rounds, ∀ cells, round.cells = some cells → ∀ cmd arguments,
      Calls (lineOf cells) cmd arguments → round.Runs libc cmd arguments :=
  (hrun.invariant (I := fun _ => True)
    (P := fun round => ∀ cells, round.cells = some cells → ∀ cmd arguments,
      Calls (lineOf cells) cmd arguments → round.Runs libc cmd arguments)
    True.intro fun _ _ _ _ hstep => ⟨True.intro, hstep.runs⟩).2

theorem ShellRun.served_before (hreach : Reachable start)
    (hrun : ShellRun libc ⟨start, stdin, false⟩ rounds s') :
    ∀ round ∈ rounds, ∃ ds, start.Served round.before ds := by
  intro round hround
  obtain ⟨cs, hcwd⟩ := hreach.cwd_at
  obtain ⟨i, hi⟩ := List.mem_iff_getElem?.mp hround
  exact ⟨_, ((shellRun_directories hreach hcwd hrun).2 i round hi).served⟩

/-- **Dispatch.** In every round of a session either one command is called, with the other words of
the line as its arguments, or nothing is called and there are only complaints; a line of which words
were dropped is never carried out. -/
theorem shellRun_dispatches (hrun : ShellRun libc ⟨start, stdin, false⟩ rounds s') :
    ∀ round ∈ rounds, ∀ cells, round.cells = some cells →
      (∃ cmd arguments, Calls (lineOf cells) cmd arguments ∧ round.Runs libc cmd arguments ∧
        (lineWords (lineOf cells)).length ≤ 2 ∧
        ∀ cmd' arguments', Calls (lineOf cells) cmd' arguments' →
          cmd = cmd' ∧ arguments = arguments') ∨
      (∀ cmd arguments, ¬Calls (lineOf cells) cmd arguments) ∧
        round.Complains (lineOf cells) := by
  have hall := (hrun.invariant (I := fun _ => True)
    (P := fun round => ∀ cells, round.cells = some cells →
      (∀ cmd arguments, ¬Calls (lineOf cells) cmd arguments) → round.Complains (lineOf cells))
    True.intro fun _ _ _ _ hstep => ⟨True.intro, hstep.complains⟩).2
  intro round hround cells hcells
  have hruns := hrun.runs round hround cells hcells
  have hcomplains := hall round hround cells hcells
  by_cases h : ∃ cmd arguments, Calls (lineOf cells) cmd arguments
  · obtain ⟨cmd, arguments, hcalls⟩ := h
    exact .inl ⟨cmd, arguments, hcalls, hruns cmd arguments hcalls, hcalls.length_le,
      fun _ _ hcalls' => hcalls.unique hcalls'⟩
  · have hno : ∀ cmd arguments, ¬Calls (lineOf cells) cmd arguments :=
      fun cmd arguments hcalls => h ⟨cmd, arguments, hcalls⟩
    exact .inr ⟨hno, hcomplains hno⟩

theorem shellRun_dispatches_putLine :
    ∃ start round vfs', ShellRun LibC.reference ⟨start, Stream.ofText putLine, false⟩ [round]
        ⟨vfs', [], false⟩ ∧
      ∃ cmd arguments, Calls (lineOf putLine) cmd arguments ∧
        round.Runs LibC.reference cmd arguments := by
  obtain ⟨start, round, vfs', -, hrun, hmem, hcells⟩ := shellRun_putLine
  rcases shellRun_dispatches hrun round (List.mem_singleton_self round) putLine hcells with
    ⟨cmd, arguments, hcalls, hruns, -⟩ | ⟨hno, -⟩
  · exact ⟨start, round, vfs', hrun, cmd, arguments, hcalls, hruns⟩
  · obtain ⟨cmd, hcalls, -⟩ := putLine_calls
    exact absurd hcalls (hno _ _)

/-! ## Listings -/

/-- **Listings.** Whatever came before, an `ls` prints the contents of the directory of its path as
it is then, each entry once and in its order, up to the first error, which it reports; and where the
path does not open it prints nothing of any directory. -/
theorem shellRun_ls (hreach : Reachable start)
    (hrun : ShellRun libc ⟨start, stdin, false⟩ rounds s') :
    ∀ round ∈ rounds, ∀ cells cmd arguments, round.cells = some cells →
      Calls (lineOf cells) cmd arguments → cmd.handler = .ls →
      (NodeOpens round.before round.os ⟨round.mallocs, []⟩ (lsPath arguments) → ∃ output,
        lsOutput round.console (lsPath arguments)
          (round.before.contentsAt round.os (lsPath arguments)) = some output ∧
        round.output = prompt round.before :: output) ∧
      (¬NodeOpens round.before round.os ⟨round.mallocs, []⟩ (lsPath arguments) →
        ∃ text, round.output = [prompt round.before, .stderr text]) := by
  intro round hround cells cmd arguments hcells hcalls hls
  obtain ⟨ds, hserved⟩ := hrun.served_before hreach round hround
  obtain ⟨r, w', hcall, houtput, -, -⟩ := hrun.runs round hround cells hcells cmd arguments hcalls
  rw [hls] at hcall
  have hlist := (vfsShellLs_ifReturns libc round.console (hserved.valid hreach.valid) arguments
    round.os ⟨round.mallocs, []⟩).result hcall
  refine ⟨fun hopens => ⟨r.2.2, (hlist.listed hopens).2, houtput⟩, fun hno => ?_⟩
  obtain ⟨-, code, -, hr⟩ := hlist.refused hno
  exact ⟨_, by rw [houtput, hr]⟩

def lsLine : Buffer := "ls /virt\n".toList.map some

theorem lsLine_calls : Calls (lineOf lsLine) vfsShellCommands[0] ["/virt".toList] :=
  ⟨List.getElem_mem _, by decide, by decide, by decide⟩

/-- A directory of the program that opens. -/
theorem virt_opens :
    ∃ start, (vfsShellSetup LibC.reference).eval Os.creating = some start ∧
      NodeOpens start Os.creating ⟨[], []⟩ "/virt".toList := by
  have hopens : ((vfsShellSetup LibC.reference).eval Os.creating).bind (fun start =>
      (vfsOpendir start (some "/virt".toList) Os.creating ⟨[], []⟩).map fun r => r.1.2.1) =
        some .ok := by
    decide
  obtain ⟨start, hsetup, hopendir⟩ := Option.bind_eq_some_iff.mp hopens
  obtain ⟨⟨r, w'⟩, hcall, hok⟩ := Option.map_eq_some_iff.mp hopendir
  obtain ⟨p, hp, hnode⟩ :=
    ((vfsOpendir_ifReturns start (some "/virt".toList) Os.creating ⟨[], []⟩).result hcall).ok_iff.mp
      hok
  obtain rfl := Option.some.inj hp
  exact ⟨start, hsetup, hnode⟩

theorem shellRun_ls_virt :
    ∃ start round s', (vfsShellSetup LibC.reference).eval Os.creating = some start ∧
      ShellRun LibC.reference ⟨start, Stream.ofText lsLine, false⟩ [round] s' ∧
      ∃ output, lsOutput Console.empty "/virt".toList
        (start.contentsAt Os.creating "/virt".toList) = some output ∧
        round.output = prompt start :: output := by
  obtain ⟨start, hsetup, hnode⟩ := virt_opens
  have hreach := (vfsShellSetup_reachable hsetup).1
  obtain ⟨round, s', hrun, hos, hmallocs, hconsole, hbefore, hcells⟩ :=
    vfsShellSetup_goes_on hsetup (show lsLine.length + 2 < 2 ^ 31 by decide)
      Console.empty_tellsTime
  have hls := (shellRun_ls hreach hrun round (List.mem_singleton_self round) lsLine _ _
    (hcells.trans (by decide)) lsLine_calls rfl).1
  rw [hbefore, hos, hmallocs, hconsole] at hls
  exact ⟨start, round, s', hsetup, hrun, hls hnode⟩

/-! ## Descriptions -/

/-- What `stat` prints. -/
def statOutput (console : Console) : Except VfsError VfsDirent → Option ShellOutput
  | .ok dirent => (vfsPrintDirent console dirent).map .stdout
  | .error code => some (errorLine code)

/-- The file system of a session describes a node as that at its start does. -/
theorem Vfs.Served.describe {vfs : Vfs} {cs : List Name} (h : start.Served vfs cs) (os : Os)
    (ds : List Name) : vfs.describe os ds = start.describe os ds := by
  have hflags : vfs.flagsAt ds = start.flagsAt ds := h.table.flagsAt ds
  have hhandle : vfs.openHandle ds = start.openHandle ds := h.table.openHandle ds
  unfold Vfs.describe
  rw [h.nodeAt, hflags, hhandle]

/-- **Descriptions.** A `stat` of a path that opens answers as the file system at the start of the
session does for the names of that path: of all that came before, only the directory matters to
which the lines have led. -/
theorem shellRun_stat {cs : List Name} (hreach : Reachable start) (hcwd : start.cwd.At cs)
    (hrun : ShellRun libc ⟨start, stdin, false⟩ rounds s') :
    ∀ i (round : ShellRound), rounds[i]? = some round → ∀ cells cmd path,
      round.cells = some cells → Calls (lineOf cells) cmd [path] → cmd.handler = .stat →
      (NodeOpens round.before round.os ⟨round.mallocs, []⟩ path → ∃ output,
        statOutput round.console (start.describe round.os
          (resolve (pathOf ((rounds.take i).foldl ShellRound.directory cs)) path)) = some output ∧
        round.output = [prompt round.before, output]) ∧
      (¬NodeOpens round.before round.os ⟨round.mallocs, []⟩ path →
        ∃ code, code ≠ .ok ∧ round.output = [prompt round.before, errorLine code]) := by
  intro i round hi cells cmd path hcells hcalls hstat
  have hround := List.mem_of_getElem? hi
  have hserved := ((shellRun_directories hreach hcwd hrun).2 i round hi).served
  obtain ⟨r, w', hcall, houtput, -, -⟩ := hrun.runs round hround cells hcells cmd [path] hcalls
  rw [hstat] at hcall
  have hdescribe := (vfsShellStat_ifReturns round.console round.before path [] round.os
    ⟨round.mallocs, []⟩).result hcall
  refine ⟨fun hopens => ?_, fun hno => ?_⟩
  · have hnames : round.before.describe round.os (round.before.resolved path) =
        start.describe round.os
          (resolve (pathOf ((rounds.take i).foldl ShellRound.directory cs)) path) := by
      rw [hserved.describe, Vfs.resolved, hserved.cwd.path]
    rw [← hnames, houtput]
    cases hanswer : round.before.describe round.os (round.before.resolved path) with
    | ok dirent =>
      obtain ⟨-, line, hline, hr⟩ := hdescribe.described hopens dirent hanswer
      exact ⟨.stdout line, by rw [statOutput, hline, Option.map_some], by rw [hr]⟩
    | error code => exact ⟨errorLine code, rfl, by rw [(hdescribe.failed hopens code hanswer).2]⟩
  · obtain ⟨-, code, hcode, hr⟩ := hdescribe.refused hno
    exact ⟨code, hcode, by rw [houtput, hr]⟩

def statLine : Buffer := "stat /virt\n".toList.map some

theorem statLine_calls : Calls (lineOf statLine) vfsShellCommands[3] ["/virt".toList] :=
  ⟨List.getElem_mem _, by decide, by decide, by decide⟩

theorem shellRun_stat_virt :
    ∃ start round s', (vfsShellSetup LibC.reference).eval Os.creating = some start ∧
      ShellRun LibC.reference ⟨start, Stream.ofText statLine, false⟩ [round] s' ∧
      ∃ output, statOutput Console.empty
        (start.describe Os.creating (resolve (pathOf []) "/virt".toList)) = some output ∧
        round.output = [prompt start, output] := by
  obtain ⟨start, hsetup, hnode⟩ := virt_opens
  obtain ⟨hreach, hcwd⟩ := vfsShellSetup_reachable hsetup
  obtain ⟨round, s', hrun, hos, hmallocs, hconsole, hbefore, hcells⟩ :=
    vfsShellSetup_goes_on hsetup (show statLine.length + 2 < 2 ^ 31 by decide)
      Console.empty_tellsTime
  have hstat := (shellRun_stat hreach hcwd hrun 0 round rfl statLine _ _
    (hcells.trans (by decide)) statLine_calls rfl).1
  rw [hbefore, hos, hmallocs, hconsole] at hstat
  exact ⟨start, round, s', hsetup, hrun, hstat hnode⟩

/-! ## Files -/

theorem PathOpens.of_ok {vfs : Vfs} {path : CStr} {mode : VfsFilemode} {os : Os} {w : World}
    (h : (vfsOpen vfs (some path) mode os w).map (fun r => r.1.2.1) = some .ok) :
    PathOpens vfs os w path mode := by
  obtain ⟨⟨r, w'⟩, hcall, hok⟩ := Option.map_eq_some_iff.mp h
  by_contra hno
  exact ((vfsOpen_file vfs path mode os w).result hcall).refused hno hok

/-- **Contents of files.** A `cat` of a file that opens hands to the terminal what the stream of the
file gives before the first error, in its order and nothing twice, however the reads cut it; short
of that it stops only at a short write, which it reports. -/
theorem shellRun_cat (hrun : ShellRun libc ⟨start, stdin, false⟩ rounds s') :
    ∀ round ∈ rounds, ∀ cells cmd path, round.cells = some cells →
      Calls (lineOf cells) cmd [path] → cmd.handler = .cat →
      PathOpens round.before round.os ⟨round.mallocs, []⟩ path .read →
      ∀ stream, stream = round.console.contents
          ⟨(round.before.openHandle (round.before.resolved path)).mappedPath, ['r']⟩ →
        round.output.flatMap ShellOutput.cells <+: stream.good ∧
        (round.output.flatMap ShellOutput.cells = stream.good ↔ shortWrite ∉ round.output) ∧
        ((∀ t ∈ round.console.stdout, t = .all) → shortWrite ∉ round.output) := by
  intro round hround cells cmd path hcells hcalls hcat hopens stream hstream
  obtain ⟨r, w', hcall, houtput, -, -⟩ := hrun.runs round hround cells hcells cmd [path] hcalls
  rw [hcat] at hcall
  have hrunCat := (vfsShellCat_ifReturns round.console round.before path [] round.os
    ⟨round.mallocs, []⟩).result hcall
  obtain ⟨result, -, hputs, hnoshort⟩ := hrunCat.opened hopens
  rw [← hstream] at hputs
  -- the prompt is none of the contents
  have hprompt : round.output.flatMap ShellOutput.cells = r.2.2.flatMap ShellOutput.cells := by
    rw [houtput]
    rfl
  have hshort : shortWrite ∈ round.output ↔ shortWrite ∈ r.2.2 := by
    rw [houtput]
    simp [prompt, shortWrite]
  rw [hprompt, hshort]
  refine ⟨hputs.cut, ⟨fun heq hmem => ?_, fun hno => (hputs.whole hno).1⟩, hnoshort⟩
  exact Nat.ne_of_lt (hputs.short hmem) (congrArg List.length heq)

def catLine : Buffer := "cat /a\n".toList.map some

theorem catLine_calls : Calls (lineOf catLine) vfsShellCommands[4] ["/a".toList] :=
  ⟨List.getElem_mem _, by decide, by decide, by decide⟩

/-- A system in which every path is that of a file. -/
def CLib.Os.files : Os where
  lstat _ := .ok { (default : Stat) with stMode := S_IFREG }
  stat _ := .ok { (default : Stat) with stMode := S_IFREG }
  opendir _ := .error Errno.ENOENT
  fopen _ _ := .ok ()

/-- A terminal that takes everything, and files with a short text. -/
def Console.texts : Console where
  contents _ := Stream.ofText [some 'x', none, some 'y']
  stdout := []
  taking := .all
  localtime _ := some []
  garbage := {}

theorem shellRun_cat_texts :
    ∃ start round s', (vfsShellSetup LibC.reference).eval Os.files = some start ∧
      ShellRun LibC.reference ⟨start, Stream.ofText catLine, false⟩ [round] s' ∧
      round.output.flatMap ShellOutput.cells = [some 'x', none, some 'y'] := by
  have hopens : ((vfsShellSetup LibC.reference).eval Os.files).bind (fun start =>
      (vfsOpen start (some "/a".toList) .read Os.files ⟨[], []⟩).map fun r => r.1.2.1) =
        some .ok := by
    decide
  obtain ⟨start, hsetup, hopen⟩ := Option.bind_eq_some_iff.mp hopens
  have hpath := PathOpens.of_ok hopen
  obtain ⟨round, s', hrun, hos, hmallocs, hconsole, hbefore, hcells⟩ :=
    vfsShellSetup_goes_on hsetup (show catLine.length + 2 < 2 ^ 31 by decide)
      (show Console.texts.TellsTime from fun _ => Option.some_ne_none _)
  obtain ⟨-, hwhole, hnoshort⟩ := shellRun_cat hrun round (List.mem_singleton_self round) catLine
    _ _ (hcells.trans (by decide)) catLine_calls rfl
    (by rw [hbefore, hos, hmallocs]; exact hpath) _ rfl
  rw [hconsole] at hwhole hnoshort
  exact ⟨start, round, s', hsetup, hrun, hwhole.mpr (hnoshort (by simp [Console.texts]))⟩

/-- **Puts.** A `put` at a path that opens hands its text to the file of the path, to the end or up
to where the file fails, and says nothing in either case; at a path that does not open it reports
the error and writes nothing. -/
theorem shellRun_put (hrun : ShellRun libc ⟨start, stdin, false⟩ rounds s') :
    ∀ round ∈ rounds, ∀ cells cmd path, round.cells = some cells →
      Calls (lineOf cells) cmd [path] → cmd.handler = .put →
      (PathOpens round.before round.os ⟨round.mallocs, []⟩ path .write → ∃ written,
        round.output = [prompt round.before, .file
          ⟨(round.before.openHandle (round.before.resolved path)).mappedPath, ['w']⟩ written] ∧
        written <+: putString) ∧
      (¬PathOpens round.before round.os ⟨round.mallocs, []⟩ path .write →
        ∃ code, code ≠ .ok ∧ round.output = [prompt round.before, errorLine code]) := by
  intro round hround cells cmd path hcells hcalls hput
  obtain ⟨r, w', hcall, houtput, -, -⟩ := hrun.runs round hround cells hcells cmd [path] hcalls
  rw [hput] at hcall
  have hrunPut := (vfsShellPut_ifReturns round.console round.before path [] round.os
    ⟨round.mallocs, []⟩).result hcall
  refine ⟨fun hopens => ?_, fun hno => ?_⟩
  · obtain ⟨written, hr, hcut, -⟩ := hrunPut.opened hopens
    exact ⟨written, by rw [houtput, hr], hcut⟩
  · obtain ⟨-, code, hcode, hr⟩ := hrunPut.refused hno
    exact ⟨code, hcode, by rw [houtput, hr]⟩

theorem shellRun_put_putLine :
    ∃ start round s' file written,
      ShellRun LibC.reference ⟨start, Stream.ofText putLine, false⟩ [round] s' ∧
      round.output = [prompt start, .file file written] ∧ written <+: putString := by
  have hopens : ((vfsShellSetup LibC.reference).eval Os.creating).bind (fun start =>
      (vfsOpen start (some "/incoming/a".toList) .write Os.creating ⟨[], []⟩).map
        fun r => r.1.2.1) = some .ok := by
    decide
  obtain ⟨start, hsetup, hopen⟩ := Option.bind_eq_some_iff.mp hopens
  obtain ⟨cmd, hcalls, hhandler⟩ := putLine_calls
  obtain ⟨round, s', hrun, hos, hmallocs, -, hbefore, hcells⟩ :=
    vfsShellSetup_goes_on hsetup (show putLine.length + 2 < 2 ^ 31 by decide)
      Console.empty_tellsTime
  have hput := (shellRun_put hrun round (List.mem_singleton_self round) putLine _ _
    (hcells.trans (by decide)) hcalls hhandler).1
  rw [hbefore, hos, hmallocs] at hput
  obtain ⟨written, houtput, hcut⟩ := hput (.of_ok hopen)
  exact ⟨start, round, s', _, written, hrun, houtput, hcut⟩

end Runs

end Umsftpd
