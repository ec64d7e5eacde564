import Umsftpd.Shell.Sessions
import Umsftpd.Shell.Streams
import Umsftpd.Vfs.Accesses
import Umsftpd.Vfs.Mounts

/-!
# What a session opens

Only `cat` and `put` open files, and which ones is decided by the table that the session starts
with. The shell of `main` reads from its three mountpoints and writes to one of them.
-/

namespace Umsftpd

open CLib Paths Systems

/-! ## Commands -/

/-- How a command opens the file of its argument. -/
def VfsShellCallback.mode : VfsShellCallback → Option VfsFilemode
  | .cat => some .read
  | .put => some .write
  | _ => none

section Calls

variable (libc : LibC) (console : Console) (os : Os) (vfs : Vfs)

theorem vfsShellLs_noFopens (argumentCount : Nat) (arguments : List CStr) :
    NoFopens os (vfsShellLs libc console vfs argumentCount arguments) := by
  apply traces_ite_checked
  intro path
  apply (vfsOpendir_noFopens os vfs (some path)).bind
  rintro ⟨vfs', code, handle⟩
  cases code with
  | ok =>
    refine .checked fun handle _ => .checked fun r _ => ?_
    exact (vfsCloseHandle_noFopens os _).bind fun _ => .pure _
  | _ => exact .pure _

/-- A file is opened, and nothing else after it. -/
theorem vfsOpen_bind_accesses {α : Type} (path : CStr) (mode : VfsFilemode)
    {f : Vfs × VfsError × Option VfsHandle → Exec α} (hf : ∀ r, NoFopens os (f r)) :
    Exec.Traces (vfsOpen vfs (some path) mode >>= f) os fun _ calls => ∀ q m,
      .fopen q m ∈ calls → vfs.Accesses os (vfs.resolved path) mode q m := by
  apply (vfsOpen_accesses os vfs path mode).bind
  intro r calls hcalls
  apply (hf r).mono
  intro _ more hmore q m hmem
  rcases List.mem_append.mp hmem with hmem | hmem
  · exact hcalls q m hmem
  · exact absurd rfl (hmore _ hmem q m)

theorem VfsShellCallback.call_accesses (handler : VfsShellCallback) (argumentCount : Nat)
    (arguments : List CStr) :
    Exec.Traces (handler.call libc console vfs argumentCount arguments) os fun _ calls => ∀ q m,
      .fopen q m ∈ calls → ∃ path mode, arguments[0]? = some path ∧ handler.mode = some mode ∧
        vfs.Accesses os (vfs.resolved path) mode q m := by
  have hnone : ∀ {x : Exec VfsShellResult}, NoFopens os x → Exec.Traces x os fun _ calls =>
      ∀ q m, .fopen q m ∈ calls → ∃ path mode, arguments[0]? = some path ∧
        handler.mode = some mode ∧ vfs.Accesses os (vfs.resolved path) mode q m :=
    fun h => h.mono fun _ _ hcalls q m hmem => absurd rfl (hcalls _ hmem q m)
  have hopen : ∀ {path : CStr} {mode : VfsFilemode}
      {f : Vfs × VfsError × Option VfsHandle → Exec VfsShellResult},
      arguments[0]? = some path → handler.mode = some mode → (∀ r, NoFopens os (f r)) →
      Exec.Traces (vfsOpen vfs (some path) mode >>= f) os fun _ calls => ∀ q m,
        .fopen q m ∈ calls → ∃ path mode, arguments[0]? = some path ∧ handler.mode = some mode ∧
          vfs.Accesses os (vfs.resolved path) mode q m :=
    fun hpath hmode hf => (vfsOpen_bind_accesses os vfs _ _ hf).mono
      fun _ _ hcalls q m hmem => ⟨_, _, hpath, hmode, hcalls q m hmem⟩
  -- what comes of a file that was opened
  have hclosed : ∀ {α : Type} (handle : VfsHandle) (a : α),
      NoFopens os (do vfsCloseHandle handle; return a) :=
    fun handle a => (vfsCloseHandle_noFopens os handle).bind fun _ => .pure a
  cases handler with
  | ls => exact hnone (vfsShellLs_noFopens libc console os vfs argumentCount arguments)
  | cd =>
    refine hnone (.checked fun path _ => ?_)
    exact (NoFopens.of_quiet os (vfsChdir_quiet os vfs (some path))).bind fun _ => .pure _
  | stat =>
    refine hnone (.checked fun path _ => ?_)
    refine (NoFopens.of_quiet os (vfsStat_quiet os vfs (some path) console.garbage)).bind ?_
    rintro ⟨vfs', code, dirent⟩
    exact .ite (fun _ => .pure _) fun _ => .checked fun _ _ => .pure _
  | cat =>
    refine Exec.Traces.checked fun path hpath => hopen hpath rfl ?_
    rintro ⟨vfs', code, handle⟩
    cases code with
    | ok => exact .checked fun _ _ => .checked fun _ _ => .checked fun _ _ => hclosed _ _
    | _ => exact .pure _
  | put =>
    refine Exec.Traces.checked fun path hpath => hopen hpath rfl ?_
    rintro ⟨vfs', code, handle⟩
    cases code with
    | ok => exact .checked fun _ _ => .checked fun _ _ => .checked fun _ _ => hclosed _ _
    | _ => exact .pure _
  | _ => exact hnone (.pure _)

/-- What a line opens. -/
theorem vfsShellLine_accesses (line : CStr) :
    Exec.Traces (vfsShellLine libc console vfs line) os fun _ calls => ∀ q m,
      .fopen q m ∈ calls → ∃ cmd path mode, Calls line cmd [path] ∧
        cmd.handler.mode = some mode ∧ vfs.Accesses os (vfs.resolved path) mode q m := by
  rcases vfsShellLine_cases libc console vfs line with
    ⟨cmd, arguments, hcalls, -, hline⟩ | ⟨-, complaints, hline, -⟩
  · rw [hline]
    apply (VfsShellCallback.call_accesses libc console os vfs cmd.handler _ arguments).bind
    intro r calls haccesses
    refine .pure ?_
    rw [List.append_nil]
    intro q m hmem
    obtain ⟨path, mode, hpath, hmode, haccess⟩ := haccesses q m hmem
    have hone : arguments = [path] := by
      have hmax := maxArgumentCount_le hcalls.mem
      have hfew := hcalls.few
      cases arguments with
      | nil => exact absurd hpath (by simp)
      | cons p rest =>
        rw [List.length_cons] at hfew
        have hp : p = path := by simpa using hpath
        have hrest : rest = [] := List.eq_nil_of_length_eq_zero (by omega)
        rw [hp, hrest]
    rw [hone] at hcalls
    exact ⟨cmd, path, mode, hcalls, hmode, haccess⟩
  · rw [hline]
    exact .pure (by simp)

end Calls

/-! ## Sessions -/

section Runs

variable {libc : LibC} {start : Vfs} {s s' : Shell} {rounds : List ShellRound} {cs : List Name}

/-- The files that a round opens are those that its line names, in the directory of its prompt. -/
def ShellRound.Opens (start : Vfs) (cs : List Name) (round : ShellRound) : Prop :=
  ∀ q m, .fopen q m ∈ round.calls → ∃ cells cmd path mode, round.cells = some cells ∧
    Calls (lineOf cells) cmd [path] ∧ cmd.handler.mode = some mode ∧
    start.Accesses round.os (resolve (pathOf cs) path) mode q m

/-- The step. -/
theorem ShellStep.opens (hstep : ShellStep libc s rounds s') (hserved : start.Served s.vfs cs) :
    ∀ round ∈ rounds, round.Opens start cs := by
  cases hstep with
  | @round vfs vfs' stdin stdin' cells os mallocs console output w' hread hrun =>
    rw [List.forall_mem_singleton]
    intro q m hmem
    obtain ⟨rest, -, hline⟩ := (vfsShellRound_eq_some libc console).mp hrun
    obtain ⟨cmd, path, mode, hcalls, hmode, haccess⟩ :=
      (vfsShellLine_accesses libc console os vfs (lineOf cells)).result hline q m hmem
    refine ⟨cells, cmd, path, mode, rfl, hcalls, hmode, ?_⟩
    unfold Vfs.resolved at haccess
    rw [hserved.cwd.path] at haccess
    obtain ⟨⟨hfiltered, hhidden, hlinks⟩, hreaches, hpath, hmodeString⟩ := haccess
    -- the working directory does not matter for what the names lead to
    have hsame : Vfs.Accesses { vfs with cwd := start.cwd } os (resolve (pathOf cs) path) mode q
        m :=
      ⟨⟨hfiltered, hhidden, hlinks⟩, hreaches, hpath, hmodeString⟩
    exact hserved.table.accesses hsame
  | eof os mallocs console hread => simp [ShellRound.Opens]

/-- **Files of a session.** Every file that a session opens is the one that a `cat` or a `put` names
in the directory of its prompt; it is found in the table that the session started with, whose policy
permits it, and a `put` comes to one only where that table does not say read-only. -/
theorem shellRun_opens (hreach : Reachable start) (hcwd : start.cwd.At cs)
    {stdin : Stream (Option Char)} (hrun : ShellRun libc ⟨start, stdin, false⟩ rounds s') :
    ∀ (i : Nat) (round : ShellRound), rounds[i]? = some round →
      round.Opens start ((rounds.take i).foldl ShellRound.directory cs) := by
  refine (hrun.follows (R := fun s cs => start.Served s.vfs cs) (Vfs.Served.refl hcwd) ?_).2
  intro s more t cs hserved hstep
  obtain ⟨round, rfl, -, hserved'⟩ := hstep.follows hreach.valid hserved
  exact ⟨round, rfl, hstep.opens hserved round (List.mem_singleton_self _), hserved'⟩

end Runs

/-! ## Configurations -/

/-- What is below the path of the declaration may be written, as far as that is up to it. -/
def Declaration.Writable (d : Declaration) : Prop :=
  hasFlag d.flagsSet vfsInodeFlagReadOnly = false ∨
    hasFlag d.flagsReset vfsInodeFlagReadOnly = true

/-- A value in the tree is a declaration, or that of an inode on the way to one. -/
theorem declareAll_cases {ds : List CanonicalDeclaration}
    (h : PathTree.Accepted intermediate (ds.map CanonicalDeclaration.entry) PathTree.empty)
    {p : List Name} {value : Declaration}
    (hvalue : (PathTree.declareAll intermediate (ds.map CanonicalDeclaration.entry)
      PathTree.empty).2 p = some value) :
    (∃ d ∈ ds, d.names = p ∧ value = d.stored) ∨ value = intermediate p := by
  rw [declareAll_entries h] at hvalue
  dsimp only at hvalue
  cases hfind : ds.find? fun d => decide (d.names = p) with
  | none =>
    rw [hfind, Option.map_none, Option.none_or] at hvalue
    exact .inr (gaps_eq_some hvalue)
  | some d =>
    rw [hfind] at hvalue
    refine .inl ⟨d, List.mem_of_find?_eq_some hfind, by simpa using List.find?_some hfind, ?_⟩
    exact (Option.some.inj hvalue).symm

/-- A configuration all of whose calls are answered `true`, after freezing. -/
structure Configures (baseFlags : Flags) (ds : List CanonicalDeclaration) (vfs : Vfs) : Prop where
  reachable : Reachable vfs
  cwd : vfs.cwd.At []
  base : vfs.inode.baseFlags = baseFlags
  declared : ∀ p r, vfs.nodeAt p = some r →
    (∃ d ∈ ds, d.names = p ∧ (vfs.deref r).declaration = d.stored) ∨
      (vfs.deref r).declaration = intermediate p

section Configures

variable {baseFlags : Flags} {ds : List CanonicalDeclaration} {os : Os} {vfs : Vfs}

theorem configures (libc : LibC) {oks : List Bool}
    (hadd : (addAll (ds.map (·.toDeclaration)) (initialVfs baseFlags)).eval os = some (oks, vfs))
    (hoks : ∀ ok ∈ oks, ok = true) : Configures baseFlags ds (vfsFreezeInodes libc vfs) := by
  obtain ⟨htree, hbase, hiff, hdeclared⟩ := declared_addAll hadd
  have haccepted := (hiff.mp hoks).2
  refine ⟨((Reachable.init baseFlags).addAll hadd).step (.freeze libc vfs), ?_, ?_, ?_⟩
  · obtain ⟨⟨r, w⟩, hall, heq⟩ := Option.map_eq_some_iff.mp hadd
    obtain rfl : r = (oks, vfs) := heq
    have hsettings := Vfs.SameSettings.addAll hall
    rw [vfsFreezeInodes_cwd, hsettings.cwd]
    exact ⟨rfl, Nat.le_succ 1⟩
  · rwa [vfsFreezeInodes_baseFlags]
  · intro p r hat
    apply declareAll_cases haccepted
    rw [← hdeclared hoks, ← htree.declared_freeze libc]
    unfold Vfs.declared
    rw [hat]
    rfl

variable (h : Configures baseFlags ds vfs)
include h

/-- Every node has the flags of a declaration, or it has none. -/
theorem Configures.flags {p : List Name} {r : InodeRef} (hat : vfs.nodeAt p = some r) :
    (∃ d ∈ ds, (vfs.deref r).flagsSet = d.flagsSet ∧ (vfs.deref r).flagsReset = d.flagsReset ∧
        ((vfs.deref r).targetPath.isSome = true ↔ d.targetPath.isSome = true)) ∨
      (vfs.deref r).flagsSet = 0 ∧ (vfs.deref r).flagsReset = 0 := by
  rcases h.declared p r hat with ⟨d, hd, -, hdecl⟩ | hblank
  · refine .inl ⟨d, hd, congrArg Declaration.flagsSet hdecl,
      congrArg Declaration.flagsReset hdecl, ?_⟩
    have htarget : (vfs.deref r).targetPath = d.targetPath.map truncateTrailingSlash :=
      congrArg Declaration.targetPath hdecl
    rw [htarget, Option.isSome_map]
  · exact .inr ⟨congrArg Declaration.flagsSet hblank, congrArg Declaration.flagsReset hblank⟩

/-- No declaration without a target takes the read-only flag back. -/
def ResetsMounted (ds : List CanonicalDeclaration) : Prop :=
  ∀ d ∈ ds, hasFlag d.flagsReset vfsInodeFlagReadOnly = true → d.targetPath.isSome = true

theorem Configures.resetsMounted (hreset : ResetsMounted ds) : vfs.ResetsMounted := by
  intro p r hat hflag
  rcases h.flags hat with ⟨d, hd, -, hdreset, htarget⟩ | ⟨-, hnone⟩
  · rw [hdreset] at hflag
    exact htarget.mpr (hreset d hd hflag)
  · rw [hnone] at hflag
    exact absurd hflag (by decide)

/-- A file that is opened is below the target of a mountpoint, and to write below one that is
writable. -/
theorem Configures.contained {cs : List Name} {mode : VfsFilemode} {q m : CStr}
    (haccess : vfs.Accesses os cs mode (some q) m) :
    ∃ d ∈ ds, ∃ target rest, d.targetPath = some target ∧
      q = realPath (truncateTrailingSlash target) d.names rest ∧
      (ResetsMounted ds → m ≠ ['r'] → d.Writable) := by
  obtain ⟨pre, rest, r, target, -, hat, htarget, rfl, hwritable⟩ := haccess.mounted
  rcases h.declared pre r hat with ⟨d, hd, rfl, hdecl⟩ | hblank
  · have hstored : d.targetPath.map truncateTrailingSlash = some target := by
      rw [← htarget]
      exact (congrArg Declaration.targetPath hdecl).symm
    obtain ⟨t, ht, rfl⟩ := Option.map_eq_some_iff.mp hstored
    refine ⟨d, hd, t, rest, ht, rfl, fun hreset hm => ?_⟩
    have hmode : mode ≠ .read := by
      rintro rfl
      exact hm haccess.mode_eq
    have hflags := (hwritable (h.resetsMounted hreset) hmode).2
    rwa [show (vfs.deref r).flagsSet = d.flagsSet from congrArg Declaration.flagsSet hdecl,
      show (vfs.deref r).flagsReset = d.flagsReset from
        congrArg Declaration.flagsReset hdecl] at hflags
  · -- an inode on the way has no target
    rw [show (vfs.deref r).targetPath = none from
      congrArg Declaration.targetPath hblank] at htarget
    exact absurd htarget (by simp)

/-- Where nothing allows symlinks, no part of the path of a file that is opened is one. -/
theorem Configures.scanClean (hbase : hasFlag baseFlags vfsInodeFlagAllowSymlinks = false)
    (hds : ∀ d ∈ ds, hasFlag d.flagsSet vfsInodeFlagAllowSymlinks = false) {cs : List Name}
    {mode : VfsFilemode} {q m : CStr} (haccess : vfs.Accesses os cs mode (some q) m) :
    ScanClean os q := by
  obtain ⟨mountpoint, hmount, hq⟩ := Option.map_eq_some_iff.mp haccess.path_eq.symm
  rw [← hq]
  apply haccess.permits.noSymlinks mountpoint hmount
  apply Vfs.flagsAt_lacks (i := 6) (by decide)
  · rwa [h.base]
  · intro p r hat
    rcases h.flags hat with ⟨d, hd, hset, -⟩ | ⟨hnone, -⟩
    · rw [hset]
      exact hds d hd
    · rw [hnone]
      decide

end Configures

section Contained

variable {libc : LibC} {stdin : Stream (Option Char)} {rounds : List ShellRound} {s' : Shell}

end Contained

/-! ## The program -/

def virtName : Name := ⟨"virt".toList, by decide⟩

theorem validName_b : ValidName ['b'] := by decide

def binName : Name := ⟨['b'], validName_b⟩

def incomingNames : List Name := [⟨"incoming".toList, by decide⟩]

/-- The inodes of `main`, with the names of their paths. -/
def vfsShellDeclarations : List CanonicalDeclaration := [
  ⟨⟨"/".toList, some "/tmp".toList, vfsInodeFlagReadOnly, 0⟩, [], .inl rfl⟩,
  ⟨⟨"/virt".toList, none, vfsInodeFlagReadOnly, 0⟩, [virtName], .inl rfl⟩,
  ⟨⟨"/virt/sub1".toList, none, vfsInodeFlagReadOnly, 0⟩, [virtName, ⟨"sub1".toList, by decide⟩],
    .inl rfl⟩,
  ⟨⟨"/virt/sub2".toList, none, vfsInodeFlagReadOnly, 0⟩, [virtName, ⟨"sub2".toList, by decide⟩],
    .inl rfl⟩,
  ⟨⟨"/virt/abcd".toList, none, vfsInodeFlagReadOnly, 0⟩, [virtName, ⟨"abcd".toList, by decide⟩],
    .inl rfl⟩,
  ⟨⟨"/b".toList, some "/bin".toList, vfsInodeFlagReadOnly, 0⟩, [binName], .inl rfl⟩,
  ⟨⟨"/incoming".toList, some "/tmp/incoming".toList, 0, vfsInodeFlagReadOnly⟩, incomingNames,
    .inl rfl⟩]

theorem vfsShellDeclarations_resetsMounted : ResetsMounted vfsShellDeclarations := by
  unfold ResetsMounted
  decide

/-- The calls of `main` are all answered `true`. -/
theorem vfsShellInodes_accepted {os : Os} {oks : List Bool} {vfs : Vfs}
    (h : (addAll vfsShellInodes (initialVfs 0)).eval os = some (oks, vfs)) :
    (addAll (vfsShellDeclarations.map (·.toDeclaration)) (initialVfs 0)).eval os =
      some (oks, vfs) ∧ ∀ ok ∈ oks, ok = true := by
  have hadd : (addAll (vfsShellDeclarations.map (·.toDeclaration)) (initialVfs 0)).eval os =
      some (oks, vfs) := h
  refine ⟨hadd, (declared_addAll hadd).2.2.1.mpr ⟨?_, ?_⟩⟩
  · unfold Declaration.TargetLegal
    decide
  · rw [PathTree.declareAll_accepted]
    exact ⟨fun _ _ => rfl, by decide⟩

/-- **The shell of the program.** A session reads only below `/tmp` and `/bin`, and it opens files
to write only below `/tmp/incoming`; no part of the path of a file that it opens was a symlink. -/
theorem vfsShell_contained {libc libc' : LibC} {os : Os} {start : Vfs}
    (hsetup : (vfsShellSetup libc').eval os = some start) {stdin : Stream (Option Char)}
    {rounds : List ShellRound} {s' : Shell} (hrun : ShellRun libc ⟨start, stdin, false⟩ rounds s') :
    ∀ round ∈ rounds, ∀ q m, .fopen (some q) m ∈ round.calls → ScanClean round.os q ∧
      ∃ rest : List Name, q = realPath "/tmp/incoming".toList incomingNames rest ∨
        m = ['r'] ∧ (q = realPath "/tmp".toList [] rest ∨
          q = realPath "/bin".toList [binName] rest) := by
  obtain ⟨oks, vfs, hrun', rfl⟩ := vfsShellSetup_adds hsetup
  obtain ⟨hadd, hoks⟩ := vfsShellInodes_accepted hrun'
  have hconf := configures libc' hadd hoks
  intro round hround q m hmem
  obtain ⟨i, hi⟩ := List.getElem?_of_mem hround
  obtain ⟨cells, cmd, path, mode, -, -, -, haccess⟩ :=
    shellRun_opens hconf.reachable hconf.cwd hrun i round hi (some q) m hmem
  refine ⟨hconf.scanClean (by decide) (by decide) haccess, ?_⟩
  obtain ⟨d, hd, target, rest, htarget, rfl, hwritable⟩ := hconf.contained haccess
  -- the declarations that have a target
  have hcases : (target = "/tmp/incoming".toList ∧ d.names = incomingNames) ∨ ¬d.Writable ∧
      (target = "/tmp".toList ∧ d.names = [] ∨
        target = "/bin".toList ∧ d.names = [binName]) := by
    have hall : ∀ d ∈ vfsShellDeclarations, ∀ target, d.targetPath = some target →
        (target = "/tmp/incoming".toList ∧ d.names = incomingNames) ∨ ¬d.Writable ∧
          (target = "/tmp".toList ∧ d.names = [] ∨
            target = "/bin".toList ∧ d.names = [binName]) := by
      unfold Declaration.Writable
      decide
    exact hall d hd target htarget
  refine ⟨rest, ?_⟩
  rcases hcases with ⟨rfl, hnames⟩ | ⟨hreadOnly, hwhich⟩
  · rw [hnames]
    exact .inl rfl
  · refine .inr ⟨not_not.mp (mt (hwritable vfsShellDeclarations_resetsMounted) hreadOnly), ?_⟩
    rcases hwhich with ⟨rfl, hnames⟩ | ⟨rfl, hnames⟩
    · rw [hnames]
      exact .inl rfl
    · rw [hnames]
      exact .inr rfl

/-- The session that writes to one of the files. -/
theorem vfsShell_contained_putLine :
    ∃ start round vfs', (vfsShellSetup LibC.reference).eval Os.creating = some start ∧
      ShellRun LibC.reference ⟨start, Stream.ofText putLine, false⟩ [round] ⟨vfs', [], false⟩ ∧
      ScanClean round.os "/tmp/incoming/a".toList := by
  obtain ⟨start, round, vfs', hsetup, hrun, hmem, -⟩ := shellRun_putLine
  exact ⟨start, round, vfs', hsetup, hrun,
    (vfsShell_contained hsetup hrun round (List.mem_singleton_self round) _ _ hmem).1⟩

end Umsftpd
