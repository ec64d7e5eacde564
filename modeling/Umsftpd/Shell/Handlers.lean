import Umsftpd.Shell
import Umsftpd.Vfs.Described

/-!
# What the commands do

What a handler does that comes back, whatever the system answers and whichever allocations fail:
`ls` prints the contents of a listing and `cat` those of a stream; nothing but `cd` changes more
than the order of names. A handler comes back from every path whose length an `int` holds, where the
times that it prints can be told and `ls` does not come to `opendir(NULL)`.
-/

namespace Umsftpd

open CLib Paths

/-- The times that are printed can be told. -/
def Console.TellsTime (console : Console) : Prop := ∀ t, console.localtime t ≠ none

theorem vfsPrintDirent_returns {console : Console} (htells : console.TellsTime)
    (vfsDirent : VfsDirent) : ∃ line, vfsPrintDirent console vfsDirent = some line := by
  obtain ⟨timeFormat, htime⟩ := Option.ne_none_iff_exists'.mp (htells vfsDirent.mtime)
  unfold vfsPrintDirent
  rw [htime]
  exact ⟨_, rfl⟩

/-! ## Listing a directory -/

section Ls

variable (libc : LibC) (console : Console)

/-- The line for a call that fails. -/
def readdirFailed (path : CStr) (code : VfsError) : ShellOutput :=
  .stderr ("vfs_readdir ".toList ++ path ++ ": ".toList ++ vfsErrorStr code ++ "\n".toList)

/-- What `vfs_shell_ls` puts out for the contents of a directory. -/
def lsOutput (path : CStr) (contents : List VfsDirent × Option VfsError) :
    Option (List ShellOutput) := do
  let lines ← contents.1.mapM (vfsPrintDirent console)
  return lines.map ShellOutput.stdout ++ contents.2.toList.map (readdirFailed path)

theorem lsOutput_cons (path : CStr) (dirent : VfsDirent) (dirents : List VfsDirent)
    (failure : Option VfsError) :
    lsOutput console path (dirent :: dirents, failure) =
      (vfsPrintDirent console dirent).bind fun line =>
        (lsOutput console path (dirents, failure)).map (.stdout line :: ·) := by
  unfold lsOutput
  rw [List.mapM_cons]
  cases vfsPrintDirent console dirent with
  | none => rfl
  | some line => cases dirents.mapM (vfsPrintDirent console) <;> rfl

theorem lsOutput_returns {console : Console} (htells : console.TellsTime) (path : CStr)
    (contents : List VfsDirent × Option VfsError) :
    ∃ output, lsOutput console path contents = some output := by
  obtain ⟨dirents, failure⟩ := contents
  induction dirents with
  | nil => exact ⟨_, rfl⟩
  | cons dirent dirents ih =>
    obtain ⟨line, hline⟩ := vfsPrintDirent_returns htells dirent
    obtain ⟨output, houtput⟩ := ih
    rw [lsOutput_cons, hline, houtput]
    exact ⟨_, rfl⟩

/-- One round of the loop. -/
theorem vfsShellLsLoop_call {path : CStr} {vfs vfs' : Vfs} {handle handle' : VfsHandle}
    {code : VfsError} {before after : VfsDirent}
    (hcall : vfsReaddir libc vfs handle before = some (code, vfs', handle', after)) :
    vfsShellLsLoop libc console path vfs handle before =
      if code ≠ .ok then some ((false, vfs', [readdirFailed path code]), handle')
      else if after.eof then some ((true, vfs', []), handle')
      else
        (vfsPrintDirent console after).bind fun line =>
          (vfsShellLsLoop libc console path vfs' handle' after).map fun r =>
            ((r.1.1, r.1.2.1, .stdout line :: r.1.2.2), r.2) := by
  rw [vfsShellLsLoop]
  split
  · next hnone => exact absurd (hcall.symm.trans hnone) (by simp)
  · next code1 vfs1 handle1 after1 hsome =>
    obtain ⟨rfl, rfl, rfl, rfl⟩ : code = code1 ∧ vfs' = vfs1 ∧ handle' = handle1 ∧
        after = after1 := by simpa using hcall.symm.trans hsome
    cases vfsPrintDirent console after <;> rfl

/-- The loop prints the contents of the listing, up to the error that ends them. -/
theorem vfsShellLsLoop_eq (path : CStr) {vfs : Vfs} {handle : VfsHandle}
    (htype : handle.type = .dirHandle) (hnames : vfs.HasNames handle.inode)
    (vfsDirent : VfsDirent) :
    ∃ vfs' handle', vfsShellLsLoop libc console path vfs handle vfsDirent =
        (lsOutput console path (vfs.listing handle).contents).map (fun output =>
          (((vfs.listing handle).contents.2.isNone, vfs', output), handle')) ∧
      vfs.Resorted vfs' := by
  induction hsize : (vfs.listing handle).size using Nat.strong_induction_on generalizing
    vfs handle vfsDirent with
  | _ size ih =>
    obtain ⟨code, vfs1, handle1, after, hcall, hstep⟩ :=
      vfsReaddir_step libc htype hnames vfsDirent
    have hsame := vfsReaddir_resorted libc hcall
    have hstarts := (vfs.listing handle).contents_next
    rw [← hstep.answer_eq, ← hstep.listing_eq, readdirAnswer] at hstarts
    rw [vfsShellLsLoop_call libc console hcall]
    by_cases hok : code = .ok
    · rw [if_neg (not_not.mpr hok)] at hstarts ⊢
      by_cases heof : after.eof = true
      · rw [if_pos heof] at hstarts ⊢
        rw [show (vfs.listing handle).contents = ([], none) from hstarts]
        exact ⟨vfs1, handle1, rfl, hsame⟩
      · rw [if_neg heof] at hstarts ⊢
        rw [show (vfs.listing handle).contents = (after :: (vfs1.listing handle1).contents.1,
          (vfs1.listing handle1).contents.2) from hstarts]
        have hnames1 : vfs1.HasNames handle1.inode := by
          rw [hstep.inode_eq]
          exact hnames.resorted hsame
        have hlt : (vfs1.listing handle1).size < size := by
          rw [← hsize]
          exact vfsReaddir_size_lt libc hcall hok heof
        obtain ⟨vfs2, handle2, hrest, hsame2⟩ :=
          ih _ hlt (hstep.type_eq.trans htype) hnames1 after rfl
        rw [hrest, lsOutput_cons]
        refine ⟨vfs2, handle2, ?_, hsame.trans hsame2⟩
        cases vfsPrintDirent console after with
        | none => rfl
        | some line => rw [Option.bind_some, Option.bind_some, Option.map_map, Option.map_map]; rfl
    · rw [if_pos hok] at hstarts ⊢
      rw [show (vfs.listing handle).contents = ([], some code) from hstarts]
      exact ⟨vfs1, handle1, rfl, hsame⟩

/-- The path that `ls` lists. -/
def lsPath (arguments : List CStr) : CStr := arguments.headD ['.']

/-- The contents of the directory of a path. -/
def Vfs.contentsAt (vfs : Vfs) (os : Os) (path : CStr) : List VfsDirent × Option VfsError :=
  (vfs.listing (vfs.openDirectory os (vfs.resolved path))).contents

/-- A directory that is opened has the names of its inode. -/
theorem Vfs.WellFormed.hasNames {vfs : Vfs} (h : vfs.WellFormed) (cs : List Name) :
    vfs.HasNames (vfs.nodeAt cs) := by
  intro r hr
  obtain ⟨list, hlist, -⟩ := h.subdirs r (Vfs.nodeAt_some hr).1
  exact ⟨list, hlist⟩

/-- What comes of `ls`: the contents of the directory, and whether there is no error in them, or the
reason why there are none. -/
structure LsRun (vfs : Vfs) (os : Os) (w : World) (path : CStr) (r : VfsShellResult) : Prop where
  resorted : vfs.Resorted r.2.1
  listed : NodeOpens vfs os w path →
    r.1 = (vfs.contentsAt os path).2.isNone ∧
      lsOutput console path (vfs.contentsAt os path) = some r.2.2
  refused : ¬NodeOpens vfs os w path → r.1 = false ∧ ∃ code, code ≠ .ok ∧
    r.2.2 = [.stderr ("diropen ".toList ++ path ++ ": ".toList ++ vfsErrorStr code ++
      "\n".toList)]

/-- Without an argument the path is that of the working directory. -/
theorem vfsShellLs_lsPath (vfs : Vfs) (arguments : List CStr) :
    vfsShellLs libc console vfs arguments.length arguments =
      vfsShellLs libc console vfs 1 [lsPath arguments] := by
  cases arguments with
  | nil => rfl
  | cons path rest => rfl

theorem vfsShellLs_ifReturns {vfs : Vfs} (hvalid : vfs.Valid) (arguments : List CStr) (os : Os)
    (w : World) :
    Exec.IfReturns (vfsShellLs libc console vfs arguments.length arguments) os w fun r _ =>
      LsRun console vfs os w (lsPath arguments) r := by
  rw [vfsShellLs_lsPath]
  generalize lsPath arguments = path
  unfold vfsShellLs
  rw [if_neg (by simp), List.getElem?_cons_zero, Exec.checked_some_bind]
  refine (vfsOpendir_ifReturns vfs (some path) os w).bind ?_
  rintro ⟨vfs', code, handle⟩ w1 hopendir
  have hiff : code = .ok ↔ NodeOpens vfs os w path := by
    rw [hopendir.ok_iff]
    simp
  cases code with
  | ok =>
    obtain ⟨handle, rfl⟩ := Option.ne_none_iff_exists'.mp (hopendir.given rfl)
    obtain ⟨-, hvfs, p, hp, hhandle⟩ := hopendir.opened handle rfl
    obtain rfl : vfs' = vfs := hvfs
    obtain rfl := Option.some.inj hp
    subst hhandle
    obtain ⟨vfs2, handle2, hloop, hsame⟩ := vfsShellLsLoop_eq libc console path
      (show (vfs'.openDirectory os (vfs'.resolved path)).type = .dirHandle from rfl)
      (hvalid.table.hasNames (vfs'.resolved path)) console.garbage
    dsimp only
    rw [Exec.checked_some_bind, hloop]
    refine Exec.IfReturns.checked fun r hr => ?_
    obtain ⟨output, houtput, rfl⟩ := Option.map_eq_some_iff.mp hr
    apply Exec.Returns.ifReturns
    apply Exec.Returns.close
    intro w' _
    exact ⟨hsame, fun _ => ⟨rfl, houtput⟩, fun hno => absurd (hiff.mp rfl) hno⟩
  | _ =>
    refine .pure ⟨hopendir.outcome.resorted, fun hopens => ?_, fun _ => ⟨rfl, _, by simp, rfl⟩⟩
    exact absurd (hiff.mpr hopens) (by simp)

/-- With the times that can be told, and without `opendir(NULL)`. -/
theorem vfsShellLs_returns {console : Console} (htells : console.TellsTime) {vfs : Vfs}
    (hvalid : vfs.Valid) {arguments : List CStr} {os : Os} {w : World}
    (h : vfs.Takes (some (lsPath arguments)))
    (hmapped : vfs.OpensMapped os w (some (lsPath arguments))) :
    Exec.Returns (vfsShellLs libc console vfs arguments.length arguments) os w fun r _ =>
      LsRun console vfs os w (lsPath arguments) r := by
  apply (vfsShellLs_ifReturns libc console hvalid arguments os w).returns (R := fun _ _ => True)
  rw [vfsShellLs_lsPath]
  revert h hmapped
  generalize lsPath arguments = path
  intro h hmapped
  unfold vfsShellLs
  rw [if_neg (by simp), List.getElem?_cons_zero, Exec.checked_some_bind]
  apply (vfsOpendir_returns h hmapped).bind
  rintro ⟨vfs', code, handle⟩ w1 hopendir
  cases code with
  | ok =>
    obtain ⟨handle, rfl⟩ := Option.ne_none_iff_exists'.mp (hopendir.given rfl)
    obtain ⟨-, hvfs, p, -, hhandle⟩ := hopendir.opened handle rfl
    obtain rfl : vfs' = vfs := hvfs
    subst hhandle
    obtain ⟨vfs2, handle2, hloop, -⟩ := vfsShellLsLoop_eq libc console path
      (show (vfs'.openDirectory os (vfs'.resolved p)).type = .dirHandle from rfl)
      (hvalid.table.hasNames (vfs'.resolved p)) console.garbage
    obtain ⟨output, houtput⟩ := lsOutput_returns htells path
      (vfs'.listing (vfs'.openDirectory os (vfs'.resolved p))).contents
    dsimp only
    rw [Exec.checked_some_bind, hloop, houtput, Option.map_some, Exec.checked_some_bind]
    exact .close _ fun _ _ => trivial
  | _ => exact .pure trivial

end Ls

/-! ## Nodes -/

/-- What comes of `stat`: the entry of the node, or the reason why there is none. -/
structure DescribeRun (console : Console) (vfs : Vfs) (os : Os) (w : World) (path : CStr)
    (r : VfsShellResult) : Prop where
  resorted : vfs.Resorted r.2.1
  described : NodeOpens vfs os w path → ∀ dirent, vfs.describe os (vfs.resolved path) = .ok dirent →
    r.1 = true ∧ ∃ line, vfsPrintDirent console dirent = some line ∧ r.2.2 = [.stdout line]
  failed : NodeOpens vfs os w path → ∀ code, vfs.describe os (vfs.resolved path) = .error code →
    r.1 = false ∧ r.2.2 = [errorLine code]
  refused : ¬NodeOpens vfs os w path → r.1 = false ∧ ∃ code, code ≠ .ok ∧ r.2.2 = [errorLine code]

theorem vfsShellStat_ifReturns (console : Console) (vfs : Vfs) (path : CStr) (rest : List CStr)
    (os : Os) (w : World) :
    Exec.IfReturns (vfsShellStat console vfs (path :: rest)) os w fun r _ =>
      DescribeRun console vfs os w path r := by
  unfold vfsShellStat
  rw [List.getElem?_cons_zero, Exec.checked_some_bind]
  refine (vfsStat_ifReturns vfs path console.garbage os w).bind ?_
  rintro ⟨vfs', code, dirent⟩ w1 hstat
  by_cases hok : code = .ok
  · subst hok
    dsimp only
    rw [if_neg (not_not.mpr rfl)]
    refine Exec.IfReturns.checked fun line hline => .pure ?_
    refine ⟨hstat.resorted, fun hopens d hd => ?_, fun hopens code hcode => ?_, fun hno => ?_⟩
    · obtain rfl : dirent = d := Except.ok.inj ((hstat.described hopens).trans hd)
      exact ⟨rfl, line, hline, rfl⟩
    · exact absurd ((hstat.described hopens).trans hcode) (by simp [statAnswerOf])
    · exact absurd rfl (hstat.refused hno)
  · have hfalse : (code == .ok) = false := by simpa using hok
    dsimp only
    rw [if_pos hok]
    apply Exec.IfReturns.pure
    refine ⟨hstat.resorted, fun hopens d hd => ?_, fun hopens code' hcode => ?_, fun _ => ?_⟩
    · exact absurd ((hstat.described hopens).trans hd) (by simp [statAnswerOf, hok])
    · have hcodes : code = code' := by
        simpa [statAnswerOf, hok] using (hstat.described hopens).trans hcode
      exact ⟨hfalse, by rw [← hcodes]⟩
    · exact ⟨hfalse, code, hok, rfl⟩

theorem vfsShellStat_returns {console : Console} (htells : console.TellsTime) {vfs : Vfs}
    {path : CStr} (rest : List CStr) (h : vfs.Takes (some path)) (os : Os) (w : World) :
    Exec.Returns (vfsShellStat console vfs (path :: rest)) os w fun r _ =>
      DescribeRun console vfs os w path r := by
  apply (vfsShellStat_ifReturns console vfs path rest os w).returns (R := fun _ _ => True)
  unfold vfsShellStat
  rw [List.getElem?_cons_zero, Exec.checked_some_bind]
  apply (vfsStat_returns h console.garbage os w).bind
  rintro ⟨vfs', code, dirent⟩ w1 -
  dsimp only
  split
  · exact .pure trivial
  · obtain ⟨line, hline⟩ := vfsPrintDirent_returns htells dirent
    rw [hline]
    exact .pure trivial

/-- What comes of `cd`. -/
theorem vfsShellCd_ifReturns (vfs : Vfs) (path : CStr) (rest : List CStr) (os : Os) (w : World) :
    Exec.IfReturns (vfsShellCd vfs (path :: rest)) os w fun r _ =>
      (r.1 = true → vfs.Moved r.2.1 (vfs.resolved path) ∧ r.2.2 = []) ∧
        (r.1 = false → vfs.Resorted r.2.1 ∧ ∃ code, code ≠ .ok ∧ r.2.2 = [errorLine code]) := by
  unfold vfsShellCd
  rw [List.getElem?_cons_zero, Exec.checked_some_bind]
  have hchdir : Exec.IfReturns (vfsChdir vfs (some path)) os w fun r _ =>
      ChdirOutcome vfs (some path) r.1 r.2 :=
    fun _ _ hrun => (vfsChdir_yields vfs (some path)).result hrun
  refine hchdir.bind ?_
  rintro ⟨vfs', code⟩ w1 ⟨hmoved, hkept⟩
  apply Exec.IfReturns.pure
  constructor
  · intro htrue
    have hok : code = .ok := by simpa using htrue
    obtain ⟨p, hp, -, hmove⟩ := hmoved hok
    obtain rfl := Option.some.inj hp
    exact ⟨hmove, if_neg (not_not.mpr hok)⟩
  · intro hfalse
    have hok : code ≠ .ok := by simpa using hfalse
    exact ⟨hkept hok, code, hok, if_pos hok⟩

theorem vfsShellCd_returns {vfs : Vfs} {path : CStr} (rest : List CStr)
    (h : vfs.Takes (some path)) (os : Os) (w : World) :
    Exec.Returns (vfsShellCd vfs (path :: rest)) os w fun _ _ => True := by
  unfold vfsShellCd
  rw [List.getElem?_cons_zero, Exec.checked_some_bind]
  exact (vfsChdir_returns h os w).bind fun _ _ _ => .pure trivial

/-! ## Files -/

/-- The cells that come to the terminal. -/
def ShellOutput.cells : ShellOutput → Buffer
  | .data cells => cells
  | _ => []

def shortWrite : ShellOutput := .stderr "Short write to stdout.\n".toList

/-- What `cat` makes of a stream: what it gives up to the first error, unless a write is short, and
then it says so. -/
structure CatPuts (stream : Stream (Option Char)) (result : VfsError)
    (output : List ShellOutput) : Prop where
  cut : output.flatMap ShellOutput.cells <+: stream.good
  whole : shortWrite ∉ output → output.flatMap ShellOutput.cells = stream.good ∧
    (result = .ok ↔ stream.failure = none)
  short : shortWrite ∈ output →
    (output.flatMap ShellOutput.cells).length < stream.good.length

/-- A round that writes all of its cells, in front of the others. -/
theorem CatPuts.cons {stream rest : Stream (Option Char)} {result : VfsError} {cells : Buffer}
    {output : List ShellOutput} (h : CatPuts rest result output)
    (hgood : stream.good = cells ++ rest.good) (hfailure : stream.failure = rest.failure) :
    CatPuts stream result (.data cells :: output) := by
  have hcells : (ShellOutput.data cells :: output).flatMap ShellOutput.cells =
      cells ++ output.flatMap ShellOutput.cells := rfl
  have hmem : shortWrite ∈ ShellOutput.data cells :: output ↔ shortWrite ∈ output := by
    simp [shortWrite]
  refine ⟨?_, ?_, ?_⟩
  · rw [hcells, hgood]
    exact (List.prefix_append_right_inj cells).mpr h.cut
  · intro hno
    obtain ⟨hwhole, hresult⟩ := h.whole (mt hmem.mpr hno)
    rw [hcells, hgood, hwhole, hfailure]
    exact ⟨rfl, hresult⟩
  · intro hshort
    have hlt := h.short (hmem.mp hshort)
    rw [hcells, hgood, List.length_append, List.length_append]
    exact Nat.add_lt_add_left hlt _

/-- A round after which the stream has an error. -/
theorem CatPuts.failed {stream : Stream (Option Char)} {result : VfsError} {cells : Buffer}
    (hgood : stream.good = cells) (hfailure : stream.failure ≠ none) (hresult : result ≠ .ok) :
    CatPuts stream result [.data cells] := by
  have hcells : [ShellOutput.data cells].flatMap ShellOutput.cells = stream.good := by
    rw [hgood]
    exact List.append_nil cells
  refine ⟨?_, fun _ => ⟨hcells, iff_of_false hresult hfailure⟩, fun h => ?_⟩
  · rw [hcells]
  · exact absurd h (by simp [shortWrite])

/-- A round that writes a part of its cells. -/
theorem CatPuts.cutShort {stream : Stream (Option Char)} {result : VfsError} {written : Buffer}
    (hcut : written <+: stream.good) (hlt : written.length < stream.good.length) :
    CatPuts stream result [.data written, shortWrite] := by
  have hcells : [ShellOutput.data written, shortWrite].flatMap ShellOutput.cells = written :=
    List.append_nil written
  refine ⟨?_, fun hno => absurd ?_ hno, fun _ => ?_⟩
  · rwa [hcells]
  · simp
  · rwa [hcells]

/-- What a read stores, and what is left to be read. -/
theorem fread_good {α : Type} (n : Nat) (s : Stream α) :
    s.good = (fread n s).1 ++ (if (fread n s).2.1 = none then (fread n s).2.2.good else []) ∧
      ((fread n s).2.1 = none → s.failure = (fread n s).2.2.failure) ∧
      ((fread n s).2.1 ≠ none → s.failure = (fread n s).2.1) ∧
      (0 < n → (fread n s).1 = [] → s.good = [] ∧ s.failure = (fread n s).2.1) := by
  rw [fread_eq]
  by_cases hn : n ≤ s.good.length
  · rw [if_pos hn]
    refine ⟨?_, fun _ => (failure_drop hn).symm, fun h => absurd rfl h, fun hpos hnil => ?_⟩
    · rw [if_pos rfl, good_drop hn, List.take_append_drop]
    · have hlen := congrArg List.length hnil
      rw [List.length_take, List.length_nil] at hlen
      omega
  · rw [if_neg hn]
    refine ⟨?_, ?_, fun _ => rfl, fun _ hnil => ⟨hnil, rfl⟩⟩
    · by_cases hfail : s.failure = none
      · rw [if_pos hfail, List.drop_of_length_le (by rw [length_good hfail]; omega)]
        exact (List.append_nil _).symm
      · rw [if_neg hfail, List.append_nil]
    · intro hfail
      have hfail' : s.failure = none := hfail
      rw [List.drop_of_length_le (by rw [length_good hfail']; omega)]
      exact hfail'

/-- One round of the loop. -/
theorem vfsShellCatLoop_read {handle : VfsHandle} {stream stream' : Stream (Option Char)}
    {result : VfsError} {cells : Buffer}
    (hread : vfsRead handle stream catBufferSize = some (result, some cells, stream'))
    (taking : List Taking) :
    vfsShellCatLoop handle stream taking =
      if cells = [] then some (result, [])
      else if (fwrite (taking.headD .all) cells).1.length ≠ cells.length then
        some (result, [.data (fwrite (taking.headD .all) cells).1, shortWrite])
      else if result ≠ .ok then some (result, [.data (fwrite (taking.headD .all) cells).1])
      else
        (vfsShellCatLoop handle stream' taking.tail).map fun r =>
          (r.1, .data (fwrite (taking.headD .all) cells).1 :: r.2) := by
  rw [vfsShellCatLoop]
  split
  · next hnone => exact absurd (hread.symm.trans hnone) (by simp)
  · next hnone => exact absurd (hread.symm.trans hnone) (by simp)
  · next result1 cells1 stream1 hsome =>
    obtain ⟨rfl, rfl, rfl⟩ : result = result1 ∧ cells = cells1 ∧ stream' = stream1 := by
      simpa using hread.symm.trans hsome
    rfl

/-- The loop of `cat` on an open file. -/
theorem vfsShellCatLoop_eq {handle : VfsHandle} {file : File} (htype : handle.type = .fileHandle)
    (hfile : handle.file = some file) (stream : Stream (Option Char)) (taking : List Taking) :
    ∃ result output, vfsShellCatLoop handle stream taking = some (result, output) ∧
      CatPuts stream result output ∧ ((∀ t ∈ taking, t = .all) → shortWrite ∉ output) := by
  induction hlen : stream.length using Nat.strong_induction_on generalizing stream taking with
  | _ len ih =>
    have hread := vfsRead_file htype hfile stream catBufferSize
    obtain ⟨hgood, hgoes, hfails, hempty⟩ := fread_good catBufferSize stream
    rw [vfsShellCatLoop_read hread]
    by_cases hcells : (fread catBufferSize stream).1 = []
    · obtain ⟨hnil, hfailure⟩ := hempty (by decide) hcells
      rw [if_pos hcells]
      refine ⟨_, [], rfl, ⟨List.nil_prefix, fun _ => ⟨hnil.symm, ?_⟩, by simp⟩, by simp⟩
      rw [hfailure]
      cases (fread catBufferSize stream).2.1 <;> simp
    rw [if_neg hcells]
    have hinitial : (fread catBufferSize stream).1 <+: stream.good := by
      rw [hgood]
      exact List.prefix_append _ _
    rcases fwrite_cases (taking.headD .all) (fread catBufferSize stream).1 with
      hall | ⟨written, errno, hshort, hwritten, hlt⟩
    · rw [hall, if_neg (by simp)]
      by_cases hfailed : (fread catBufferSize stream).2.1 = none
      · have hrest : (fread catBufferSize stream).2.2.length < len := by
          rw [← hlen]
          exact length_fread_lt hcells
        obtain ⟨result, output, hloop, hputs, hnoshort⟩ := ih _ hrest _ taking.tail rfl
        rw [if_pos hfailed] at hgood ⊢
        rw [if_neg (by simp), hloop]
        refine ⟨result, _, rfl, hputs.cons hgood (hgoes hfailed), fun htaking => ?_⟩
        have htail := hnoshort fun t ht => htaking t (List.mem_of_mem_tail ht)
        simpa [shortWrite] using htail
      · rw [if_neg hfailed] at hgood ⊢
        rw [if_pos (by simp)]
        have hfailure : stream.failure ≠ none := by
          rw [hfails hfailed]
          exact hfailed
        refine ⟨_, _, rfl, .failed ?_ hfailure (by simp), fun _ => by simp [shortWrite]⟩
        rw [hgood, List.append_nil]
    · rw [hshort, if_pos (Nat.ne_of_lt hlt)]
      refine ⟨_, _, rfl, .cutShort (hwritten.trans hinitial) ?_, fun htaking => ?_⟩
      · exact Nat.lt_of_lt_of_le hlt hinitial.length_le
      · -- a stream that takes everything is not short
        exfalso
        have hhead : taking.headD .all = .all := by
          cases taking with
          | nil => rfl
          | cons t taking => exact htaking t List.mem_cons_self
        rw [hhead] at hshort
        exact absurd (congrArg Prod.snd hshort) (by simp [fwrite])

/-- What comes of `cat`: what the stream of the file gives, or the reason why there is none. -/
structure CatRun (console : Console) (vfs : Vfs) (os : Os) (w : World) (path : CStr)
    (r : VfsShellResult) : Prop where
  resorted : vfs.Resorted r.2.1
  opened : PathOpens vfs os w path .read → ∃ result, r.1 = (result == .ok) ∧
    CatPuts (console.contents ⟨(vfs.openHandle (vfs.resolved path)).mappedPath, ['r']⟩) result
      r.2.2 ∧ ((∀ t ∈ console.stdout, t = .all) → shortWrite ∉ r.2.2)
  refused : ¬PathOpens vfs os w path .read → r.1 = false ∧ ∃ code, code ≠ .ok ∧
    r.2.2 = [errorLine code]

theorem vfsShellCat_returns_of (console : Console) {vfs : Vfs} {path : CStr} (rest : List CStr)
    {os : Os} {w : World} (h : Exec.Returns (vfsOpen vfs (some path) .read) os w fun r _ =>
      FileRun vfs os w path .read r) :
    Exec.Returns (vfsShellCat console vfs (path :: rest)) os w fun r _ =>
      CatRun console vfs os w path r := by
  unfold vfsShellCat
  rw [List.getElem?_cons_zero, Exec.checked_some_bind]
  apply h.bind
  rintro ⟨vfs', code, handle⟩ w1 hopen
  by_cases hopens : PathOpens vfs os w path .read
  · obtain ⟨rfl, rfl, rfl⟩ : vfs' = vfs ∧ code = .ok ∧
        handle = some (vfs.openFile (vfs.resolved path) .read) := by
      simpa using hopen.opened hopens
    obtain ⟨result, output, hloop, hputs, hnoshort⟩ :=
      vfsShellCatLoop_eq
        (show (vfs'.openFile (vfs'.resolved path) .read).type = .fileHandle from rfl) rfl
        (console.contents ⟨(vfs'.openHandle (vfs'.resolved path)).mappedPath, ['r']⟩)
        console.stdout
    dsimp only
    rw [Exec.checked_some_bind, Vfs.openFile_file, Exec.checked_some_bind, modeStringMapping, hloop,
      Exec.checked_some_bind]
    apply Exec.Returns.close
    intro w' _
    exact ⟨.refl _, fun _ => ⟨result, rfl, hputs, hnoshort⟩, fun hno => absurd hopens hno⟩
  · have hcode := hopen.refused hopens
    cases code with
    | ok => exact absurd rfl hcode
    | _ =>
      exact .pure ⟨hopen.resorted, fun h => absurd h hopens, fun _ => ⟨rfl, _, hcode, rfl⟩⟩

theorem vfsShellCat_returns (console : Console) {vfs : Vfs} {path : CStr} (rest : List CStr)
    (h : vfs.Takes (some path)) (os : Os) (w : World) :
    Exec.Returns (vfsShellCat console vfs (path :: rest)) os w fun r _ =>
      CatRun console vfs os w path r :=
  vfsShellCat_returns_of console rest
    ((vfsOpen_file vfs path .read os w).returns (vfsOpen_returns h .read os w))

theorem vfsShellCat_ifReturns (console : Console) (vfs : Vfs) (path : CStr) (rest : List CStr)
    (os : Os) (w : World) :
    Exec.IfReturns (vfsShellCat console vfs (path :: rest)) os w fun r _ =>
      CatRun console vfs os w path r := by
  apply Exec.IfReturns.of_returns
  intro r w' hrun
  apply vfsShellCat_returns_of
  unfold vfsShellCat at hrun
  rw [List.getElem?_cons_zero, Exec.checked_some_bind] at hrun
  exact (vfsOpen_file vfs path .read os w).of_bind hrun

/-- What comes of `put`: the text is in the file, up to where the file fails. -/
structure PutRun (vfs : Vfs) (os : Os) (w : World) (path : CStr) (r : VfsShellResult) : Prop where
  resorted : vfs.Resorted r.2.1
  opened : PathOpens vfs os w path .write → ∃ written,
    r.2.2 = [.file ⟨(vfs.openHandle (vfs.resolved path)).mappedPath, ['w']⟩ written] ∧
      written <+: putString ∧ (r.1 = true ↔ written = putString)
  refused : ¬PathOpens vfs os w path .write → r.1 = false ∧ ∃ code, code ≠ .ok ∧
    r.2.2 = [errorLine code]

theorem vfsShellPut_returns_of (console : Console) {vfs : Vfs} {path : CStr} (rest : List CStr)
    {os : Os} {w : World} (h : Exec.Returns (vfsOpen vfs (some path) .write) os w fun r _ =>
      FileRun vfs os w path .write r) :
    Exec.Returns (vfsShellPut console vfs (path :: rest)) os w fun r _ =>
      PutRun vfs os w path r := by
  unfold vfsShellPut
  rw [List.getElem?_cons_zero, Exec.checked_some_bind]
  apply h.bind
  rintro ⟨vfs', code, handle⟩ w1 hopen
  by_cases hopens : PathOpens vfs os w path .write
  · obtain ⟨rfl, rfl, rfl⟩ : vfs' = vfs ∧ code = .ok ∧
        handle = some (vfs.openFile (vfs.resolved path) .write) := by
      simpa using hopen.opened hopens
    have hwrite := vfsWrite_file
      (show (vfs'.openFile (vfs'.resolved path) .write).type = .fileHandle from rfl) rfl
      console.taking putString
    dsimp only
    rw [Exec.checked_some_bind, Vfs.openFile_file, Exec.checked_some_bind, hwrite,
      Exec.checked_some_bind]
    apply Exec.Returns.close
    intro w' _
    refine ⟨.refl _, fun _ => ⟨(fwrite console.taking putString).1, rfl, ?_⟩,
      fun hno => absurd hopens hno⟩
    rcases fwrite_cases console.taking putString with hall | ⟨written, errno, hfw, hcut, hlt⟩
    · rw [hall]
      exact ⟨List.prefix_rfl, iff_of_true rfl rfl⟩
    · rw [hfw]
      exact ⟨hcut, iff_of_false (by simp) fun heq => Nat.ne_of_lt hlt (congrArg List.length heq)⟩
  · have hcode := hopen.refused hopens
    cases code with
    | ok => exact absurd rfl hcode
    | _ =>
      exact .pure ⟨hopen.resorted, fun h => absurd h hopens, fun _ => ⟨rfl, _, hcode, rfl⟩⟩

theorem vfsShellPut_returns (console : Console) {vfs : Vfs} {path : CStr} (rest : List CStr)
    (h : vfs.Takes (some path)) (os : Os) (w : World) :
    Exec.Returns (vfsShellPut console vfs (path :: rest)) os w fun r _ =>
      PutRun vfs os w path r :=
  vfsShellPut_returns_of console rest
    ((vfsOpen_file vfs path .write os w).returns (vfsOpen_returns h .write os w))

theorem vfsShellPut_ifReturns (console : Console) (vfs : Vfs) (path : CStr) (rest : List CStr)
    (os : Os) (w : World) :
    Exec.IfReturns (vfsShellPut console vfs (path :: rest)) os w fun r _ =>
      PutRun vfs os w path r := by
  apply Exec.IfReturns.of_returns
  intro r w' hrun
  apply vfsShellPut_returns_of
  unfold vfsShellPut at hrun
  rw [List.getElem?_cons_zero, Exec.checked_some_bind] at hrun
  exact (vfsOpen_file vfs path .write os w).of_bind hrun

end Umsftpd
