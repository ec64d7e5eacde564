import Umsftpd.Shell.Commands
import Umsftpd.Vfs.Accounts

/-!
# What a session leaves open

Every directory and file that a command opens is closed before the next prompt, and nothing is
closed that is not open, whatever the system answers and whichever allocations fail.
-/

namespace Umsftpd

open CLib Systems

section Handlers

variable {os : Os} (libc : LibC) (console : Console)

theorem vfsShellLsLoop_streams {path : CStr} {vfs : Vfs} {handle handle' : VfsHandle}
    {vfsDirent : VfsDirent} {result : VfsShellResult}
    (h : vfsShellLsLoop libc console path vfs handle vfsDirent = some (result, handle')) :
    handle'.streams = handle.streams := by
  fun_induction vfsShellLsLoop libc console path vfs handle vfsDirent generalizing result with
  | case1 => exact absurd h (by simp)
  | case2 vfs handle vfsDirent code vfs1 handle1 vfsDirent1 hcall hok =>
    obtain ⟨-, rfl⟩ := Prod.mk.inj (Option.some.inj h)
    exact vfsReaddir_streams hcall
  | case3 vfs handle vfsDirent code vfs1 handle1 vfsDirent1 hcall hok heof =>
    obtain ⟨-, rfl⟩ := Prod.mk.inj (Option.some.inj h)
    exact vfsReaddir_streams hcall
  | case4 vfs handle vfsDirent code vfs1 handle1 vfsDirent1 hcall hok heof hline =>
    exact absurd h (by simp)
  | case5 vfs handle vfsDirent code vfs1 handle1 vfsDirent1 hcall hok heof line hline ih =>
    obtain ⟨⟨result1, handle2⟩, hrest, hresult⟩ := Option.map_eq_some_iff.mp h
    obtain ⟨-, rfl⟩ := Prod.mk.inj hresult
    exact (ih hrest).trans (vfsReaddir_streams hcall)

/-- A part without calls, in front of the rest. -/
theorem traces_ite_checked {α β : Type} {p : Prop} [Decidable p] {a : α} {x : Option α}
    {f : α → Exec β} {R : β → List SysCall → Prop} (h : ∀ a, Exec.Traces (f a) os R) :
    Exec.Traces (if p then pure a >>= f else Exec.checked x >>= f) os R := by
  by_cases hp : p
  · rw [if_pos hp, pure_bind]
    exact h a
  · rw [if_neg hp]
    exact .checked fun b _ => h b

theorem vfsShellLs_traces (vfs : Vfs) (argumentCount : Nat) (arguments : List CStr) :
    Exec.Traces (vfsShellLs libc console vfs argumentCount arguments) os
      fun _ calls => Leaves os [] calls [] := by
  apply traces_ite_checked
  intro path
  apply (vfsOpendir_traces os vfs (some path)).bind
  rintro ⟨vfs', code, handle⟩ calls hcalls
  cases code with
  | ok =>
    apply Exec.Traces.checked
    rintro handle rfl
    apply Exec.Traces.checked
    rintro ⟨result, handle'⟩ hloop
    apply traces_close
    intro more hmore
    rw [vfsShellLsLoop_streams libc console hloop] at hmore
    exact hcalls.append hmore
  | _ => exact .pure (hcalls.append rfl)

theorem vfsShellCd_traces (vfs : Vfs) (arguments : List CStr) :
    Exec.Traces (vfsShellCd vfs arguments) os fun _ calls => Leaves os [] calls [] := by
  apply Exec.Traces.checked
  intro path _
  apply Exec.Traces.bind (vfsChdir_quiet os vfs (some path))
  intro r calls hquiet
  exact .pure ((leaves_of_quiet hquiet []).append rfl)

theorem vfsShellStat_traces (vfs : Vfs) (arguments : List CStr) :
    Exec.Traces (vfsShellStat console vfs arguments) os fun _ calls => Leaves os [] calls [] := by
  apply Exec.Traces.checked
  intro path _
  apply Exec.Traces.bind (vfsStat_quiet os vfs (some path) console.garbage)
  rintro ⟨vfs', result, dirent⟩ calls hquiet
  have hleaves : Leaves os [] (calls ++ []) [] := (leaves_of_quiet hquiet []).append rfl
  dsimp only
  split
  · exact .pure hleaves
  · exact .checked fun _ _ => .pure hleaves

/-- A file that is opened, and closed by what comes after it. -/
theorem traces_open {α : Type} {vfs : Vfs} {path : CStr} {mode : VfsFilemode}
    {f : Vfs × VfsError × Option VfsHandle → Exec α}
    (hok : ∀ vfs' handle, Exec.Traces (f (vfs', .ok, handle)) os
      fun _ more => Leaves os (givenStreams .ok handle) more [])
    (hfailed : ∀ vfs' code handle, code ≠ .ok → Exec.Traces (f (vfs', code, handle)) os
      fun _ more => Leaves os [] more []) :
    Exec.Traces (vfsOpen vfs (some path) mode >>= f) os fun _ calls => Leaves os [] calls [] := by
  apply (vfsOpen_traces os vfs (some path) mode).bind
  rintro ⟨vfs', code, handle⟩ calls hcalls
  by_cases hcode : code = .ok
  · subst hcode
    exact (hok vfs' handle).mono fun _ _ hmore => hcalls.append hmore
  · rw [givenStreams_of_ne hcode] at hcalls
    exact (hfailed vfs' code handle hcode).mono fun _ _ hmore => hcalls.append hmore

theorem vfsShellCat_traces (vfs : Vfs) (arguments : List CStr) :
    Exec.Traces (vfsShellCat console vfs arguments) os fun _ calls => Leaves os [] calls [] := by
  apply Exec.Traces.checked
  intro path _
  apply traces_open
  · intro vfs' handle
    apply Exec.Traces.checked
    rintro handle rfl
    apply Exec.Traces.checked
    intro file _
    apply Exec.Traces.checked
    intro r _
    exact traces_close os fun _ hclosed => hclosed
  · intro vfs' code handle hcode
    cases code with
    | ok => exact absurd rfl hcode
    | _ => exact .pure rfl

theorem vfsShellPut_traces (vfs : Vfs) (arguments : List CStr) :
    Exec.Traces (vfsShellPut console vfs arguments) os fun _ calls => Leaves os [] calls [] := by
  apply Exec.Traces.checked
  intro path _
  apply traces_open
  · intro vfs' handle
    apply Exec.Traces.checked
    rintro handle rfl
    apply Exec.Traces.checked
    intro file _
    apply Exec.Traces.checked
    intro r _
    exact traces_close os fun _ hclosed => hclosed
  · intro vfs' code handle hcode
    cases code with
    | ok => exact absurd rfl hcode
    | _ => exact .pure rfl

theorem VfsShellCallback.call_traces (handler : VfsShellCallback) (vfs : Vfs)
    (argumentCount : Nat) (arguments : List CStr) :
    Exec.Traces (handler.call libc console vfs argumentCount arguments) os
      fun _ calls => Leaves os [] calls [] := by
  cases handler with
  | ls => exact vfsShellLs_traces libc console vfs argumentCount arguments
  | cd => exact vfsShellCd_traces vfs arguments
  | stat => exact vfsShellStat_traces console vfs arguments
  | cat => exact vfsShellCat_traces console vfs arguments
  | put => exact vfsShellPut_traces console vfs arguments
  | _ => exact .pure rfl

theorem vfsShellLine_traces (vfs : Vfs) (line : CStr) :
    Exec.Traces (vfsShellLine libc console vfs line) os fun _ calls => Leaves os [] calls [] := by
  unfold vfsShellLine
  dsimp only
  split
  · exact .pure rfl
  split
  · exact .pure rfl
  split
  · apply (VfsShellCallback.call_traces libc console _ vfs _ _).bind
    intro r calls hcalls
    exact .pure (hcalls.append rfl)
  · exact .pure rfl

theorem vfsShellRound_traces (vfs : Vfs) (cells : Buffer) :
    Exec.Traces (vfsShellRound libc console vfs cells) os fun _ calls => Leaves os [] calls [] := by
  apply (vfsShellLine_traces libc console vfs (lineOf cells)).bind
  intro r calls hcalls
  exact .pure (hcalls.append rfl)

end Handlers

/-! ## Sessions -/

/-- How often a round opens a kind of stream, and how often it closes one. -/
def ShellRound.opens (round : ShellRound) (kind : StreamKind) : Nat :=
  acquired (streamEntry round.os) kind round.calls

def ShellRound.closes (round : ShellRound) (kind : StreamKind) : Nat :=
  released (streamEntry round.os) kind round.calls

/-- The step. -/
theorem ShellStep.settles {libc : LibC} {s s' : Shell} {rounds : List ShellRound}
    (h : ShellStep libc s rounds s') : ∀ round ∈ rounds, Leaves round.os [] round.calls [] := by
  cases h with
  | round os mallocs console hread hrun =>
    simpa using (vfsShellRound_traces libc console _ _).result hrun
  | eof os mallocs console hread => simp [Leaves]

/-- **Nothing stays open.** In every round of a session each kind of stream is closed as often as it
is opened, and at no moment of the round more often. -/
theorem shellRun_streams {libc : LibC} {s s' : Shell} {rounds : List ShellRound}
    (hrun : ShellRun libc s rounds s') :
    ∀ round ∈ rounds, ∀ kind, round.closes kind = round.opens kind ∧
      ∀ n, released (streamEntry round.os) kind (round.calls.take n) ≤
        acquired (streamEntry round.os) kind (round.calls.take n) := by
  have hsettles := (hrun.invariant (I := fun _ => True)
    (P := fun round => Leaves round.os [] round.calls []) True.intro
    fun _ _ _ _ hstep => ⟨True.intro, hstep.settles⟩).2
  intro round hround kind
  have h := hsettles round hround
  exact ⟨settle_closed h kind, fun n => settle_take h n kind⟩

theorem shellRun_streams_putLine :
    ∃ start round vfs', (vfsShellSetup LibC.reference).eval Os.creating = some start ∧
      ShellRun LibC.reference ⟨start, Stream.ofText putLine, false⟩ [round] ⟨vfs', [], false⟩ ∧
      .fopen (some "/tmp/incoming/a".toList) ['w'] ∈ round.calls ∧
      round.closes .file = round.opens .file := by
  obtain ⟨start, round, vfs', hsetup, hrun, hmem, -⟩ := shellRun_putLine
  exact ⟨start, round, vfs', hsetup, hrun, hmem,
    (shellRun_streams hrun round (List.mem_singleton_self round) .file).1⟩

end Umsftpd
