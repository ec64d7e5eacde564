import Umsftpd.Shell
import Umsftpd.Vfs.OpenRuns

/-!
# What a line calls

The shell takes a line for its words. It stores eight of them and drops the rest with no more than a
message, but no command takes that many, so a line is carried out for all of its words or not at
all.
-/

namespace Umsftpd

open CLib Text

/-! ## Tokens -/

/-- The words of a line, which blanks separate. -/
def lineWords (line : CStr) : List CStr := words ([' '].contains ·) line

/-- Eight tokens are stored, and each of the others is warned of. -/
theorem storeTokens_eq {tokens : List CStr} (h : tokens.length ≤ 8) (rest : List CStr) :
    storeTokens tokens rest =
      (tokens ++ rest.take (8 - tokens.length),
        List.replicate (rest.length - (8 - tokens.length)) tooManyTokens) := by
  induction rest generalizing tokens with
  | nil => simp [storeTokens]
  | cons token rest ih =>
    unfold storeTokens
    by_cases hroom : tokens.length < 8
    · have hlen : (tokens ++ [token]).length = tokens.length + 1 := by simp
      obtain ⟨k, hk⟩ : ∃ k, 8 - tokens.length = k + 1 := ⟨7 - tokens.length, by omega⟩
      have hk' : 8 - (tokens.length + 1) = k := by omega
      rw [if_pos hroom, ih (by omega), hlen, hk, hk', List.take_succ_cons, List.append_assoc,
        List.length_cons, Nat.add_sub_add_right]
      rfl
    · have hfull : 8 - tokens.length = 0 := by omega
      rw [if_neg hroom, ih h, hfull]
      simp [List.replicate_succ]

theorem storeTokens_nil (rest : List CStr) :
    storeTokens [] rest = (rest.take 8, List.replicate (rest.length - 8) tooManyTokens) := by
  have h := storeTokens_eq (show ([] : List CStr).length ≤ 8 from Nat.zero_le 8) rest
  rwa [List.nil_append, List.length_nil, Nat.sub_zero] at h

/-! ## Commands -/

/-- The line calls the command with the arguments. -/
structure Calls (line : CStr) (cmd : VfsShellCommand) (arguments : List CStr) : Prop where
  mem : cmd ∈ vfsShellCommands
  words : lineWords line = cmd.command :: arguments
  enough : cmd.minArgumentCount ≤ arguments.length
  few : arguments.length ≤ cmd.maxArgumentCount

theorem vfsShellCommands_nodup : (vfsShellCommands.map VfsShellCommand.command).Nodup := by decide

theorem maxArgumentCount_le {cmd : VfsShellCommand} (h : cmd ∈ vfsShellCommands) :
    cmd.maxArgumentCount ≤ 1 := by
  have hall : ∀ cmd ∈ vfsShellCommands, cmd.maxArgumentCount ≤ 1 := by decide
  exact hall cmd h

/-- The command of a name. -/
theorem find?_vfsShellCommands {token : CStr} {cmd : VfsShellCommand} :
    (vfsShellCommands.find? fun cmd => strcmp cmd.command token == .eq) = some cmd ↔
      cmd ∈ vfsShellCommands ∧ cmd.command = token := by
  constructor
  · intro h
    refine ⟨List.mem_of_find?_eq_some h, ?_⟩
    simpa [strcmp_beq] using List.find?_some h
  · rintro ⟨hmem, rfl⟩
    -- the names are distinct, so the first match is the only one
    cases hfind : vfsShellCommands.find? fun c => strcmp c.command cmd.command == .eq with
    | none =>
      have hno := List.find?_eq_none.mp hfind cmd hmem
      simp [strcmp_beq] at hno
    | some c =>
      have hname : c.command = cmd.command := by simpa [strcmp_beq] using List.find?_some hfind
      rw [List.inj_on_of_nodup_map vfsShellCommands_nodup (List.mem_of_find?_eq_some hfind) hmem
        hname]

theorem Calls.length_le {line : CStr} {cmd : VfsShellCommand} {arguments : List CStr}
    (h : Calls line cmd arguments) : (lineWords line).length ≤ 2 := by
  rw [h.words, List.length_cons]
  have hmax := maxArgumentCount_le h.mem
  have hfew := h.few
  omega

/-! ## Lines -/

section Lines

variable (libc : LibC) (console : Console) (vfs : Vfs)

/-- What is done for words of which none was dropped. -/
theorem vfsShellLine_of_calls {line : CStr} {cmd : VfsShellCommand} {arguments : List CStr}
    (h : Calls line cmd arguments) :
    vfsShellLine libc console vfs line = do
      let r ← cmd.handler.call libc console vfs arguments.length arguments
      return r.2 := by
  have hlen := h.length_le
  have hwords : strtokAll [' '] line = cmd.command :: arguments := by
    rw [strtokAll_eq_words]
    exact h.words
  have hstored : storeTokens [] (strtokAll [' '] line) = (cmd.command :: arguments, []) := by
    rw [h.words] at hlen
    rw [storeTokens_nil, hwords, List.take_of_length_le (by omega),
      Nat.sub_eq_zero_of_le (by omega), List.replicate_zero]
  unfold vfsShellLine
  simp only [hstored, find?_vfsShellCommands.mpr ⟨h.mem, rfl⟩, List.length_cons, Nat.add_sub_cancel,
    h.enough, h.few, and_self, if_true, List.nil_append]

/-- A line that calls nothing is complained about, if it has words. -/
theorem vfsShellLine_of_not_calls {line : CStr} (h : ∀ cmd arguments, ¬Calls line cmd arguments) :
    ∃ complaints, vfsShellLine libc console vfs line = pure (vfs, complaints) ∧
      (∀ output ∈ complaints, ∃ text, output = .stderr text) ∧
      (complaints = [] ↔ lineWords line = []) ∧
      (8 < (lineWords line).length → tooManyTokens ∈ complaints) := by
  have hwords : strtokAll [' '] line = lineWords line := strtokAll_eq_words _ line
  have hwarnings : ∀ output ∈ List.replicate ((lineWords line).length - 8) tooManyTokens,
      ∃ text, output = .stderr text :=
    fun output hmem => ⟨_, List.eq_of_mem_replicate hmem⟩
  have hmany : 8 < (lineWords line).length →
      tooManyTokens ∈ List.replicate ((lineWords line).length - 8) tooManyTokens := by
    intro hlt
    exact List.mem_replicate.mpr ⟨by omega, rfl⟩
  unfold vfsShellLine
  rw [hwords, storeTokens_nil]
  cases hline : lineWords line with
  | nil => exact ⟨[], rfl, by simp, by simp, by simp⟩
  | cons token arguments =>
    rw [hline] at hwarnings hmany
    -- one more complaint behind the warnings
    have hcomplain : ∀ text, ∃ complaints,
        (pure (vfs, List.replicate ((token :: arguments).length - 8) tooManyTokens ++
            [.stderr text]) : Exec (Vfs × List ShellOutput)) = pure (vfs, complaints) ∧
          (∀ output ∈ complaints, ∃ text, output = .stderr text) ∧
          (complaints = [] ↔ token :: arguments = []) ∧
          (8 < (token :: arguments).length → tooManyTokens ∈ complaints) := by
      intro text
      refine ⟨_, rfl, ?_, by simp, fun hlt => List.mem_append_left _ (hmany hlt)⟩
      intro output hmem
      rcases List.mem_append.mp hmem with hmem | hmem
      · exact hwarnings output hmem
      · exact ⟨text, List.mem_singleton.mp hmem⟩
    rw [List.take_succ_cons]
    dsimp only
    split
    · exact hcomplain _
    · next cmd hfind =>
      obtain ⟨hmem, hname⟩ := find?_vfsShellCommands.mp hfind
      by_cases hcount : (token :: arguments.take 7).length - 1 ≥ cmd.minArgumentCount ∧
          (token :: arguments.take 7).length - 1 ≤ cmd.maxArgumentCount
      · -- within the bounds of the command no word was dropped
        exfalso
        have hmax := maxArgumentCount_le hmem
        rw [List.length_cons, Nat.add_sub_cancel, List.length_take] at hcount
        refine h cmd arguments ⟨hmem, by rw [hline, hname], ?_, ?_⟩ <;> omega
      · rw [if_neg hcount]
        exact hcomplain _

/-- **Lines.** A line calls a command with its other words as arguments, or it calls nothing and all
that comes of it are complaints. One with more words than are stored is not carried out. -/
theorem vfsShellLine_cases (line : CStr) :
    (∃ cmd arguments, Calls line cmd arguments ∧ (lineWords line).length ≤ 2 ∧
      vfsShellLine libc console vfs line = do
        let r ← cmd.handler.call libc console vfs arguments.length arguments
        return r.2) ∨
    (∀ cmd arguments, ¬Calls line cmd arguments) ∧
      ∃ complaints, vfsShellLine libc console vfs line = pure (vfs, complaints) ∧
        (∀ output ∈ complaints, ∃ text, output = .stderr text) ∧
        (complaints = [] ↔ lineWords line = []) ∧
        (8 < (lineWords line).length → tooManyTokens ∈ complaints) := by
  by_cases h : ∃ cmd arguments, Calls line cmd arguments
  · obtain ⟨cmd, arguments, hcalls⟩ := h
    exact .inl ⟨cmd, arguments, hcalls, hcalls.length_le,
      vfsShellLine_of_calls libc console vfs hcalls⟩
  · have hno : ∀ cmd arguments, ¬Calls line cmd arguments :=
      fun cmd arguments hcalls => h ⟨cmd, arguments, hcalls⟩
    exact .inr ⟨hno, vfsShellLine_of_not_calls libc console vfs hno⟩

end Lines

/-! ## Rounds -/

/-- A round in which a command is called. -/
theorem ShellStep.of_calls {libc : LibC} {vfs vfs' : Vfs} {stdin stdin' : Stream (Option Char)}
    {cells : Buffer} {os : Os} {mallocs : List Bool} {console : Console} {cmd : VfsShellCommand}
    {arguments : List CStr} {ok : Bool} {output : List ShellOutput} {w' : World}
    (hread : fgets lineSize stdin = (some cells, stdin'))
    (hcalls : Calls (lineOf cells) cmd arguments)
    (hcall : cmd.handler.call libc console vfs arguments.length arguments os ⟨mallocs, []⟩ =
      some ((ok, vfs', output), w')) :
    ShellStep libc ⟨vfs, stdin, false⟩
      [⟨os, mallocs, console, vfs, some cells, w'.calls, prompt vfs :: output, vfs'⟩]
      ⟨vfs', stdin', false⟩ := by
  apply ShellStep.round os mallocs console hread
  unfold vfsShellRound
  rw [vfsShellLine_of_calls libc console vfs hcalls, Exec.bind_apply, Exec.bind_apply, hcall]
  rfl

/-- A terminal that takes everything, and files that are empty. -/
def Console.empty : Console where
  contents _ := []
  stdout := []
  taking := .all
  localtime _ := some []
  garbage := {}

/-- The text of a session of one line. -/
def putLine : Buffer := "put /incoming/a\n".toList.map some

theorem putLine_calls : ∃ cmd, Calls (lineOf putLine) cmd ["/incoming/a".toList] ∧
    cmd.handler = .put := by
  have hwords : lineWords (lineOf putLine) = ["put".toList, "/incoming/a".toList] := by decide
  refine ⟨vfsShellCommands[6], ⟨List.getElem_mem _, hwords, ?_, ?_⟩, rfl⟩ <;> decide

/-- A session of one line. -/
theorem shellRun_putLine :
    ∃ start round vfs', (vfsShellSetup LibC.reference).eval Os.creating = some start ∧
      ShellRun LibC.reference ⟨start, Stream.ofText putLine, false⟩ [round] ⟨vfs', [], false⟩ ∧
      .fopen (some "/tmp/incoming/a".toList) ['w'] ∈ round.calls ∧
      round.cells = some putLine := by
  have hput : (((vfsShellSetup LibC.reference).eval Os.creating).bind fun start =>
      (vfsShellPut Console.empty start ["/incoming/a".toList] Os.creating ⟨[], []⟩).map fun r =>
        decide (.fopen (some "/tmp/incoming/a".toList) ['w'] ∈ r.2.calls)) = some true := by
    decide
  obtain ⟨start, hsetup, hrun⟩ := Option.bind_eq_some_iff.mp hput
  obtain ⟨⟨⟨ok, vfs', output⟩, w'⟩, hcall, hmem⟩ := Option.map_eq_some_iff.mp hrun
  obtain ⟨cmd, hcalls, hhandler⟩ := putLine_calls
  have hread : fgets lineSize (Stream.ofText putLine) = (some putLine, []) := by decide
  have hstep := ShellStep.of_calls hread hcalls
    (show cmd.handler.call LibC.reference Console.empty start _ _ Os.creating ⟨[], []⟩ = _ by
      rw [hhandler]
      exact hcall)
  exact ⟨start, _, _, hsetup, .single hstep, of_decide_eq_true hmem, rfl⟩

end Umsftpd
