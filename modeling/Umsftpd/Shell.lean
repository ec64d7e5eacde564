import Umsftpd.Systems.Runs
import Umsftpd.Vfs.Contents
import Umsftpd.Vfs.Files

/-!
# The shell (`vfsdebug.c`)

`vfs_shell` reads lines, cuts them into tokens and calls the handler of the command in its table. A
round of it is an `Exec`, with the lines that are still to come and what the round puts out beside
it; a session is a run of rounds, between which the system may answer otherwise.
-/

namespace Umsftpd

open CLib

/-! ## The terminal and the files -/

/-- What the shell itself puts out: text on the terminal, cells that `fwrite` copies there, and what
goes to the stream of a file. The lines that the functions of `vfs.c` log come to `stderr` as well
(`main` sets the level `LLVL_TRACE`); they are left out. -/
inductive ShellOutput where
  | stdout (text : CStr)
  | stderr (text : CStr)
  | data (cells : Buffer)
  | file (file : File) (text : CStr)
  deriving DecidableEq

/-- What the streams and the rest of libc give in a round: `contents` are the cells of a file that
is opened, `stdout` is what the coming `fwrite` calls on `stdout` do, every one after the last of
them succeeding, and `taking` what the stream of a file does. `localtime` is what `strftime` makes
of a time, and nothing where `localtime_r` fails, which leaves a `struct tm` that was never filled
in. A `struct vfs_dirent_t` on the stack holds `garbage` before it is filled in. -/
structure Console where
  contents : File → Stream (Option Char)
  stdout : List Taking
  taking : Taking
  localtime : Timespec → Option CStr
  garbage : VfsDirent

/-! ## Printing entries -/

def decimal (n : Nat) : CStr := (Nat.repr n).toList

/-- `%<width>d`. -/
def padLeft (width : Nat) (text : CStr) : CStr :=
  List.replicate (width - text.length) ' ' ++ text

def vfsPrintDirentColor (vfsDirent : VfsDirent) (start : Bool) : CStr :=
  let color := if !vfsDirent.isFile then 4
    else if vfsDirent.permissions &&& 0o111 != 0 then 2 else 0
  if color ≠ 0 then
    if start then "\x1b[01;3".toList ++ decimal color ++ ['m'] else "\x1b[0m".toList
  else []

/-- The three letters of one round of the loop over the permission bits. -/
def permissionText (permissions : BitVec 16) (bit : Nat) : CStr :=
  [if permissions.getLsbD (bit - 1) then 'r' else '-',
    if permissions.getLsbD (bit - 2) then 'w' else '-',
    if permissions.getLsbD (bit - 3) then 'x' else '-']

def vfsPrintDirent (console : Console) (vfsDirent : VfsDirent) : Option CStr := do
  let timeFormat ← console.localtime vfsDirent.mtime
  return (if vfsDirent.isFile then ['-'] else ['d']) ++
    [9, 6, 3].flatMap (permissionText vfsDirent.permissions) ++
    "   ".toList ++ padLeft 4 (decimal vfsDirent.uid.toNat) ++
    " ".toList ++ padLeft 4 (decimal vfsDirent.gid.toNat) ++
    "   ".toList ++ padLeft 8 (decimal vfsDirent.filesize.toNat) ++
    "  ".toList ++ timeFormat ++
    "  ".toList ++ vfsPrintDirentColor vfsDirent true ++ vfsDirent.filename ++
    vfsPrintDirentColor vfsDirent false ++ "\n".toList

/-! ## Handlers -/

/-- What a handler returns, with the file system as it leaves it and what it puts out. -/
abbrev VfsShellResult := Bool × Vfs × List ShellOutput

/-- A pointer to one of the handlers. -/
inductive VfsShellCallback where
  | ls | find | cd | stat | cat | mod | put | rm | mkdir | rmdir | help
  deriving DecidableEq

structure VfsShellCommand where
  command : CStr
  minArgumentCount : Nat
  maxArgumentCount : Nat
  argText : Option CStr
  helpText : Option CStr
  handler : VfsShellCallback

def vfsShellCommands : List VfsShellCommand := [
  ⟨"ls".toList, 0, 1, some "([path])".toList, some "list a given path (or cwd)".toList, .ls⟩,
  ⟨"find".toList, 0, 1, some "([path])".toList, some "recursively traverse paths".toList, .find⟩,
  ⟨"cd".toList, 1, 1, some "[path]".toList, some "change directory to given path".toList, .cd⟩,
  ⟨"stat".toList, 1, 1, some "[path/file]".toList, some "stat the given path".toList, .stat⟩,
  ⟨"cat".toList, 1, 1, some "[file]".toList, some "show contents of the given file".toList, .cat⟩,
  ⟨"mod".toList, 1, 1, some "[file]".toList, some "modify the given file".toList, .mod⟩,
  ⟨"put".toList, 1, 1, some "[file]".toList, some "create a given file".toList, .put⟩,
  ⟨"rm".toList, 1, 1, some "[file]".toList, some "unlink the given file".toList, .rm⟩,
  ⟨"mkdir".toList, 1, 1, some "[path]".toList, some "create a directory".toList, .mkdir⟩,
  ⟨"rmdir".toList, 1, 1, some "[path]".toList, some "remove a directory".toList, .rmdir⟩,
  ⟨"help".toList, 0, 0, none, some "show this help page".toList, .help⟩,
  ⟨"?".toList, 0, 0, none, none, .help⟩]

section Handlers

variable (libc : LibC) (console : Console)

/-- The calls of `vfs_readdir` in `vfs_shell_ls`. Each gives an entry or is the last one. -/
def vfsShellLsLoop (path : CStr) (vfs : Vfs) (handle : VfsHandle) (vfsDirent : VfsDirent) :
    Option (VfsShellResult × VfsHandle) :=
  match _h : vfsReaddir libc vfs handle vfsDirent with
  | none => none
  | some (result, vfs', handle', vfsDirent') =>
    if _hok : result ≠ .ok then
      some ((false, vfs', [.stderr ("vfs_readdir ".toList ++ path ++ ": ".toList ++
        vfsErrorStr result ++ "\n".toList)]), handle')
    else if _heof : vfsDirent'.eof then some ((true, vfs', []), handle')
    else
      match vfsPrintDirent console vfsDirent' with
      | none => none
      | some line =>
        (vfsShellLsLoop path vfs' handle' vfsDirent').map fun r =>
          ((r.1.1, r.1.2.1, .stdout line :: r.1.2.2), r.2)
termination_by (vfs.listing handle).size
decreasing_by exact vfsReaddir_size_lt libc _h (not_not.mp _hok) _heof

def vfsShellLs (vfs : Vfs) (argumentCount : Nat) (arguments : List CStr) :
    Exec VfsShellResult := do
  let path ← if argumentCount = 0 then pure ['.'] else Exec.checked arguments[0]?
  match ← vfsOpendir vfs (some path) with
  | (vfs, .ok, handle) =>
    let handle ← Exec.checked handle
    let (result, handle) ←
      Exec.checked (vfsShellLsLoop libc console path vfs handle console.garbage)
    vfsCloseHandle handle
    return result
  | (vfs, result, _) =>
    return (false, vfs, [.stderr ("diropen ".toList ++ path ++ ": ".toList ++
      vfsErrorStr result ++ "\n".toList)])

/-- The line that `vfs_shell_cd` and its likes print for an error. -/
def errorLine (result : VfsError) : ShellOutput :=
  .stdout ("Error: ".toList ++ vfsErrorStr result ++ "\n".toList)

def vfsShellCd (vfs : Vfs) (arguments : List CStr) : Exec VfsShellResult := do
  let path ← Exec.checked arguments[0]?
  let (vfs, result) ← vfsChdir vfs (some path)
  return (result == .ok, vfs, if result ≠ .ok then [errorLine result] else [])

def vfsShellStat (vfs : Vfs) (arguments : List CStr) : Exec VfsShellResult := do
  let path ← Exec.checked arguments[0]?
  let (vfs, result, dirent) ← vfsStat vfs (some path) console.garbage
  if result ≠ .ok then
    return (result == .ok, vfs, [errorLine result])
  else
    let line ← Exec.checked (vfsPrintDirent console dirent)
    return (result == .ok, vfs, [.stdout line])

/-- `sizeof(buffer)` in `vfs_shell_cat`. -/
def catBufferSize : Nat := 1024

/-- The loop of `vfs_shell_cat`. The calls of `fwrite` on `stdout` go as `taking` says. -/
def vfsShellCatLoop (handle : VfsHandle) (stream : Stream (Option Char)) (taking : List Taking) :
    Option (VfsError × List ShellOutput) :=
  match _h : vfsRead handle stream catBufferSize with
  | none => none
  -- `*length` is left, and what is in the buffer is undefined
  | some (_, none, _) => none
  | some (result, some cells, stream') =>
    if _hcells : cells = [] then some (result, [])
    else
      let written := fwrite (taking.headD .all) cells
      if written.1.length ≠ cells.length then
        some (result, [.data written.1, .stderr "Short write to stdout.\n".toList])
      else if result ≠ .ok then some (result, [.data written.1])
      else
        (vfsShellCatLoop handle stream' taking.tail).map fun r =>
          (r.1, .data written.1 :: r.2)
termination_by stream.length
decreasing_by exact vfsRead_length_lt _h _hcells

def vfsShellCat (vfs : Vfs) (arguments : List CStr) : Exec VfsShellResult := do
  let path ← Exec.checked arguments[0]?
  match ← vfsOpen vfs (some path) .read with
  | (vfs, .ok, handle) =>
    let handle ← Exec.checked handle
    let file ← Exec.checked handle.file
    let (result, output) ←
      Exec.checked (vfsShellCatLoop handle (console.contents file) console.stdout)
    vfsCloseHandle handle
    return (result == .ok, vfs, output)
  | (vfs, result, _) => return (false, vfs, [errorLine result])

def putString : CStr := "This is now in a file.\n".toList

def vfsShellPut (vfs : Vfs) (arguments : List CStr) : Exec VfsShellResult := do
  let path ← Exec.checked arguments[0]?
  match ← vfsOpen vfs (some path) .write with
  | (vfs, .ok, handle) =>
    let handle ← Exec.checked handle
    let file ← Exec.checked handle.file
    let (result, written) ← Exec.checked (vfsWrite handle console.taking putString)
    vfsCloseHandle handle
    return (result == .ok, vfs, [.file file (written.getD [])])
  | (vfs, result, _) => return (false, vfs, [errorLine result])

/-- `snprintf(lhs, sizeof(lhs), …)` and `%-20s`. -/
def helpLine (cmd : VfsShellCommand) (helpText : CStr) : CStr :=
  let lhs := (cmd.command ++ [' '] ++ cmd.argText.getD []).take 63
  "  ".toList ++ lhs ++ List.replicate (20 - lhs.length) ' ' ++ [' '] ++ helpText ++ ['\n']

def vfsShellHelp (vfs : Vfs) : VfsShellResult :=
  (true, vfs, .stderr "help:\n".toList ::
    vfsShellCommands.filterMap fun cmd => cmd.helpText.map fun text => .stderr (helpLine cmd text))

/-- Call a handler. Those that are not implemented return `true`. -/
def VfsShellCallback.call (handler : VfsShellCallback) (vfs : Vfs) (argumentCount : Nat)
    (arguments : List CStr) : Exec VfsShellResult :=
  match handler with
  | .ls => vfsShellLs libc console vfs argumentCount arguments
  | .cd => vfsShellCd vfs arguments
  | .stat => vfsShellStat console vfs arguments
  | .cat => vfsShellCat console vfs arguments
  | .put => vfsShellPut console vfs arguments
  | .help => return vfsShellHelp vfs
  | .find | .mod | .rm | .mkdir | .rmdir => return (true, vfs, [])

end Handlers

/-! ## The loop -/

def tooManyTokens : ShellOutput := .stderr "Too many tokens. Not executing command.\n".toList

/-- The loop over the tokens of a line, of which eight are stored. -/
def storeTokens (tokens : List CStr) : List CStr → List CStr × List ShellOutput
  | [] => (tokens, [])
  | token :: rest =>
    if tokens.length < 8 then storeTokens (tokens ++ [token]) rest
    else ((storeTokens tokens rest).1, tooManyTokens :: (storeTokens tokens rest).2)

def noSuchCommand (token : CStr) : ShellOutput :=
  .stderr ("No such command: \"".toList ++ token ++ "\". Type \"help\" for a help page.\n".toList)

def invalidAmount (token : CStr) (cmd : VfsShellCommand) : ShellOutput :=
  .stderr ("Invalid amount of argument for: \"".toList ++ token ++ "\". Expected ".toList ++
    decimal cmd.minArgumentCount ++ " to ".toList ++ decimal cmd.maxArgumentCount ++
    ". Type \"help\" for a help page.\n".toList)

def prompt (vfs : Vfs) : ShellOutput :=
  .stdout ("vfs [".toList ++ (if vfs.cwd.path = [] then ['/'] else vfs.cwd.path) ++
    "]: ".toList)

section Loop

variable (libc : LibC) (console : Console)

/-- The rest of a round of `vfs_shell`, for the line that was read. -/
def vfsShellLine (vfs : Vfs) (line : CStr) : Exec (Vfs × List ShellOutput) := do
  let (tokens, warnings) := storeTokens [] (strtokAll [' '] line)
  match tokens with
  | [] => return (vfs, warnings)
  | token :: arguments =>
    let argumentCount := tokens.length - 1
    match vfsShellCommands.find? fun cmd => strcmp cmd.command token == .eq with
    | none => return (vfs, warnings ++ [noSuchCommand token])
    | some cmd =>
      if argumentCount ≥ cmd.minArgumentCount ∧ argumentCount ≤ cmd.maxArgumentCount then
        let (_, vfs, output) ← cmd.handler.call libc console vfs argumentCount arguments
        return (vfs, warnings ++ output)
      else return (vfs, warnings ++ [invalidAmount token cmd])

/-- `sizeof(line) - 1` in `vfs_shell`. -/
def lineSize : Nat := 255

/-- The line in the cells that `fgets` stored. -/
def lineOf (cells : Buffer) : CStr := stripCrlf (cstr (cells ++ [none]))

/-- A round of `vfs_shell`, unless it returns. -/
def vfsShellRound (vfs : Vfs) (cells : Buffer) : Exec (Vfs × List ShellOutput) := do
  let (vfs', output) ← vfsShellLine libc console vfs (lineOf cells)
  return (vfs', prompt vfs :: output)

end Loop

/-! ## Sessions -/

/-- The file system and what is still to be read from `stdin`. -/
structure Shell where
  vfs : Vfs
  stdin : Stream (Option Char)
  returned : Bool

/-- A round: what the system answers, how it starts, what is read, what it does and how it ends. -/
structure ShellRound where
  os : Os
  mallocs : List Bool
  console : Console
  before : Vfs
  cells : Option Buffer
  calls : List SysCall
  output : List ShellOutput
  after : Vfs

/-- One round, whatever the system answers and whichever allocations fail; the last one only finds
that there is nothing to read. -/
inductive ShellStep (libc : LibC) : Shell → List ShellRound → Shell → Prop
  | round {vfs vfs' : Vfs} {stdin stdin' : Stream (Option Char)} {cells : Buffer} (os : Os)
      (mallocs : List Bool) (console : Console) {output : List ShellOutput} {w' : World}
      (hread : fgets lineSize stdin = (some cells, stdin'))
      (hrun : vfsShellRound libc console vfs cells os ⟨mallocs, []⟩ = some ((vfs', output), w')) :
      ShellStep libc ⟨vfs, stdin, false⟩
        [⟨os, mallocs, console, vfs, some cells, w'.calls, output, vfs'⟩] ⟨vfs', stdin', false⟩
  | eof {vfs : Vfs} {stdin stdin' : Stream (Option Char)} (os : Os) (mallocs : List Bool)
      (console : Console) (hread : fgets lineSize stdin = (none, stdin')) :
      ShellStep libc ⟨vfs, stdin, false⟩
        [⟨os, mallocs, console, vfs, none, [], [prompt vfs], vfs⟩] ⟨vfs, stdin', true⟩

/-- A run of the loop of `vfs_shell`. -/
abbrev ShellRun (libc : LibC) : Shell → List ShellRound → Shell → Prop :=
  Systems.Run (ShellStep libc)

/-! ## The program -/

/-- The inodes that `main` adds. -/
def vfsShellInodes : List Declaration := [
  ⟨"/".toList, some "/tmp".toList, vfsInodeFlagReadOnly, 0⟩,
  ⟨"/virt".toList, none, vfsInodeFlagReadOnly, 0⟩,
  ⟨"/virt/sub1".toList, none, vfsInodeFlagReadOnly, 0⟩,
  ⟨"/virt/sub2".toList, none, vfsInodeFlagReadOnly, 0⟩,
  ⟨"/virt/abcd".toList, none, vfsInodeFlagReadOnly, 0⟩,
  ⟨"/b".toList, some "/bin".toList, vfsInodeFlagReadOnly, 0⟩,
  ⟨"/incoming".toList, some "/tmp/incoming".toList, 0, vfsInodeFlagReadOnly⟩]

/-- `main` before it calls `vfs_shell`. -/
def vfsShellSetup (libc : LibC) : Exec Vfs := do
  let vfs ← Exec.checked (← vfsInit)
  let (_, vfs) ← addAll vfsShellInodes vfs
  return vfsFreezeInodes libc vfs

end Umsftpd
