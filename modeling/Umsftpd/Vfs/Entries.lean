import Umsftpd.Vfs.Nodes

/-!
# Directory entries (`vfs.c`)

`vfsStat` describes one node and `vfsReaddir` the nodes of a directory, the virtual ones first and
then what the mapped directory holds. A handle walks the names of its inode by position, in a list
that all handles on the inode share and that a search may sort.
-/

namespace Umsftpd

open CLib

/-- `strncpy` into `filename`, and the terminator put after it. -/
def filenameOf (name : CStr) : CStr := name.take (vfsMaxFilenameLength - 1)

def vfsStatVirtualDirectory (virtualDirname : CStr) (flags : Flags) : VfsDirent :=
  { permissions := if hasFlag flags vfsInodeFlagReadOnly then 0o555 else 0o755
    filename := filenameOf virtualDirname }

def vfsStatStatbuf (statbuf : Stat) (vfsDirent : VfsDirent) (flags : Flags) : VfsDirent :=
  let permissions := statbuf.stMode.setWidth 16 &&& 0o777
  { vfsDirent with
    eof := false
    isFile := statbuf.isReg
    uid := statbuf.stUid.setWidth 16
    gid := statbuf.stGid.setWidth 16
    filesize := statbuf.stSize
    permissions :=
      if hasFlag flags vfsInodeFlagReadOnly then permissions &&& ~~~0o222 else permissions
    mtime := statbuf.stMtim
    ctime := statbuf.stCtim
    atime := statbuf.stAtim }

def vfsStat (vfs : Vfs) (path : Option CStr) (vfsDirent : VfsDirent) :
    Exec (Vfs × VfsError × VfsDirent) := do
  match ← vfsOpenNode vfs path with
  | (vfs, .opened handle) =>
    if handle.inode.isSome then
      let basename ← Exec.checked (constBasename handle.virtualPath)
      vfsCloseHandle handle
      return (vfs, .ok, vfsStatVirtualDirectory basename handle.flags)
    match ← Exec.stat handle.mappedPath with
    | .error errno =>
      vfsCloseHandle handle
      return (vfs, vfsErrnoToVfsError errno, vfsDirent)
    | .ok statbuf =>
      let basename ← Exec.checked (constBasename handle.virtualPath)
      vfsCloseHandle handle
      return (vfs, .ok,
        vfsStatStatbuf statbuf { vfsDirent with filename := filenameOf basename } handle.flags)
  | (vfs, exit) => return (vfs, exit.code, vfsDirent)

/-! ## `vfs_readdir` -/

section Readdir

variable (libc : LibC)

/-- The entries that are looked at: not `.` or `..`, and of a type that is supported. -/
def direntSupported (dirent : Dirent) : Bool :=
  dirent.dName != ['.'] && dirent.dName != ['.', '.'] &&
    (dirent.dType == .reg || dirent.dType == .dir || dirent.dType == .lnk)

/-- Is the name one of the inode's virtual children? The search may sort their list. -/
def virtualSubdirsContain (vfs : Vfs) (inode : Option InodeRef) (name : CStr) :
    Option (Bool × Vfs) :=
  match inode with
  | none => some (false, vfs)
  | some r => do
    let subdirs ← (vfs.deref r).virtualSubdirs
    let (found, subdirs) := stringlistContains libc subdirs name
    return (found, vfs.setSubdirs r (some subdirs))

/-- The loop of `vfs_readdir` over the entries of the open directory. The result holds those that
are left. -/
def vfsReaddirLoop (handle : VfsHandle) (dir : Dir) :
    List (Except Errno Dirent) → Vfs → VfsDirent →
      Option (VfsError × Vfs × List (Except Errno Dirent) × VfsDirent)
  | [], vfs, vfsDirent => some (.ok, vfs, [], { vfsDirent with eof := true })
  | .error _ :: rest, vfs, vfsDirent => some (.internalError, vfs, rest, vfsDirent)
  | .ok dirent :: rest, vfs, vfsDirent =>
    if !direntSupported dirent then vfsReaddirLoop handle dir rest vfs vfsDirent
    else do
      let (found, vfs) ← virtualSubdirsContain libc vfs handle.inode dirent.dName
      if found then vfsReaddirLoop handle dir rest vfs vfsDirent
      else
        let vfsDirent := { vfsDirent with filename := filenameOf dirent.dName }
        match dir.fstatat vfsDirent.filename with
        | .error _ => vfsReaddirLoop handle dir rest vfs vfsDirent
        | .ok statbuf =>
          if !statbuf.isDir && !statbuf.isReg then vfsReaddirLoop handle dir rest vfs vfsDirent
          else some (.ok, vfs, rest, vfsStatStatbuf statbuf vfsDirent handle.flags)

/-- `vfs_readdir` after the virtual names. -/
def vfsReaddirReal (vfs : Vfs) (handle : VfsHandle) (vfsDirent : VfsDirent) :
    Option (VfsError × Vfs × VfsHandle × VfsDirent) :=
  match handle.dir with
  | none => some (.ok, vfs, handle, { vfsDirent with eof := true })
  | some dir => do
    let (code, vfs, rest, vfsDirent) ← vfsReaddirLoop libc handle dir dir.entries vfs vfsDirent
    return (code, vfs, { handle with dir := some { dir with entries := rest } }, vfsDirent)

/-- `vfs_readdir`; there is no result when the string list of the inode is missing. -/
def vfsReaddir (vfs : Vfs) (handle : VfsHandle) (vfsDirent : VfsDirent) :
    Option (VfsError × Vfs × VfsHandle × VfsDirent) :=
  if handle.type ≠ .dirHandle then some (.internalError, vfs, handle, vfsDirent)
  else if handle.inode.isNone && handle.dir.isNone then
    some (.internalError, vfs, handle, vfsDirent)
  else
    match handle.inode with
    | none => vfsReaddirReal libc vfs handle vfsDirent
    | some r => do
      let subdirs ← (vfs.deref r).virtualSubdirs
      match subdirs.strings[handle.internalNodeIndex]? with
      | some virtualDirname =>
        return (.ok, vfs, { handle with internalNodeIndex := handle.internalNodeIndex + 1 },
          vfsStatVirtualDirectory virtualDirname handle.flags)
      | none => vfsReaddirReal libc vfs handle vfsDirent

end Readdir

end Umsftpd
