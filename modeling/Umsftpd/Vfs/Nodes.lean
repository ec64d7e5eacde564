import Umsftpd.Vfs.Inodes

/-!
# Opening nodes (`vfs.c`)

Everything that takes a path from a user goes through `vfsOpenNode`, which sanitises it, looks it
up, applies the policy of the flags found and maps it to a real path. `vfsChdir`, `vfsOpendir` and
`vfsOpen` go on from the handle it gives.
-/

namespace Umsftpd

open CLib

def vfsMapPath (vfs : Vfs) (lookup : Option VfsLookupResult) (virtualPath : Option CStr) :
    Exec (Vfs × Option CStr) := do
  match lookup, virtualPath with
  | none, _ =>
    return (vfsSetError vfs .missingArgument
      "vfs_map_path() recevied NULL lookup".toList, none)
  | some _, none =>
    return (vfsSetError vfs .missingArgument
      "vfs_map_path() recevied NULL virtual_path".toList, none)
  | some lookup, some virtualPath =>
    if !isAbsolutePath virtualPath then
      return (vfsSetError vfs .pathNotAbsolute
        "vfs_map_path() recevied non-absolute virtual_path".toList, none)
    match lookup.mountpoint.map vfs.deref with
    | none =>
      return (vfsSetError vfs .notMounted "vfs_map_path() has non-mounted lookup".toList, none)
    | some mountpoint =>
      let virtualPathLength := virtualPath.length
      if virtualPathLength < mountpoint.vlen then
        return (vfsSetError vfs .illegalPath
          ("vfs_map_path() has received shorter virtual path (".toList ++ virtualPath ++
            ") than mountpoint (".toList ++ mountpoint.virtualPath ++
            "); something is wrong.".toList), none)
      if virtualPathLength > mountpoint.vlen then
        let virtualPathSuffix := virtualPath.drop (mountpoint.vlen + 1)
        let suffixLength := virtualPathLength - mountpoint.vlen - 1
        if !(← Exec.malloc) then
          return (vfsSetError vfs .outOfMemory
            "vfs_map_path() could not allocate memory for mapped path".toList, none)
        let targetPath ← Exec.checked mountpoint.targetPath
        return (vfs, some (targetPath.take mountpoint.tlen ++ ['/'] ++
          virtualPathSuffix.take suffixLength))
      else
        if !(← Exec.malloc) then
          return (vfsSetError vfs .outOfMemory
            "vfs_map_path() could not allocate memory for mapped path".toList, none)
        let targetPath ← Exec.checked mountpoint.targetPath
        return (vfs, some targetPath)

/-- `vfs_close_handle`. -/
def vfsCloseHandle (handle : VfsHandle) : Exec Unit := do
  match handle.type with
  | .dirHandle => if handle.dir.isSome then Exec.release .closedir
  | .fileHandle => if handle.file.isSome then Exec.release .fclose
  Exec.release .free

/-! ## `vfs_open_node` -/

/-- The `return` statements of `vfs_open_node`, in the order of the source. -/
inductive OpenNodeExit where
  | nullPath
  | outOfHandles
  | noHandleMemory
  | notSanitized
  | lookupFailed
  | filterAll
  | filterHidden
  | notMounted
  | notMapped
  | symlinkUnchecked
  | symlinkFound
  | opened (handle : VfsHandle)

namespace OpenNodeExit

/-- The value returned there. -/
def code : OpenNodeExit → VfsError
  | nullPath => .internalError
  | outOfHandles => .outOfHandles
  | noHandleMemory => .internalError
  | notSanitized => .internalError
  | lookupFailed => .internalError
  | filterAll => .noSuchFileOrDirectory
  | filterHidden => .permissionDenied
  | notMounted => .noSuchFileOrDirectory
  | notMapped => .internalError
  | symlinkUnchecked => .internalError
  | symlinkFound => .noSuchFileOrDirectory
  | opened _ => .ok

/-- The handle left in `*handle_ptr`. -/
def handle : OpenNodeExit → Option VfsHandle
  | opened handle => some handle
  | _ => none

/-- The exits taken because of `FILTER_ALL`, `FILTER_HIDDEN` or the symlink check. -/
def refusedByPolicy : OpenNodeExit → Bool
  | filterAll | filterHidden | symlinkUnchecked | symlinkFound => true
  | _ => false

end OpenNodeExit

def vfsOpenNode (vfs : Vfs) (path : Option CStr) : Exec (Vfs × OpenNodeExit) := do
  match path with
  | none =>
    return (vfsSetError vfs .illegalPath "vfs_opendir() recevied NULL path".toList, .nullPath)
  | some path =>
    if vfs.handles.currentCount ≥ vfs.handles.maxCount then
      return (vfs, .outOfHandles)
    -- calloc(1, sizeof(struct vfs_handle_t))
    if !(← Exec.malloc) then
      return (vfsSetError vfs .outOfMemory
        "vfs_opendir() could not allocate handle memory".toList, .noHandleMemory)
    let handle : VfsHandle := {}
    match ← sanitizePath vfs.cwd.path path with
    | none =>
      vfsCloseHandle handle
      return (vfsSetError vfs .sanitizePathError
        "vfs_opendir() could not sanitize path successfully".toList, .notSanitized)
    | some virtualPath =>
      let handle := { handle with virtualPath := virtualPath }
      match vfsLookup vfs virtualPath with
      | (vfs, none) =>
        vfsCloseHandle handle
        return (vfsSetError vfs .inodeLookupError
          "vfs_opendir() could not lookup path successfully".toList, .lookupFailed)
      | (vfs, some lookup) =>
        let handle := { handle with inode := lookup.inode, flags := lookup.flags }
        if hasFlag lookup.flags vfsInodeFlagFilterAll then
          vfsCloseHandle handle
          return (vfs, .filterAll)
        if hasFlag lookup.flags vfsInodeFlagFilterHidden && pathContainsHidden virtualPath then
          vfsCloseHandle handle
          return (vfs, .filterHidden)
        if handle.inode.isNone && lookup.mountpoint.isNone then
          vfsCloseHandle handle
          return (vfs, .notMounted)
        if lookup.mountpoint.isNone then
          return (vfs, .opened handle)
        match ← vfsMapPath vfs (some lookup) (some virtualPath) with
        | (vfs, none) =>
          vfsCloseHandle handle
          return (vfsSetError vfs .pathMapError
            "vfs_opendir() could not map path successfully".toList, .notMapped)
        | (vfs, some mappedPath) =>
          let handle := { handle with mappedPath := some mappedPath }
          if hasFlag lookup.flags vfsInodeFlagAllowSymlinks then
            return (vfs, .opened handle)
          let symlink ← pathContainsSymlink mappedPath
          if symlink.criticalError then
            vfsCloseHandle handle
            return (vfs, .symlinkUnchecked)
          if symlink.containsSymlink then
            vfsCloseHandle handle
            return (vfs, .symlinkFound)
          return (vfs, .opened handle)

/-! ## What callers do with a node -/

def vfsErrnoToVfsError (errnum : Errno) : VfsError :=
  if errnum = Errno.EACCES then .permissionDenied
  else if errnum = Errno.ENOENT then .noSuchFileOrDirectory
  else .internalError

def vfsChdir (vfs : Vfs) (path : Option CStr) : Exec (Vfs × VfsError) := do
  match ← vfsOpenNode vfs path with
  | (vfs, .opened handle) =>
    if handle.inode.isSome then
      let (success, vfs) ← vfsSetCwd vfs handle.virtualPath
      vfsCloseHandle handle
      return (vfs, if success then .ok else .internalError)
    else
      match ← Exec.stat handle.mappedPath with
      | .error errno =>
        vfsCloseHandle handle
        return (vfs, vfsErrnoToVfsError errno)
      | .ok statbuf =>
        if !statbuf.isDir then
          vfsCloseHandle handle
          return (vfs, .notADirectory)
        let (success, vfs) ← vfsSetCwd vfs handle.virtualPath
        vfsCloseHandle handle
        return (vfs, if success then .ok else .internalError)
  | (vfs, exit) => return (vfs, exit.code)

/-- `vfs_opendir`, with what it leaves in `*handle_ptr`. -/
def vfsOpendir (vfs : Vfs) (path : Option CStr) : Exec (Vfs × VfsError × Option VfsHandle) := do
  match ← vfsOpenNode vfs path with
  | (vfs, .opened handle) =>
    let handle := { handle with type := .dirHandle }
    let dir := (← Exec.opendir handle.mappedPath).toOption
    -- a failure is logged and nothing else
    return (vfs, .ok, some { handle with dir := dir })
  | (vfs, exit) => return (vfs, exit.code, exit.handle)

def modeStringMapping : VfsFilemode → CStr
  | .read => ['r']
  | .write => ['w']
  | .append => ['a']

/-- `vfs_open`, with what it leaves in `*handle_ptr`: the error exits close the handle and let the
pointer stand. -/
def vfsOpen (vfs : Vfs) (path : Option CStr) (mode : VfsFilemode) :
    Exec (Vfs × VfsError × Option VfsHandle) := do
  match ← vfsOpenNode vfs path with
  | (vfs, .opened handle) =>
    let handle := { handle with type := .fileHandle }
    let refusal := match ← Exec.stat handle.mappedPath with
      | .error errno =>
        if errno ≠ Errno.ENOENT ∨ (mode = VfsFilemode.read ∧ errno ≠ Errno.ENOENT) then
          some (vfsErrnoToVfsError errno)
        else none
      | .ok statbuf => if !statbuf.isReg then some .notAFile else none
    match refusal with
    | some errorCode =>
      vfsCloseHandle handle
      return (vfs, errorCode, some handle)
    | none =>
      if hasFlag handle.flags vfsInodeFlagReadOnly && mode != VfsFilemode.read then
        vfsCloseHandle handle
        return (vfs, .permissionDenied, some handle)
      match ← Exec.fopen handle.mappedPath (modeStringMapping mode) with
      | .error errno =>
        vfsCloseHandle handle
        return (vfs, vfsErrnoToVfsError errno, some handle)
      | .ok _ =>
        return (vfs, .ok,
          some { handle with file := some ⟨handle.mappedPath, modeStringMapping mode⟩ })
  | (vfs, exit) => return (vfs, exit.code, exit.handle)

end Umsftpd
