import Umsftpd.Strings.Split
import Umsftpd.Vfs.Basic

/-!
# The inode table (`vfs.c`)

Finding, adding and looking up inodes, and the functions that set a file system up. `vfs_add_inode`
walks the leading parts of the path with `path_split` and creates what is missing on the way;
`vfs_lookup` walks them again and gathers what the inodes say.
-/

namespace Umsftpd

open CLib

def vfsFindInode (vfs : Vfs) (virtualPath : CStr) : Option InodeRef :=
  vfs.inode.data.find? fun r => pathcmp (vfs.deref r).virtualPath virtualPath

/-! ## Adding inodes -/

/-- The text of `strerror(ENOMEM)`. -/
def strerrorEnomem : CStr := "Cannot allocate memory".toList

/-- Replace the string list of the inode behind `r`. -/
def Vfs.setSubdirs (vfs : Vfs) (r : InodeRef) (subdirs : Option StringList) : Vfs :=
  { vfs with heap := vfs.heap.modify r fun inode => { inode with virtualSubdirs := subdirs } }

/-- The `struct vfs_inode_t` that is filled in for copies of the arguments. -/
def newInode (virtualPath : CStr) (targetPath : Option CStr) (flagsSet flagsReset : Flags)
    (parent : Option InodeRef) (virtualSubdirs : Option StringList) : VfsInode where
  parent := parent
  flagsSet := flagsSet
  flagsReset := flagsReset
  virtualPath := truncateTrailingSlash virtualPath
  targetPath := targetPath.map truncateTrailingSlash
  vlen := (truncateTrailingSlash virtualPath).length
  tlen := ((targetPath.map truncateTrailingSlash).map List.length).getD 0
  virtualSubdirs := virtualSubdirs
  virtualPath_truncated := truncateTrailingSlash_truncated virtualPath
  targetPath_truncated := by
    intro t ht
    obtain ⟨t', -, rfl⟩ := Option.map_eq_some_iff.mp (Option.mem_def.mp ht)
    exact truncateTrailingSlash_truncated t'
  vlen_eq := rfl
  tlen_eq := by
    intro t ht
    rw [Option.mem_def.mp ht]
    rfl

/-- Put a new inode at the end of `vfs->inode.data`. -/
def Vfs.link (vfs : Vfs) (inode : VfsInode) : Vfs × InodeRef :=
  let (r, heap) := vfs.heap.alloc inode
  ({ vfs with heap := heap, inode := { vfs.inode with data := vfs.inode.data ++ [r] } }, r)

section
variable (vfs : Vfs) (r : InodeRef) (subdirs : Option StringList) (inode : VfsInode)

@[simp] theorem Vfs.deref_setSubdirs_self :
    (vfs.setSubdirs r subdirs).deref r = { vfs.deref r with virtualSubdirs := subdirs } :=
  Arena.modify_cell_self vfs.heap r fun inode => { inode with virtualSubdirs := subdirs }

theorem Vfs.deref_setSubdirs_of_ne {s : InodeRef} (h : s ≠ r) :
    (vfs.setSubdirs r subdirs).deref s = vfs.deref s :=
  Arena.modify_cell_of_ne (a := vfs.heap) (fun inode => { inode with virtualSubdirs := subdirs }) h

theorem Vfs.setSubdirs_setSubdirs (subdirs' : Option StringList) :
    (vfs.setSubdirs r subdirs).setSubdirs r subdirs' = vfs.setSubdirs r subdirs' := by
  unfold Vfs.setSubdirs
  rw [Arena.modify_modify]

theorem Vfs.deref_link_new : (vfs.link inode).1.deref vfs.heap.next = inode :=
  Arena.alloc_cell_next _ _

theorem Vfs.deref_link_of_lt {s : InodeRef} (h : s < vfs.heap.next) :
    (vfs.link inode).1.deref s = vfs.deref s :=
  Arena.alloc_cell_of_lt _ h

end

/-- Enter the name of a new inode in the list of its parent. -/
def vfsInsertSubdir (vfs : Vfs) (vpathCopy : CStr) : Option InodeRef → Exec Vfs
  | none => pure vfs
  | some parent => do
    let virtBasename ← Exec.checked (constBasename vpathCopy)
    let (_, subdirs) ← stringlistInsert (vfs.deref parent).virtualSubdirs virtBasename
    return vfs.setSubdirs parent subdirs

def vfsAddSingleInode (vfs : Vfs) (virtualPath : CStr) (targetPath : Option CStr)
    (flagsSet flagsReset : Flags) (parent : Option InodeRef) : Exec (Vfs × Option InodeRef) := do
  -- strdup(virtual_path)
  if !(← Exec.malloc) then
    return (vfsSetError vfs .addInodeOutOfMemory
      ("error dupping virtual path (".toList ++ strerrorEnomem ++ ")".toList), none)
  let vpathCopy := truncateTrailingSlash virtualPath
  -- target_path ? strdup(target_path) : NULL
  let tpathOk ← if targetPath.isSome then Exec.malloc else pure true
  if !tpathOk then
    return (vfsSetError vfs .addInodeOutOfMemory
      ("error dupping real path (".toList ++ strerrorEnomem ++ ")".toList), none)
  -- calloc(1, sizeof(struct vfs_inode_t))
  if !(← Exec.malloc) then
    return (vfsSetError vfs .addInodeOutOfMemory
      ("error creating inode (".toList ++ strerrorEnomem ++ ")".toList), none)
  let vfs ← vfsInsertSubdir vfs vpathCopy parent
  let virtualSubdirs ← stringlistNew
  let inode := newInode virtualPath targetPath flagsSet flagsReset parent virtualSubdirs
  -- realloc(vfs->inode.data, …)
  if !(← Exec.malloc) then
    return (vfsSetError vfs .addInodeOutOfMemory
      ("error reallocating inode memory (".toList ++ strerrorEnomem ++ ")".toList), none)
  let (vfs, r) := vfs.link inode
  return (vfs, some r)

structure VfsInodeAddingCtx where
  vfs : Vfs
  previous : Option InodeRef
  leafFlagsSet : Flags
  leafFlagsReset : Flags
  leafTargetPath : Option CStr

def vfsAddInodeSplitter : PathSplitCallback Exec VfsInodeAddingCtx :=
  fun path isFullPath ctx => do
    match vfsFindInode ctx.vfs path with
    | none =>
      let (vfs, previous) ←
        if !isFullPath then
          vfsAddSingleInode ctx.vfs path none 0 0 ctx.previous
        else
          vfsAddSingleInode ctx.vfs path ctx.leafTargetPath ctx.leafFlagsSet ctx.leafFlagsReset
            ctx.previous
      return (true, { ctx with vfs := vfs, previous := previous })
    | some inode => return (true, { ctx with previous := some inode })

def vfsAddInode (vfs : Vfs) (virtualPath : CStr) (targetPath : Option CStr)
    (flagsSet flagsReset : Flags) : Exec (Bool × Vfs) := do
  if !isAbsolutePath virtualPath then
    return (false, vfsSetError vfs .addInodeParameterError
      "virtual path must start with a '/' character".toList)
  if targetPath.any fun t => !isAbsolutePath t then
    return (false, vfsSetError vfs .addInodeParameterError
      "target path must start with a '/' character".toList)
  if (vfsFindInode vfs virtualPath).isSome then
    return (false, vfsSetError vfs .addInodeAlreadyExists
      ("virtual path inode for '".toList ++ virtualPath ++ "' is duplicate".toList))
  let ctx ← pathSplit virtualPath vfsAddInodeSplitter
    { vfs := vfs, previous := none, leafFlagsSet := flagsSet, leafFlagsReset := flagsReset
      leafTargetPath := targetPath }
  return (true, ctx.vfs)

/-! ## Looking up -/

structure VfsLookupTraversal where
  vfs : Vfs
  mapResult : VfsLookupResult

def vfsLookupSplitter : PathSplitCallback Id VfsLookupTraversal :=
  fun path isFullPath ctx =>
    match vfsFindInode ctx.vfs path with
    | none => (true, ctx)
    | some r =>
      let inode := ctx.vfs.deref r
      let result := ctx.mapResult
      let result := { result with
        flags := (result.flags ||| inode.flagsSet) &&& ~~~inode.flagsReset }
      let result := if isFullPath then { result with inode := some r } else result
      let result :=
        if inode.targetPath.isSome then { result with mountpoint := some r } else result
      (true, { ctx with mapResult := result })

/-- `vfs_lookup`; no result stands for the answer `false`. -/
def vfsLookup (vfs : Vfs) (path : CStr) : Vfs × Option VfsLookupResult :=
  if !vfs.inode.frozen then
    (vfsSetError vfs .inodeFinalizationError "inodes not frozen".toList, none)
  else if !isAbsolutePath path then
    (vfsSetError vfs .lookupNonAbsolute "can only look up absolute path in VFS".toList, none)
  else
    let absolutePath := isAbsolutePath path
    let mpath := if absolutePath then path else vfs.cwd.path ++ path
    let result : VfsLookupResult :=
      { flags := vfs.inode.baseFlags, inode := none, mountpoint := none }
    let ctx := Id.run (pathSplit mpath vfsLookupSplitter { vfs := vfs, mapResult := result })
    (vfs, some ctx.mapResult)

/-! ## Setting up -/

def vfsInodeComparator (vfs : Vfs) (elem1 elem2 : InodeRef) : Ordering :=
  strcmp (vfs.deref elem1).virtualPath (vfs.deref elem2).virtualPath

def vfsFreezeInodes (libc : LibC) (vfs : Vfs) : Vfs :=
  let vfs := if vfs.inode.frozen then
    vfsSetError vfs .inodeFinalizationError "inodes already frozen".toList else vfs
  let data := if vfs.inode.data.length ≠ 0 then
    libc.qsort (vfsInodeComparator vfs) vfs.inode.data else vfs.inode.data
  { vfs with inode := { vfs.inode with data := data, frozen := true } }

/-- `len` is an `int` in the source. What is handed over is `/` or comes from `sanitize_path`, and
an `int` holds its length. -/
def vfsSetCwd (vfs : Vfs) (newCwd : CStr) : Exec (Bool × Vfs) := do
  if !isAbsolutePath newCwd then
    return (false, vfsSetError vfs .cwdIllegal "working directory must be an absolute path".toList)
  let len := newCwd.length
  let fits := !(len + 1 > vfs.cwd.allocedSize)
  -- realloc(vfs->cwd.path, len + 1)
  let haveMemory ← if fits then pure true else Exec.malloc
  if !haveMemory then
    return (false, vfsSetError vfs .cwdOutOfMemory
      "out of memory when changing directory".toList)
  let cwd := if fits then vfs.cwd else { vfs.cwd with length := len, allocedSize := len + 1 }
  -- strcpy(vfs->cwd.path, new_cwd)
  let path ← Exec.checked (if len + 1 ≤ cwd.allocedSize then some newCwd else none)
  return (true, { vfs with cwd := { cwd with path := truncateTrailingSlash path } })

def vfsInit : Exec (Option Vfs) := do
  -- calloc(1, sizeof(*vfs))
  if !(← Exec.malloc) then
    return none
  let (ok, vfs) ← vfsSetCwd {} ['/']
  if !ok then
    return none
  return some { vfs with handles := { vfs.handles with maxCount := 10 } }

end Umsftpd
