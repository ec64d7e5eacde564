import Umsftpd.CLib.Arena
import Umsftpd.StringList
import Umsftpd.Strings

/-!
# The data of the virtual file system (`vfs.h`)

Inodes live in an arena and point at each other by reference, as the structs of the source do; the
table `vfs->inode.data` is a list of references. What every inode satisfies from its creation on
(paths are stored without trailing slashes, `vlen` and `tlen` are their lengths) is part of its
type.
-/

namespace Umsftpd

open CLib

/-! ## Flags -/

/-- An `unsigned int` of flag bits. -/
abbrev Flags := BitVec 32

def vfsInodeFlagReadOnly : Flags := 1 <<< 0
def vfsInodeFlagFilterAll : Flags := 1 <<< 1
def vfsInodeFlagFilterHidden : Flags := 1 <<< 2
def vfsInodeFlagDisallowCreateFile : Flags := 1 <<< 3
def vfsInodeFlagDisallowCreateDir : Flags := 1 <<< 4
def vfsInodeFlagDisallowUnlink : Flags := 1 <<< 5
def vfsInodeFlagAllowSymlinks : Flags := 1 <<< 6

/-- `flags & flag`, as a condition. -/
def hasFlag (flags flag : Flags) : Bool := flags &&& flag != 0

/-! ## Inodes -/

/-- A `struct vfs_inode_t *`. -/
abbrev InodeRef := Nat

structure VfsInode where
  parent : Option InodeRef
  flagsSet : Flags
  flagsReset : Flags
  virtualPath : CStr
  targetPath : Option CStr
  vlen : Nat
  tlen : Nat
  /-- `NULL` when `stringlist_new` had no memory; nobody checks. -/
  virtualSubdirs : Option StringList
  virtualPath_truncated : Truncated virtualPath
  targetPath_truncated : ∀ t ∈ targetPath, Truncated t
  vlen_eq : vlen = virtualPath.length
  tlen_eq : ∀ t ∈ targetPath, tlen = t.length

instance : Inhabited VfsInode :=
  ⟨{  parent := none, flagsSet := 0, flagsReset := 0, virtualPath := [], targetPath := none
      vlen := 0, tlen := 0, virtualSubdirs := none
      virtualPath_truncated := by decide, targetPath_truncated := by simp
      vlen_eq := rfl, tlen_eq := by simp }⟩

structure VfsLookupResult where
  flags : Flags
  inode : Option InodeRef
  mountpoint : Option InodeRef
  deriving DecidableEq, Repr

/-! ## Handles and entries -/

inductive VfsHandleType where
  | fileHandle | dirHandle
  deriving DecidableEq, Repr

inductive VfsFilemode where
  | read | write | append
  deriving DecidableEq, Repr

/-- `struct vfs_handle_t`. The members of the union stand next to each other; `type` says which of
them is meant. -/
structure VfsHandle where
  type : VfsHandleType := .fileHandle
  virtualPath : CStr := []
  mappedPath : Option CStr := none
  inode : Option InodeRef := none
  flags : Flags := 0
  dir : Option Dir := none
  internalNodeIndex : Nat := 0
  file : Option File := none

def vfsMaxErrorLength : Nat := 128
def vfsMaxFilenameLength : Nat := 256

structure VfsDirent where
  filename : CStr := []
  eof : Bool := false
  isFile : Bool := false
  uid : BitVec 16 := 0
  gid : BitVec 16 := 0
  filesize : BitVec 64 := 0
  permissions : BitVec 16 := 0
  mtime : Timespec := ⟨0, 0⟩
  ctime : Timespec := ⟨0, 0⟩
  atime : Timespec := ⟨0, 0⟩
  deriving DecidableEq

/-! ## Errors -/

inductive VfsInternalError where
  | addInodeParameterError | addInodeAlreadyExists | addInodeOutOfMemory | mapEmptyPath
  | cwdOutOfMemory | inodeFinalizationError | cwdIllegal | lookupNonAbsolute | illegalPath
  | sanitizePathError | inodeLookupError | pathMapError | missingArgument | notMounted
  | pathNotAbsolute | outOfMemory | opendirFailed
  deriving DecidableEq, Repr

inductive VfsError where
  | ok | outOfHandles | permissionDenied | noSuchFileOrDirectory | notADirectory | notAFile
  | internalError | ioError
  deriving DecidableEq, Repr

def vfsErrorStr : VfsError → CStr
  | .ok => "success".toList
  | .outOfHandles => "out of handles".toList
  | .permissionDenied => "permission denied".toList
  | .noSuchFileOrDirectory => "no such file or directory".toList
  | .internalError => "internal error".toList
  | .notADirectory => "not a directory".toList
  | .notAFile => "not a file".toList
  | .ioError => "I/O error".toList

/-! ## The file system -/

/-- `vfs->error`: the last error and its text. -/
structure VfsErrorRecord where
  string : CStr := []
  code : VfsInternalError := .addInodeParameterError
  deriving DecidableEq

structure VfsHandleCount where
  currentCount : Nat := 0
  maxCount : Nat := 0
  deriving DecidableEq

/-- `vfs->inode`; `count` is the length of `data`. -/
structure VfsInodeTable where
  baseFlags : Flags := 0
  data : List InodeRef := []
  frozen : Bool := false
  deriving DecidableEq

structure VfsCwd where
  allocedSize : Nat := 0
  length : Nat := 0
  path : CStr := []
  deriving DecidableEq

/-- `struct vfs_t`, with the inodes that its table and its handles point to. -/
structure Vfs where
  error : VfsErrorRecord := {}
  handles : VfsHandleCount := {}
  inode : VfsInodeTable := {}
  cwd : VfsCwd := {}
  heap : Arena VfsInode := Arena.empty

namespace Vfs

/-- The inode behind a reference. -/
def deref (vfs : Vfs) (r : InodeRef) : VfsInode := vfs.heap.cell r

end Vfs

/-- `vfs_set_error`. The text is cut to what `vsnprintf` stores. -/
def vfsSetError (vfs : Vfs) (errorCode : VfsInternalError) (msg : CStr) : Vfs :=
  { vfs with error := ⟨msg.take (vfsMaxErrorLength - 2), errorCode⟩ }

section
variable (vfs : Vfs) (code : VfsInternalError) (msg : CStr)

@[simp] theorem vfsSetError_handles : (vfsSetError vfs code msg).handles = vfs.handles := rfl
@[simp] theorem vfsSetError_inode : (vfsSetError vfs code msg).inode = vfs.inode := rfl
@[simp] theorem vfsSetError_cwd : (vfsSetError vfs code msg).cwd = vfs.cwd := rfl
@[simp] theorem vfsSetError_heap : (vfsSetError vfs code msg).heap = vfs.heap := rfl

end

end Umsftpd
