import Umsftpd.CLib.Ints
import Umsftpd.CLib.Posix

/-!
# Path strings (`strings.c`)

The functions of `strings.c` that the rest of the program calls, as the code computes them. Those
that work in place (`pathSplitMutable`, the result of `sanitizeAbsolutePath`) do so on a buffer;
the loops count what is left to do, the index going up as it does in the source.
-/

namespace Umsftpd

open CLib

/-! ## Enumerating the leading parts of a path -/

section PathSplit

variable {m : Type → Type} [Monad m] {σ : Type}

/-- `path_split_callback_t`: whether to go on, with the context threaded instead of pointed to. -/
abbrev PathSplitCallback (m : Type → Type) (σ : Type) := CStr → Bool → σ → m (Bool × σ)

/-- One round of the loop of `path_split_mutable`: `do_continue`, the buffer and the context. -/
def pathSplitStep (callback : PathSplitCallback m σ) (len i : Nat) (path : Buffer) (vctx : σ) :
    m (Bool × Buffer × σ) := do
  let isFullPath := i == len - 1
  if path.getD i none = some '/' then
    if i = 0 then
      let saved := path.getD 1 none
      let path := path.set 1 none
      let (doContinue, vctx) ← callback (cstr path) isFullPath vctx
      return (doContinue, path.set 1 saved, vctx)
    else
      let path := path.set i none
      let (doContinue, vctx) ← callback (cstr path) isFullPath vctx
      return (doContinue, path.set i (some '/'), vctx)
  else if isFullPath then
    -- the callback's answer is not looked at here
    let (_, vctx) ← callback (cstr path) isFullPath vctx
    return (true, path, vctx)
  else
    return (true, path, vctx)

def pathSplitLoop (callback : PathSplitCallback m σ) (len : Nat) :
    Nat → Nat → Buffer → σ → m (Buffer × σ)
  | 0, _, path, vctx => pure (path, vctx)
  | rounds + 1, i, path, vctx => do
    let (doContinue, path, vctx) ← pathSplitStep callback len i path vctx
    if doContinue then pathSplitLoop callback len rounds (i + 1) path vctx
    else pure (path, vctx)

def pathSplitMutable (path : Buffer) (callback : PathSplitCallback m σ) (vctx : σ) :
    m (Buffer × σ) :=
  let len := (cstr path).length
  pathSplitLoop callback len len 0 path vctx

/-- `path_split` works on a copy; only the context is left of it. -/
def pathSplit (path : CStr) (callback : PathSplitCallback m σ) (vctx : σ) : m σ :=
  Prod.snd <$> pathSplitMutable (toBuffer path) callback vctx

end PathSplit

/-! ## Comparing and cutting -/

/-- The lengths are `int`s in the source, so this is `pathcmp` for paths of less than `2 ^ 31`
characters. -/
def pathcmp (path1 path2 : CStr) : Bool :=
  let len1 := path1.length
  let len2 := path2.length
  let len1 := if len1 ≠ 0 ∧ path1[len1 - 1]? = some '/' then len1 - 1 else len1
  let len2 := if len2 ≠ 0 ∧ path2[len2 - 1]? = some '/' then len2 - 1 else len2
  if len1 ≠ len2 then false else strncmpEq path1 path2 len1

/-- The length left when every slash at the end is cut. -/
def truncateTrailingSlashLoop (path : CStr) : Nat → Nat
  | 0 => 0
  | len + 1 => if path[len]? = some '/' then truncateTrailingSlashLoop path len else len + 1

/-- As for `pathcmp`, the length is an `int` in the source. -/
def truncateTrailingSlash (path : CStr) : CStr :=
  path.take (truncateTrailingSlashLoop path path.length)

/-- A path as it is stored: trailing slashes are cut, so that the root is the empty string. -/
def Truncated (path : CStr) : Prop := path.getLast? ≠ some '/'

instance (path : CStr) : Decidable (Truncated path) := inferInstanceAs (Decidable (_ ≠ _))

def isAbsolutePath (path : CStr) : Bool := path.head? == some '/'

/-! ## Sanitising -/

/-- The locals of `sanitize_absolute_path`; `token` is the index in `path` where it points. -/
structure SanitizeState where
  result : Buffer
  resultLen : Nat
  tokenLen : Nat
  token : Nat

/-- Go back to just after the last slash written, but not before the first character. -/
def sanitizeBacktrack (result : Buffer) : Nat → Nat
  | 0 => 0
  | n + 1 =>
    if n + 1 > 1 ∧ result.getD n none ≠ some '/' then sanitizeBacktrack result n else n + 1

/-- The slash in front of a name, unless the result ends with one. -/
def sanitizeSlash (result : Buffer) (resultLen : Nat) : Option (Buffer × Nat) :=
  if result.getD (resultLen - 1) none ≠ some '/' then
    (writeCell result resultLen (some '/')).map fun result => (result, resultLen + 1)
  else some (result, resultLen)

/-- What the end of a token does to the result. -/
def sanitizeToken (path : CStr) (st : SanitizeState) : Option SanitizeState := do
  let token := path.drop st.token
  if st.tokenLen = 0 ∨ strncmpEq token ['.'] st.tokenLen then
    return st
  else if strncmpEq token ['.', '.'] st.tokenLen then
    let resultLen := sanitizeBacktrack st.result st.resultLen - 1
    return { st with resultLen := if resultLen = 0 then 1 else resultLen }
  else
    let (result, resultLen) ← sanitizeSlash st.result st.resultLen
    let result ← writeCells result resultLen ((token.take st.tokenLen).map some)
    return { st with result := result, resultLen := resultLen + st.tokenLen }

/-- One round of the loop: read the character at `i`. -/
def sanitizeStep (path : CStr) (i : Nat) (st : SanitizeState) : Option SanitizeState := do
  let nextChar ← (toBuffer path)[i]?
  if nextChar = some '/' ∨ nextChar = none then
    let st ← sanitizeToken path st
    return { st with token := i + 1, tokenLen := 0 }
  else
    return { st with tokenLen := st.tokenLen + 1 }

def sanitizeLoop (path : CStr) : Nat → Nat → SanitizeState → Option SanitizeState
  | 0, _, st => some st
  | rounds + 1, i, st => (sanitizeStep path i st).bind (sanitizeLoop path rounds (i + 1))

/-- The work of `sanitize_absolute_path` on the `pathlen + 1` bytes it allocated; `none` when an
access leaves them or the input. -/
def sanitizeInto (path : CStr) (result : Buffer) : Option CStr := do
  let pathlen := result.length - 1
  let result ← writeCell result 0 (some '/')
  let st ← sanitizeLoop path pathlen 1
    { result := result, resultLen := 1, tokenLen := 0, token := 1 }
  let result ← writeCell st.result st.resultLen none
  return cstr result

/-- What `malloc` gives for a size of type `int`. A negative one becomes a `size_t` beyond the size
of any object, for which there never is memory. -/
def allocate (size : Int) (haveMemory : Bool) : Option Buffer :=
  if haveMemory && decide (0 ≤ size) then some (List.replicate size.toNat none) else none

def sanitizeAbsolutePath (path : CStr) : Exec (Option CStr) := do
  if !isAbsolutePath path then
    return none
  let pathlen := intLength path
  let size ← Exec.checked (checkInt (pathlen + 1)).toOption
  match allocate size (← Exec.malloc) with
  | none => return none
  | some result => return some (← Exec.checked (sanitizeInto path result))

/-- `strcpy` to an offset in an array. -/
def strcpyAt (array : Buffer) (offset : Int) (string : CStr) : Option Buffer :=
  if 0 ≤ offset then writeCells array offset.toNat (toBuffer string) else none

/-- `absolute_path` of `sanitize_path`, an array whose size is computed in `int`. -/
def sanitizeJoin (cwd path : CStr) : Option Buffer := do
  let cwdLen := intLength cwd
  let pathLen := intLength path
  let size ← (checkInt (cwdLen + 1)).toOption
  let size ← (checkInt (size + pathLen)).toOption
  let size ← (checkInt (size + 1)).toOption
  let absolutePath ← strcpyAt (List.replicate size.toNat none) 0 cwd
  let absolutePath ← strcpyAt absolutePath cwdLen ['/']
  strcpyAt absolutePath (cwdLen + 1) path

def sanitizePath (cwd path : CStr) : Exec (Option CStr) := do
  if !isAbsolutePath path then
    let absolutePath ← Exec.checked (sanitizeJoin cwd path)
    sanitizeAbsolutePath (cstr absolutePath)
  else sanitizeAbsolutePath path

/-! ## Tests on sanitised paths -/

def pathContainsHiddenLoop : Bool → CStr → Bool
  | _, [] => false
  | seenSlash, nextChar :: path =>
    if nextChar = '/' then pathContainsHiddenLoop true path
    else if seenSlash ∧ nextChar = '.' then true
    else pathContainsHiddenLoop false path

def pathContainsHidden (path : CStr) : Bool := pathContainsHiddenLoop true path

structure SymlinkCheckResponse where
  criticalError : Bool := false
  fileNotFound : Bool := false
  containsSymlink : Bool := false
  deriving DecidableEq, Repr

def pathContainsSymlinkCallback : PathSplitCallback Exec SymlinkCheckResponse :=
  fun path _ ctx => do
    let ctx := match ← Exec.lstat path with
      | .error errno =>
        if errno = Errno.ENOENT then { ctx with fileNotFound := true }
        else { ctx with criticalError := true }
      | .ok statbuf => if statbuf.isLnk then { ctx with containsSymlink := true } else ctx
    return (!ctx.fileNotFound && !ctx.criticalError && !ctx.containsSymlink, ctx)

def pathContainsSymlink (path : CStr) : Exec SymlinkCheckResponse :=
  pathSplit path pathContainsSymlinkCallback {}

/-- `const_basename`. Without a slash `strrchr` is `NULL`, and the result no pointer. -/
def constBasename (path : CStr) : Option CStr := afterLast path '/'

/-! ## Other strings -/

/-- `is_valid_path`, which nothing calls. -/
def isValidPath (path : CStr) : Bool :=
  let len := path.length
  decide (len > 0) && path[0]? == some '/' && path[len - 1]? != some '/'

def stripCrlf (string : CStr) : CStr :=
  let string := if string.getLast? = some '\n' then string.dropLast else string
  if string.getLast? = some '\r' then string.dropLast else string

end Umsftpd
