import Umsftpd.CLib.CString

/-!
# What a program sees of the system below it

The calls the code makes into libc and the kernel, and the monad its functions run in. A file
system is given by its answers (`Os`), so a statement about every `Os` is a statement about every
file system. A computation (`Exec`) consults those answers, takes the outcomes of its allocations
from a list, records the calls it makes, and has no result at all where C leaves the behaviour
undefined.
-/

namespace Umsftpd.CLib

/-! ## Data exchanged with the kernel -/

abbrev Errno := Nat

namespace Errno

def ENOENT : Errno := 2
def EACCES : Errno := 13

end Errno

structure Timespec where
  tvSec : Int
  tvNsec : Int
  deriving DecidableEq, Inhabited, Repr

/-- `struct stat`, the fields that are read here. -/
structure Stat where
  stMode : BitVec 32
  stUid : BitVec 32
  stGid : BitVec 32
  stSize : BitVec 64
  stMtim : Timespec
  stCtim : Timespec
  stAtim : Timespec
  deriving DecidableEq, Inhabited, Repr

def S_IFMT : BitVec 32 := 0o170000
def S_IFLNK : BitVec 32 := 0o120000
def S_IFREG : BitVec 32 := 0o100000
def S_IFDIR : BitVec 32 := 0o040000

def Stat.isLnk (st : Stat) : Bool := st.stMode &&& S_IFMT == S_IFLNK
def Stat.isReg (st : Stat) : Bool := st.stMode &&& S_IFMT == S_IFREG
def Stat.isDir (st : Stat) : Bool := st.stMode &&& S_IFMT == S_IFDIR

/-- `d_type` of a directory entry. -/
inductive DType where
  | unknown | fifo | chr | dir | blk | reg | lnk | sock
  deriving DecidableEq, Repr

/-- `struct dirent`. The kernel puts a component into `d_name[256]`: it is not empty, has no slash
and at most 255 characters. -/
structure Dirent where
  dName : CStr
  dType : DType
  dName_ne_nil : dName ≠ []
  dName_no_slash : '/' ∉ dName
  dName_length : dName.length ≤ 255
  deriving DecidableEq

/-- An open directory stream: what the coming `readdir` calls give, one after the other, and what
`fstatat` on the stream's descriptor gives for a name. After the last entry `readdir` gives `NULL`
and leaves `errno` alone. -/
structure Dir where
  entries : List (Except Errno Dirent)
  fstatat : CStr → Except Errno Stat

/-- An open `FILE *`. Only its being open matters here. -/
structure File where
  path : Option CStr
  mode : CStr
  deriving DecidableEq

/-- A call that reaches the kernel or gives a resource back. A path may be the `NULL` pointer. -/
inductive SysCall where
  | lstat (path : CStr)
  | stat (path : Option CStr)
  | opendir (path : Option CStr)
  | fopen (path : Option CStr) (mode : CStr)
  | closedir
  | fclose
  | free
  deriving DecidableEq

/-- A call that looks at a path itself, or gives a resource back. -/
def SysCall.isPassive : SysCall → Bool
  | lstat _ | closedir | fclose | free => true
  | stat _ | opendir _ | fopen _ _ => false

/-- The answers of the system while a function runs. A kernel refuses a `NULL` path, but `opendir`
looks at it first: what happens then is left open (`opendirNull`), and with glibc the program
dies. -/
structure Os where
  lstat : CStr → Except Errno Stat
  stat : Option CStr → Except Errno Stat
  opendir : Option CStr → Except Errno Dir
  /-- Whether `opendir(NULL)` comes back. -/
  opendirNull : Bool := false
  fopen : Option CStr → CStr → Except Errno Unit

/-- A system on which there are no files. -/
def Os.empty : Os where
  lstat _ := .error Errno.ENOENT
  stat _ := .error Errno.ENOENT
  opendir _ := .error Errno.ENOENT
  fopen _ _ := .error Errno.ENOENT

/-- What changes while a function runs: `mallocs` are the outcomes of the coming allocations, every
one after the last of them being a success, and `calls` are the calls made so far. -/
structure World where
  mallocs : List Bool := []
  calls : List SysCall := []

/-! ## The monad of C functions -/

/-- A C function with its arguments; running it gives no result where the behaviour is
undefined. -/
@[ext] structure Exec (α : Type) where
  run : Os → World → Option (α × World)

namespace Exec

variable {α β : Type}

instance : CoeFun (Exec α) fun _ => Os → World → Option (α × World) := ⟨Exec.run⟩

instance : Monad Exec where
  pure a := ⟨fun _ w => some (a, w)⟩
  bind x f := ⟨fun os w => (x os w).bind fun r => f r.1 os r.2⟩

@[simp] theorem pure_apply (a : α) (os : Os) (w : World) :
    (pure a : Exec α) os w = some (a, w) := by rfl

@[simp] theorem bind_apply (x : Exec α) (f : α → Exec β) (os : Os) (w : World) :
    (x >>= f) os w = (x os w).bind fun r => f r.1 os r.2 := by rfl

@[simp] theorem map_apply (f : α → β) (x : Exec α) (os : Os) (w : World) :
    (f <$> x) os w = (x os w).map fun r => (f r.1, r.2) := by
  show (x os w).bind (fun r => some (f r.1, r.2)) = _
  cases x os w <;> rfl

instance : LawfulMonad Exec := LawfulMonad.mk' Exec
  (fun x => by ext1; funext os w; simp)
  (fun a f => by ext1; funext os w; simp)
  (fun x f g => by ext1; funext os w; simp [Option.bind_assoc])

/-- The outcome of the next `malloc`, `calloc`, `realloc` or `strdup`. -/
def malloc : Exec Bool where
  run _ w := match w.mallocs with
    | [] => some (true, w)
    | ok :: rest => some (ok, { w with mallocs := rest })

/-- Use a value that is there only when the access was allowed. -/
def checked (x : Option α) : Exec α where
  run _ w := x.map fun a => (a, w)

/-- Make the call `c`, whose answer is `ask`. -/
def call (c : SysCall) (ask : Os → α) : Exec α where
  run os w := some (ask os, { w with calls := w.calls ++ [c] })

def lstat (path : CStr) : Exec (Except Errno Stat) := call (.lstat path) (·.lstat path)

def stat (path : Option CStr) : Exec (Except Errno Stat) := call (.stat path) (·.stat path)

def opendir (path : Option CStr) : Exec (Except Errno Dir) where
  run os w :=
    if path.isSome || os.opendirNull then
      some (os.opendir path, { w with calls := w.calls ++ [.opendir path] })
    else none

def fopen (path : Option CStr) (mode : CStr) : Exec (Except Errno Unit) :=
  call (.fopen path mode) (·.fopen path mode)

/-- Give a resource back. -/
def release (c : SysCall) : Exec Unit := call c fun _ => ()

/-- In a world where allocations succeed, the next one does. -/
@[simp] theorem malloc_apply (os : Os) (tr : List SysCall) :
    malloc os ⟨[], tr⟩ = some (true, ⟨[], tr⟩) := by rfl

/-- The exit for a failed allocation is not taken there. -/
theorem malloc_guard (failure rest : Exec α) (os : Os) (tr : List SysCall) :
    (malloc >>= fun ok => if (!ok) = true then failure else rest) os ⟨[], tr⟩ =
      rest os ⟨[], tr⟩ := by rfl

theorem true_guard (failure rest : Exec α) (os : Os) (w : World) :
    ((pure true : Exec Bool) >>= fun ok => if (!ok) = true then failure else rest) os w =
      rest os w := by rfl

@[simp] theorem checked_some (a : α) (os : Os) (w : World) :
    checked (some a) os w = some (a, w) := rfl

@[simp] theorem checked_some_bind (a : α) (f : α → Exec β) :
    (checked (some a) >>= f) = f a := rfl

@[simp] theorem checked_none (os : Os) (w : World) : checked (none : Option α) os w = none := rfl

/-- A path that is there is looked up as any other. -/
theorem opendir_run {path : Option CStr} {os : Os} (h : path = none → os.opendirNull = true)
    (w : World) :
    opendir path os w =
      some (os.opendir path, { w with calls := w.calls ++ [.opendir path] }) := by
  apply if_pos
  cases path with
  | none => simp [h rfl]
  | some path => rfl

/-- What comes back is the answer of the system. -/
theorem opendir_eq_some {path : Option CStr} {os : Os} {w w' : World} {answer : Except Errno Dir}
    (hrun : opendir path os w = some (answer, w')) :
    answer = os.opendir path ∧ w' = { w with calls := w.calls ++ [.opendir path] } ∧
      (path = none → os.opendirNull = true) := by
  change (if path.isSome || os.opendirNull then _ else _) = _ at hrun
  split_ifs at hrun with h
  obtain ⟨rfl, rfl⟩ := Prod.mk.inj (Option.some.inj hrun)
  refine ⟨rfl, rfl, ?_⟩
  rintro rfl
  simpa using h

@[simp] theorem call_apply (c : SysCall) (ask : Os → α) (os : Os) (w : World) :
    call c ask os w = some (ask os, { w with calls := w.calls ++ [c] }) := rfl

/-! ## What a run gives

Rules for the one result of a run in which no allocation fails, and for the calls it makes. -/

/-- The run comes back with `a`, and every call it makes satisfies `P`. -/
def Gives (x : Exec α) (os : Os) (P : SysCall → Prop) (a : α) : Prop :=
  ∀ tr, ∃ calls, x os ⟨[], tr⟩ = some (a, ⟨[], tr ++ calls⟩) ∧ ∀ c ∈ calls, P c

section Gives

variable {os : Os} {P : SysCall → Prop}

/-- A run without calls. -/
theorem Gives.of_apply {x : Exec α} {a : α}
    (h : ∀ tr, x os ⟨[], tr⟩ = some (a, ⟨[], tr⟩)) : Gives x os P a := by
  intro tr
  exact ⟨[], by rw [h, List.append_nil], by simp⟩

theorem Gives.pure (a : α) : Gives (Pure.pure a) os P a := .of_apply fun _ => rfl

theorem Gives.bind {x : Exec α} {f : α → Exec β} {a : α} {b : β} (hx : Gives x os P a)
    (hf : Gives (f a) os P b) : Gives (x >>= f) os P b := by
  intro tr
  obtain ⟨calls, hrun, hcalls⟩ := hx tr
  obtain ⟨calls', hrun', hcalls'⟩ := hf (tr ++ calls)
  refine ⟨calls ++ calls', ?_, ?_⟩
  · rw [bind_apply, hrun, Option.bind_some, hrun', List.append_assoc]
  · intro c hc
    rcases List.mem_append.mp hc with h | h
    · exact hcalls c h
    · exact hcalls' c h

/-- The rest has a result when it has one after the result so far. -/
theorem Gives.exists_bind {x : Exec α} {f : α → Exec β} {a : α} (hx : Gives x os P a)
    (hf : ∃ b, Gives (f a) os P b) : ∃ b, Gives (x >>= f) os P b :=
  hf.imp fun _ => hx.bind

theorem Gives.call {c : SysCall} (ask : Os → α) (h : P c) :
    Gives (Exec.call c ask) os P (ask os) := by
  intro tr
  exact ⟨[c], rfl, by simpa using h⟩

theorem Gives.opendir {path : Option CStr} (h : path = none → os.opendirNull = true)
    (hP : P (.opendir path)) : Gives (Exec.opendir path) os P (os.opendir path) := by
  intro tr
  exact ⟨[.opendir path], Exec.opendir_run h _, by simpa using hP⟩

/-- The exit for a failed allocation is not taken. -/
theorem Gives.malloc_guard {failure rest : Exec α} {a : α} (h : Gives rest os P a) :
    Gives (malloc >>= fun ok => if (!ok) = true then failure else rest) os P a := by
  intro tr
  rw [Exec.malloc_guard]
  exact h tr

theorem Gives.mono {P' : SysCall → Prop} {x : Exec α} {a : α} (h : Gives x os P a)
    (hP : ∀ c, P c → P' c) : Gives x os P' a := by
  intro tr
  obtain ⟨calls, hrun, hcalls⟩ := h tr
  exact ⟨calls, hrun, fun c hc => hP c (hcalls c hc)⟩

/-- The run from the start. -/
theorem Gives.run {x : Exec α} {a : α} (h : Gives x os P a) :
    ∃ w, x os {} = some (a, w) ∧ ∀ c ∈ w.calls, P c := by
  obtain ⟨calls, hrun, hcalls⟩ := h []
  exact ⟨_, hrun, hcalls⟩

/-- The run comes back and makes the call `c`, and every call it makes satisfies `P`. -/
def Makes (x : Exec α) (os : Os) (P : SysCall → Prop) (c : SysCall) : Prop :=
  ∀ tr, ∃ a calls, x os ⟨[], tr⟩ = some (a, ⟨[], tr ++ calls⟩) ∧ c ∈ calls ∧ ∀ c ∈ calls, P c

theorem Makes.bind {x : Exec α} {f : α → Exec β} {a : α} {c : SysCall} (hx : Gives x os P a)
    (hf : Makes (f a) os P c) : Makes (x >>= f) os P c := by
  intro tr
  obtain ⟨calls, hrun, hcalls⟩ := hx tr
  obtain ⟨b, calls', hrun', hc, hcalls'⟩ := hf (tr ++ calls)
  refine ⟨b, calls ++ calls', ?_, List.mem_append_right _ hc,
    List.forall_mem_append.mpr ⟨hcalls, hcalls'⟩⟩
  rw [bind_apply, hrun, Option.bind_some, hrun', List.append_assoc]

/-- The call is made first. -/
theorem Makes.call {c : SysCall} {ask : Os → α} {f : α → Exec β} (hP : P c)
    (h : ∃ b, Gives (f (ask os)) os P b) : Makes (Exec.call c ask >>= f) os P c := by
  intro tr
  obtain ⟨b, hb⟩ := h
  obtain ⟨calls, hrun, hcalls⟩ := hb (tr ++ [c])
  refine ⟨b, c :: calls, ?_, List.mem_cons_self, List.forall_mem_cons.mpr ⟨hP, hcalls⟩⟩
  rw [bind_apply, call_apply, Option.bind_some, hrun, List.append_assoc]
  rfl

theorem Makes.opendir {path : Option CStr} {f : Except Errno Dir → Exec β}
    (hpath : path = none → os.opendirNull = true) (hP : P (.opendir path))
    (h : ∃ b, Gives (f (os.opendir path)) os P b) :
    Makes (Exec.opendir path >>= f) os P (.opendir path) := by
  intro tr
  have hcall : Makes (Exec.call (.opendir path) (fun os => os.opendir path) >>= f) os P
      (.opendir path) := Makes.call hP h
  obtain ⟨b, calls, hrun, hmem, hcalls⟩ := hcall tr
  refine ⟨b, calls, ?_, hmem, hcalls⟩
  rw [bind_apply, opendir_run hpath]
  exact hrun

theorem Makes.run {x : Exec α} {c : SysCall} (h : Makes x os P c) :
    ∃ a w, x os {} = some (a, w) ∧ c ∈ w.calls ∧ ∀ c ∈ w.calls, P c := by
  obtain ⟨a, calls, hrun, hc, hcalls⟩ := h []
  exact ⟨a, _, hrun, hc, hcalls⟩

end Gives

/-- The result of a run in which every allocation succeeds, `none` if it does not return. -/
def eval (os : Os) (x : Exec α) : Option α := (x os {}).map Prod.fst

theorem Gives.eval {os : Os} {P : SysCall → Prop} {x : Exec α} {a : α} (h : Gives x os P a) :
    x.eval os = some a := by
  obtain ⟨calls, hrun, -⟩ := h []
  rw [Exec.eval, hrun]
  rfl

/-! ## What a run does whichever allocations fail -/

/-- Whatever the system answers and whichever allocations fail, the run returns, and its result
satisfies `Q`. -/
def Always (x : Exec α) (Q : α → Prop) : Prop :=
  ∀ os w, ∃ a w', x os w = some (a, w') ∧ Q a

section Always

variable {Q : α → Prop} {R : β → Prop}

theorem Always.pure {a : α} (h : Q a) : Always (Pure.pure a) Q := fun _ w => ⟨a, w, rfl, h⟩

theorem Always.bind {x : Exec α} {f : α → Exec β} (hx : Always x Q)
    (hf : ∀ a, Q a → Always (f a) R) : Always (x >>= f) R := by
  intro os w
  obtain ⟨a, w1, hrun, hQ⟩ := hx os w
  obtain ⟨b, w2, hrun', hR⟩ := hf a hQ os w1
  exact ⟨b, w2, by rw [bind_apply, hrun, Option.bind_some, hrun'], hR⟩

/-- An allocation may go either way. -/
theorem Always.malloc {f : Bool → Exec β} (h : ∀ ok, Always (f ok) R) :
    Always (Exec.malloc >>= f) R := by
  intro os w
  obtain ⟨mallocs, calls⟩ := w
  cases mallocs with
  | nil => exact h true os ⟨[], calls⟩
  | cons ok mallocs => exact h ok os ⟨mallocs, calls⟩

theorem Always.call {c : SysCall} {ask : Os → α} {f : α → Exec β}
    (h : ∀ os, Always (f (ask os)) R) : Always (Exec.call c ask >>= f) R :=
  fun os _ => h os os _

theorem Always.checked {x : Option α} {a : α} {f : α → Exec β} (hx : x = some a)
    (h : Always (f a) R) : Always (Exec.checked x >>= f) R := by
  subst hx
  exact fun os w => h os w

/-- The result of a run is the one that satisfies `Q`. -/
theorem Always.result {x : Exec α} (h : Always x Q) {os : Os} {w w' : World} {a : α}
    (hrun : x os w = some (a, w')) : Q a := by
  obtain ⟨b, w1, hrun1, hQ⟩ := h os w
  obtain ⟨rfl, -⟩ := Prod.mk.inj (Option.some.inj (hrun1.symm.trans hrun))
  exact hQ

end Always

/-- A run that returns has a result that satisfies `Q`, whatever the system answers and whichever
allocations fail. -/
def Yields (x : Exec α) (Q : α → Prop) : Prop :=
  ∀ os w a w', x os w = some (a, w') → Q a

section Yields

variable {Q : α → Prop} {R : β → Prop}

theorem Always.yields {x : Exec α} (h : Always x Q) : Yields x Q :=
  fun _ _ _ _ hrun => h.result hrun

theorem Yields.pure {a : α} (h : Q a) : Yields (Pure.pure a) Q := (Always.pure h).yields

theorem Yields.bind {x : Exec α} {f : α → Exec β} (hx : Yields x Q)
    (hf : ∀ a, Q a → Yields (f a) R) : Yields (x >>= f) R := by
  intro os w b w' hrun
  rw [bind_apply] at hrun
  obtain ⟨⟨a, w1⟩, hrun1, hrun2⟩ := Option.bind_eq_some_iff.mp hrun
  exact hf a (hx os w a w1 hrun1) os w1 b w' hrun2

theorem Yields.result {x : Exec α} (h : Yields x Q) {os : Os} {w w' : World} {a : α}
    (hrun : x os w = some (a, w')) : Q a := h os w a w' hrun

/-- Of the result nothing is needed. -/
theorem Yields.trivial (x : Exec α) : Yields x fun _ => True := fun _ _ _ _ _ => True.intro

/-- A result of a run without failing allocations is a result. -/
theorem Yields.eval {x : Exec α} (h : Yields x Q) {os : Os} {a : α} (hrun : x.eval os = some a) :
    Q a := by
  obtain ⟨⟨b, w⟩, hb, rfl⟩ := Option.map_eq_some_iff.mp hrun
  exact h os {} b w hb

end Yields

end Exec

/-! ## What one run does

Where it matters which allocations fail, a run is followed from the world it starts in. -/

namespace World

/-- The outcome of the allocation that comes after `i` others. -/
def outcome (w : World) (i : Nat) : Bool := w.mallocs.getD i true

/-- The world after one allocation. -/
def allocated (w : World) : World := { w with mallocs := w.mallocs.tail }

@[simp] theorem calls_allocated (w : World) : w.allocated.calls = w.calls := rfl

@[simp] theorem outcome_allocated (w : World) (i : Nat) :
    w.allocated.outcome i = w.outcome (i + 1) := by
  unfold outcome allocated
  cases w.mallocs <;> rfl

/-- The world after `n` allocations. -/
def used (w : World) (n : Nat) : World := { w with mallocs := w.mallocs.drop n }

@[simp] theorem outcome_used (w : World) (n i : Nat) :
    (w.used n).outcome i = w.outcome (n + i) := by
  unfold outcome used
  rw [List.getD_eq_getElem?_getD, List.getD_eq_getElem?_getD, List.getElem?_drop]

theorem used_used (w : World) (m n : Nat) : (w.used m).used n = w.used (m + n) := by
  unfold used
  rw [List.drop_drop]

theorem used_zero (w : World) : w.used 0 = w := rfl

theorem allocated_eq_used (w : World) : w.allocated = w.used 1 := by
  unfold allocated used
  rw [List.drop_one]

/-- How many handles were given back so far. -/
def freed (w : World) : Nat := w.calls.count .free

theorem freed_call (w : World) {c : SysCall} (hc : c ≠ .free) :
    ({ w with calls := w.calls ++ [c] } : World).freed = w.freed := by
  show (w.calls ++ [c]).count .free = w.calls.count .free
  rw [List.count_append, List.count_singleton, if_neg (by simpa using hc), Nat.add_zero]

end World

namespace Exec

variable {α β : Type}

/-- The run from `w` comes back, and its result and the world after it satisfy `Q`. -/
def Returns (x : Exec α) (os : Os) (w : World) (Q : α → World → Prop) : Prop :=
  ∃ a w', x os w = some (a, w') ∧ Q a w'

section Returns

variable {os : Os} {w : World} {Q : α → World → Prop} {R : β → World → Prop}

theorem Returns.pure {a : α} (h : Q a w) : Returns (Pure.pure a) os w Q := ⟨a, w, rfl, h⟩

theorem Returns.bind {x : Exec α} {f : α → Exec β} (hx : Returns x os w Q)
    (hf : ∀ a w', Q a w' → Returns (f a) os w' R) : Returns (x >>= f) os w R := by
  obtain ⟨a, w1, hrun, hQ⟩ := hx
  obtain ⟨b, w2, hrun', hR⟩ := hf a w1 hQ
  exact ⟨b, w2, by rw [bind_apply, hrun, Option.bind_some, hrun'], hR⟩

theorem malloc_run (os : Os) (w : World) : malloc os w = some (w.outcome 0, w.allocated) := by
  obtain ⟨mallocs, calls⟩ := w
  cases mallocs <;> rfl

/-- Allocate, and go on with the outcome. -/
theorem Returns.malloc {f : Bool → Exec β} (h : Returns (f (w.outcome 0)) os w.allocated R) :
    Returns (Exec.malloc >>= f) os w R := by
  obtain ⟨b, w', hrun, hR⟩ := h
  exact ⟨b, w', by rw [bind_apply, malloc_run, Option.bind_some, hrun], hR⟩

/-- Make a call, and go on with its answer. -/
theorem Returns.call {c : SysCall} {ask : Os → α} {f : α → Exec β}
    (h : Returns (f (ask os)) os { w with calls := w.calls ++ [c] } R) :
    Returns (Exec.call c ask >>= f) os w R := h

theorem Returns.opendir {path : Option CStr} {f : Except Errno Dir → Exec β}
    (hpath : path = none → os.opendirNull = true)
    (h : Returns (f (os.opendir path)) os { w with calls := w.calls ++ [.opendir path] } R) :
    Returns (Exec.opendir path >>= f) os w R := by
  obtain ⟨b, w', hrun, hR⟩ := h
  exact ⟨b, w', by rw [bind_apply, opendir_run hpath, Option.bind_some, hrun], hR⟩

theorem Returns.mono {Q' : α → World → Prop} {x : Exec α} (h : Returns x os w Q)
    (hQ : ∀ a w', Q a w' → Q' a w') : Returns x os w Q' := by
  obtain ⟨a, w', hrun, hQ1⟩ := h
  exact ⟨a, w', hrun, hQ a w' hQ1⟩

/-- The result of a run is the one that satisfies `Q`. -/
theorem Returns.result {x : Exec α} (h : Returns x os w Q) {a : α} {w' : World}
    (hrun : x os w = some (a, w')) : Q a w' := by
  obtain ⟨b, w1, hrun1, hQ⟩ := h
  obtain ⟨rfl, rfl⟩ := Prod.mk.inj (Option.some.inj (hrun1.symm.trans hrun))
  exact hQ

end Returns

/-- If the run from `w` comes back, its result and the world after it satisfy `Q`. -/
def IfReturns (x : Exec α) (os : Os) (w : World) (Q : α → World → Prop) : Prop :=
  ∀ a w', x os w = some (a, w') → Q a w'

section IfReturns

variable {os : Os} {w : World} {Q : α → World → Prop} {R : β → World → Prop}

theorem IfReturns.of_run {x : Exec α} {a : α} {w' : World} (hrun : x os w = some (a, w'))
    (h : Q a w') : IfReturns x os w Q := by
  intro b w1 hrun'
  obtain ⟨rfl, rfl⟩ := Prod.mk.inj (Option.some.inj (hrun.symm.trans hrun'))
  exact h

theorem IfReturns.pure {a : α} (h : Q a w) : IfReturns (Pure.pure a) os w Q := .of_run rfl h

theorem IfReturns.bind {x : Exec α} {f : α → Exec β} (hx : IfReturns x os w Q)
    (hf : ∀ a w', Q a w' → IfReturns (f a) os w' R) : IfReturns (x >>= f) os w R := by
  intro b w' hrun
  rw [bind_apply] at hrun
  obtain ⟨⟨a, w1⟩, hrun1, hrun2⟩ := Option.bind_eq_some_iff.mp hrun
  exact hf a w1 (hx a w1 hrun1) b w' hrun2

/-- What is bound in either branch comes after the choice. -/
theorem IfReturns.ite_bind {c : Prop} [Decidable c] {x y : Exec α} {f : α → Exec β}
    (h : IfReturns (if c then x else y) os w Q)
    (hf : ∀ a w', Q a w' → IfReturns (f a) os w' R) :
    IfReturns (if c then x >>= f else y >>= f) os w R := by
  by_cases hc : c
  · rw [if_pos hc] at h ⊢
    exact h.bind hf
  · rw [if_neg hc] at h ⊢
    exact h.bind hf

theorem IfReturns.malloc {f : Bool → Exec β}
    (h : IfReturns (f (w.outcome 0)) os w.allocated R) :
    IfReturns (Exec.malloc >>= f) os w R := by
  intro b w' hrun
  rw [bind_apply, malloc_run, Option.bind_some] at hrun
  exact h b w' hrun

/-- The run goes on only from an access that was allowed. -/
theorem IfReturns.checked {x : Option α} {f : α → Exec β}
    (h : ∀ a, x = some a → IfReturns (f a) os w R) : IfReturns (Exec.checked x >>= f) os w R := by
  cases x with
  | none => exact fun b w' hrun => absurd hrun (by simp)
  | some a => exact h a rfl

theorem IfReturns.call {c : SysCall} {ask : Os → α} {f : α → Exec β}
    (h : IfReturns (f (ask os)) os { w with calls := w.calls ++ [c] } R) :
    IfReturns (Exec.call c ask >>= f) os w R := h

theorem IfReturns.opendir {path : Option CStr} {f : Except Errno Dir → Exec β}
    (h : (path = none → os.opendirNull = true) →
      IfReturns (f (os.opendir path)) os { w with calls := w.calls ++ [.opendir path] } R) :
    IfReturns (Exec.opendir path >>= f) os w R := by
  intro b w' hrun
  rw [bind_apply] at hrun
  obtain ⟨⟨answer, w1⟩, hopendir, hrest⟩ := Option.bind_eq_some_iff.mp hrun
  obtain ⟨rfl, rfl, hpath⟩ := opendir_eq_some hopendir
  exact h hpath b w' hrest

theorem IfReturns.result {x : Exec α} (h : IfReturns x os w Q) {a : α} {w' : World}
    (hrun : x os w = some (a, w')) : Q a w' := h a w' hrun

/-- A run that returns is one that comes back in any case, if that follows from its returning. -/
theorem IfReturns.of_returns {x : Exec α}
    (h : ∀ a w', x os w = some (a, w') → Returns x os w Q) : IfReturns x os w Q :=
  fun a w' hrun => (h a w' hrun).result hrun

/-- The first part of a run that comes back comes back. -/
theorem IfReturns.of_bind {x : Exec α} {f : α → Exec β} (h : IfReturns x os w Q) {b : β}
    {w' : World} (hrun : (x >>= f) os w = some (b, w')) : Returns x os w Q := by
  rw [bind_apply] at hrun
  obtain ⟨⟨a, w1⟩, hx, -⟩ := Option.bind_eq_some_iff.mp hrun
  exact ⟨a, w1, hx, h a w1 hx⟩

theorem Returns.ifReturns {x : Exec α} (h : Returns x os w Q) : IfReturns x os w Q :=
  fun _ _ hrun => h.result hrun

/-- What a run that comes back satisfies holds of one that does come back. -/
theorem IfReturns.returns {R : α → World → Prop} {x : Exec α} (h : IfReturns x os w Q)
    (hx : Returns x os w R) : Returns x os w Q := by
  obtain ⟨a, w', hrun, -⟩ := hx
  exact ⟨a, w', hrun, h a w' hrun⟩

theorem IfReturns.mono {Q' : α → World → Prop} {x : Exec α} (h : IfReturns x os w Q)
    (hQ : ∀ a w', Q a w' → Q' a w') : IfReturns x os w Q' :=
  fun a w' hrun => hQ a w' (h a w' hrun)

end IfReturns

end Exec

end Umsftpd.CLib
