import Umsftpd.Strings.Normalize
import Umsftpd.Systems.Logged

/-!
# The sanitiser stays inside its buffers

`sanitize_absolute_path` once more, with a log of its accesses, of each `result_len` that it
decrements and of `result_len` at the end of each iteration. The bounds come from the invariant of
the loop: the output stays behind the token that is read.
-/

namespace Umsftpd

open CLib Paths
open Systems (Logged)

/-- What is logged: an index that is read of `path`, read of `result` or written to `result`,
`result_len` before it is decremented, and `result_len` at the end of an iteration. -/
inductive SanitizeEvent where
  | readPath (index : Nat)
  | readResult (index : Nat)
  | write (index : Nat)
  | decrement (resultLen : Nat)
  | iterationEnd (resultLen : Nat)
  deriving DecidableEq, Repr

/-- No access is behind the terminator of a path of this length or outside of the cells that are
allocated, and no length wraps around. -/
def SanitizeEvent.InBounds (strlen : Nat) (size : Int) : SanitizeEvent → Prop
  | readPath index => index ≤ strlen
  | readResult index => index < size
  | write index => index < size
  | decrement resultLen => 1 ≤ resultLen
  | iterationEnd resultLen => 1 ≤ resultLen

/-- An access that may leave its array. -/
def CLib.Run.ofOption {α : Type} : Option α → Run α
  | none => .error .outOfBounds
  | some a => .ok a

abbrev SanitizeLogged := Logged Undefined SanitizeEvent

/-! ## The sanitiser with its log -/

/-- `strncmp` of the token and a string, over the length of the token. -/
def compareTokenLogged (path : CStr) (st : SanitizeState) (s : CStr) : SanitizeLogged Bool :=
  Logged.steps ((List.range st.tokenLen).map fun j => .readPath (st.token + j))
    (.ok (strncmpEq (path.drop st.token) s st.tokenLen))

def sanitizeBacktrackLogged (result : Buffer) : Nat → SanitizeLogged Nat
  | 0 => return 0
  | n + 1 =>
    if n + 1 > 1 then do
      let c ← Logged.step (.readResult n) (.ok (result.getD n none))
      if c ≠ some '/' then
        Logged.step (.decrement (n + 1)) (.ok ())
        sanitizeBacktrackLogged result n
      else return n + 1
    else return n + 1

def sanitizeSlashLogged (result : Buffer) (resultLen : Nat) : SanitizeLogged (Buffer × Nat) := do
  let c ← Logged.step (.readResult (resultLen - 1)) (.ok (result.getD (resultLen - 1) none))
  if c ≠ some '/' then
    let result ← Logged.step (.write resultLen)
      (Run.ofOption (writeCell result resultLen (some '/')))
    return (result, resultLen + 1)
  else return (result, resultLen)

/-- `memcpy` of the token. -/
def copyTokenLogged (path : CStr) (st : SanitizeState) (result : Buffer) (resultLen : Nat) :
    SanitizeLogged Buffer :=
  Logged.steps ((List.range st.tokenLen).flatMap fun j =>
      [.readPath (st.token + j), .write (resultLen + j)])
    (Run.ofOption (writeCells result resultLen
      (((path.drop st.token).take st.tokenLen).map some)))

def sanitizeTokenLogged (path : CStr) (st : SanitizeState) : SanitizeLogged SanitizeState := do
  if st.tokenLen = 0 then return st
  if ← compareTokenLogged path st ['.'] then return st
  if ← compareTokenLogged path st ['.', '.'] then
    let resultLen ← sanitizeBacktrackLogged st.result st.resultLen
    Logged.step (.decrement resultLen) (.ok ())
    let resultLen := resultLen - 1
    return { st with resultLen := if resultLen = 0 then 1 else resultLen }
  let (result, resultLen) ← sanitizeSlashLogged st.result st.resultLen
  let result ← copyTokenLogged path st result resultLen
  return { st with result := result, resultLen := resultLen + st.tokenLen }

def sanitizeStepLogged (path : CStr) (i : Nat) (st : SanitizeState) :
    SanitizeLogged SanitizeState := do
  let nextChar ← Logged.step (.readPath i) (Run.ofOption (toBuffer path)[i]?)
  if nextChar = some '/' ∨ nextChar = none then
    let st ← sanitizeTokenLogged path st
    Logged.step (.iterationEnd st.resultLen) (.ok ())
    return { st with token := i + 1, tokenLen := 0 }
  else
    Logged.step (.iterationEnd st.resultLen) (.ok ())
    return { st with tokenLen := st.tokenLen + 1 }

def sanitizeLoopLogged (path : CStr) : Nat → Nat → SanitizeState → SanitizeLogged SanitizeState
  | 0, _, st => return st
  | rounds + 1, i, st => do
    let st ← sanitizeStepLogged path i st
    sanitizeLoopLogged path rounds (i + 1) st

def sanitizeIntoLogged (path : CStr) (result : Buffer) : SanitizeLogged CStr := do
  let pathlen := result.length - 1
  let result ← Logged.step (.write 0) (Run.ofOption (writeCell result 0 (some '/')))
  let st ← sanitizeLoopLogged path pathlen 1
    { result := result, resultLen := 1, tokenLen := 0, token := 1 }
  let result ← Logged.step (.write st.resultLen)
    (Run.ofOption (writeCell st.result st.resultLen none))
  return cstr result

/-- `sanitize_absolute_path` with the outcome of its allocation. -/
def sanitizeAbsolutePathLogged (path : CStr) (haveMemory : Bool) :
    SanitizeLogged (Option CStr) := do
  Logged.step (.readPath 0) (.ok ())
  if !isAbsolutePath path then
    return none
  -- strlen(path)
  Logged.steps ((List.range (path.length + 1)).map .readPath) (.ok ())
  let pathlen := intLength path
  let size ← Logged.silently (checkInt (pathlen + 1))
  match allocate size haveMemory with
  | none => return none
  | some result => return some (← sanitizeIntoLogged path result)

/-- `sanitize_path`. The log is that of `sanitize_absolute_path`. -/
def sanitizePathLogged (cwd path : CStr) (haveMemory : Bool) : SanitizeLogged (Option CStr) := do
  if !isAbsolutePath path then
    let absolutePath ← Logged.silently (Run.ofOption (sanitizeJoin cwd path))
    sanitizeAbsolutePathLogged (cstr absolutePath) haveMemory
  else sanitizeAbsolutePathLogged path haveMemory

/-! ## Without the log -/

theorem sanitizeBacktrackLogged_result (result : Buffer) (n : Nat) :
    (sanitizeBacktrackLogged result n).result = .ok (sanitizeBacktrack result n) := by
  induction n with
  | zero => rfl
  | succ n ih =>
    rw [sanitizeBacktrackLogged, sanitizeBacktrack]
    by_cases hgt : n + 1 > 1
    · rw [if_pos hgt, Logged.result_bind, Logged.result_step, Run.ok_bind]
      by_cases hslash : result.getD n none ≠ some '/'
      · rw [if_pos hslash, if_pos ⟨hgt, hslash⟩, Logged.result_bind, Logged.result_step,
          Run.ok_bind, ih]
      · rw [if_neg hslash, if_neg fun h => hslash h.2]
        rfl
    · rw [if_neg hgt, if_neg fun h => hgt h.1]
      rfl

theorem sanitizeSlashLogged_result (result : Buffer) (resultLen : Nat) :
    (sanitizeSlashLogged result resultLen).result =
      Run.ofOption (sanitizeSlash result resultLen) := by
  unfold sanitizeSlashLogged sanitizeSlash
  rw [Logged.result_bind, Logged.result_step, Run.ok_bind]
  split_ifs
  · rw [Logged.result_bind, Logged.result_step]
    cases writeCell result resultLen (some '/') <;> rfl
  · rfl

theorem sanitizeTokenLogged_result (path : CStr) (st : SanitizeState) :
    (sanitizeTokenLogged path st).result = Run.ofOption (sanitizeToken path st) := by
  unfold sanitizeTokenLogged sanitizeToken compareTokenLogged
  dsimp only
  by_cases hempty : st.tokenLen = 0
  · rw [if_pos hempty, if_pos (.inl hempty)]
    rfl
  rw [if_neg hempty, Logged.result_bind, Logged.result_steps, Run.ok_bind]
  by_cases hdot : strncmpEq (path.drop st.token) ['.'] st.tokenLen = true
  · rw [if_pos hdot, if_pos (.inr hdot)]
    rfl
  rw [if_neg hdot, if_neg (not_or.mpr ⟨hempty, hdot⟩), Logged.result_bind, Logged.result_steps,
    Run.ok_bind]
  by_cases hdotdot : strncmpEq (path.drop st.token) ['.', '.'] st.tokenLen = true
  · rw [if_pos hdotdot, if_pos hdotdot, Logged.result_bind, sanitizeBacktrackLogged_result,
      Run.ok_bind, Logged.result_bind, Logged.result_step, Run.ok_bind]
    rfl
  · rw [if_neg hdotdot, if_neg hdotdot, Logged.result_bind, sanitizeSlashLogged_result]
    cases sanitizeSlash st.result st.resultLen with
    | none => rfl
    | some slashed =>
      show (copyTokenLogged path st slashed.1 slashed.2 >>= _).result = _
      rw [Logged.result_bind]
      unfold copyTokenLogged
      rw [Logged.result_steps]
      show _ = Run.ofOption ((writeCells slashed.1 slashed.2 _).bind _)
      cases writeCells slashed.1 slashed.2 (((path.drop st.token).take st.tokenLen).map some) <;>
        rfl

theorem sanitizeStepLogged_result (path : CStr) (i : Nat) (st : SanitizeState) :
    (sanitizeStepLogged path i st).result = Run.ofOption (sanitizeStep path i st) := by
  unfold sanitizeStepLogged sanitizeStep
  rw [Logged.result_bind, Logged.result_step]
  cases (toBuffer path)[i]? with
  | none => rfl
  | some nextChar =>
    show (if nextChar = some '/' ∨ nextChar = none then _ else _ : SanitizeLogged _).result =
      Run.ofOption (if nextChar = some '/' ∨ nextChar = none then _ else _)
    split_ifs
    · rw [Logged.result_bind, sanitizeTokenLogged_result]
      cases sanitizeToken path st <;> rfl
    · rfl

theorem sanitizeLoopLogged_result (path : CStr) (rounds i : Nat) (st : SanitizeState) :
    (sanitizeLoopLogged path rounds i st).result =
      Run.ofOption (sanitizeLoop path rounds i st) := by
  induction rounds generalizing i st with
  | zero => rfl
  | succ rounds ih =>
    rw [sanitizeLoopLogged, sanitizeLoop, Logged.result_bind, sanitizeStepLogged_result]
    cases sanitizeStep path i st with
    | none => rfl
    | some st => exact ih (i + 1) st

theorem sanitizeIntoLogged_result (path : CStr) (result : Buffer) :
    (sanitizeIntoLogged path result).result = Run.ofOption (sanitizeInto path result) := by
  unfold sanitizeIntoLogged sanitizeInto
  rw [Logged.result_bind, Logged.result_step]
  cases writeCell result 0 (some '/') with
  | none => rfl
  | some b =>
    show (sanitizeLoopLogged path (result.length - 1) 1 _ >>= _).result =
      Run.ofOption ((sanitizeLoop path (result.length - 1) 1 _).bind _)
    rw [Logged.result_bind, sanitizeLoopLogged_result]
    cases sanitizeLoop path (result.length - 1) 1 ⟨b, 1, 0, 1⟩ with
    | none => rfl
    | some st =>
      show (Logged.step _ _ >>= _).result =
        Run.ofOption ((writeCell st.result st.resultLen none).bind _)
      rw [Logged.result_bind, Logged.result_step]
      cases writeCell st.result st.resultLen none <;> rfl

/-- The result of the logged function, with the outcome of the allocation. -/
theorem sanitizeAbsolutePathLogged_eq {path : CStr} (habs : isAbsolutePath path = true)
    (haveMemory : Bool) :
    (sanitizeAbsolutePathLogged path haveMemory).result =
      checkInt (intLength path + 1) >>= fun size =>
        match allocate size haveMemory with
        | none => .ok none
        | some result => some <$> Run.ofOption (sanitizeInto path result) := by
  unfold sanitizeAbsolutePathLogged
  simp only [habs, Bool.not_true, Bool.false_eq_true, if_false, Logged.result_bind,
    Logged.result_step, Logged.result_steps, Logged.result_silently, Run.ok_bind]
  congr 1
  funext size
  cases allocate size haveMemory with
  | none => rfl
  | some result =>
    show (sanitizeIntoLogged path result >>= _).result = _
    rw [Logged.result_bind, sanitizeIntoLogged_result]
    show _ = some <$> Run.ofOption (sanitizeInto path result)
    cases sanitizeInto path result <;> rfl

/-- The log is all that is added to the sanitiser. -/
theorem sanitizeAbsolutePathLogged_result (path : CStr) :
    sanitizeAbsolutePath path =
      if isAbsolutePath path then do
        let haveMemory ← Exec.malloc
        Exec.checked (sanitizeAbsolutePathLogged path haveMemory).result.toOption
      else return none := by
  cases habs : isAbsolutePath path with
  | false =>
    unfold sanitizeAbsolutePath
    rw [habs]
    rfl
  | true =>
    ext1
    funext os w
    unfold sanitizeAbsolutePath
    simp only [habs, Bool.not_true, Bool.false_eq_true, if_false, if_true,
      sanitizeAbsolutePathLogged_eq habs, Exec.bind_apply, Exec.malloc_run, Option.bind_some]
    cases checkInt (intLength path + 1) with
    | error undefined => rfl
    | ok size =>
      simp only [Run.ok_bind, Except.toOption, Exec.checked_some, Option.bind_some]
      cases allocate size (w.outcome 0) with
      | none => rfl
      | some result =>
        dsimp only
        cases sanitizeInto path result <;> rfl

theorem sanitizePathLogged_result (cwd path : CStr) :
    sanitizePath cwd path =
      if isAbsolutePath (joinedPath cwd path) then do
        let haveMemory ← Exec.malloc
        Exec.checked (sanitizePathLogged cwd path haveMemory).result.toOption
      else Exec.checked (sanitizePathLogged cwd path true).result.toOption := by
  by_cases hpath : isAbsolutePath path = true
  · have hjoined : joinedPath cwd path = path := if_pos hpath
    unfold sanitizePath sanitizePathLogged
    simp only [hjoined, hpath, Bool.not_true, Bool.false_eq_true, if_false, if_true]
    rw [sanitizeAbsolutePathLogged_result, if_pos hpath]
  · have hpath' : isAbsolutePath path = false := by simpa using hpath
    have hjoined : joinedPath cwd path = cwd ++ ['/'] ++ path := if_neg hpath
    unfold sanitizePath sanitizePathLogged
    simp only [hjoined, hpath', Bool.not_false, if_true, sanitizeJoin_eq]
    split_ifs with hfits habs habs
    · simp only [Exec.checked_some_bind, cstr_toBuffer, Logged.result_bind,
        Logged.result_silently, Run.ofOption, Run.ok_bind]
      rw [sanitizeAbsolutePathLogged_result, if_pos habs]
    · simp only [Exec.checked_some_bind, cstr_toBuffer, Logged.result_bind,
        Logged.result_silently, Run.ofOption, Run.ok_bind]
      rw [sanitizeAbsolutePathLogged_result, if_neg habs]
      unfold sanitizeAbsolutePathLogged
      simp only [habs, Bool.not_false, if_true]
      rfl
    · ext1
      funext os w
      show none = (Exec.malloc >>= _ : Exec _) os w
      rw [Exec.bind_apply, Exec.malloc_run]
      rfl
    · rfl

/-! ## Bounds -/

section Bounds

variable {path : CStr} {pathlen : Nat} {stack : List Name} {i : Nat} {st : SanitizeState}

/-- Inside the path and the `pathlen + 1` cells. -/
abbrev Inside (path : CStr) (pathlen : Nat) : SanitizeEvent → Prop :=
  SanitizeEvent.InBounds path.length (pathlen + 1)

theorem compareTokenLogged_inBounds (htoken : st.token + st.tokenLen ≤ path.length) (s : CStr) :
    (compareTokenLogged path st s).Logs (Inside path pathlen) := by
  apply Logged.Logs.steps
  intro event hevent
  obtain ⟨j, hj, rfl⟩ := List.mem_map.mp hevent
  have hlt := List.mem_range.mp hj
  exact (by omega : st.token + j ≤ path.length)

theorem sanitizeBacktrackLogged_inBounds (result : Buffer) {n : Nat} (hn : n ≤ pathlen + 1) :
    (sanitizeBacktrackLogged result n).Logs (Inside path pathlen) := by
  induction n with
  | zero => exact .pure 0
  | succ n ih =>
    rw [sanitizeBacktrackLogged]
    split_ifs
    · refine Logged.Logs.step_bind (by omega : (n : Int) < pathlen + 1) fun c _ => ?_
      split_ifs
      · exact Logged.Logs.step_bind (Nat.succ_pos n) fun _ _ => ih (by omega)
      · exact .pure _
    · exact .pure _

theorem sanitizeBacktrack_pos (result : Buffer) {n : Nat} (hn : 1 ≤ n) :
    1 ≤ sanitizeBacktrack result n := by
  induction n with
  | zero => exact absurd hn (by decide)
  | succ n ih =>
    rw [sanitizeBacktrack]
    split_ifs with h
    · exact ih (by omega)
    · exact Nat.succ_pos n

theorem sanitizeSlashLogged_inBounds {result : Buffer} {resultLen : Nat}
    (hlen : resultLen ≤ pathlen) :
    (sanitizeSlashLogged result resultLen).Logs (Inside path pathlen) := by
  have hwrite : (resultLen : Int) < pathlen + 1 := by omega
  have hread : ((resultLen - 1 : Nat) : Int) < pathlen + 1 := by omega
  unfold sanitizeSlashLogged
  refine Logged.Logs.step_bind hread fun c _ => ?_
  split_ifs
  · exact Logged.Logs.step_bind hwrite fun _ _ => .pure _
  · exact .pure _

theorem copyTokenLogged_inBounds (htoken : st.token + st.tokenLen ≤ path.length) (result : Buffer)
    {resultLen : Nat} (hlen : resultLen + st.tokenLen ≤ pathlen) :
    (copyTokenLogged path st result resultLen).Logs (Inside path pathlen) := by
  apply Logged.Logs.steps
  intro event hevent
  obtain ⟨j, hj, hj'⟩ := List.mem_flatMap.mp hevent
  have hlt := List.mem_range.mp hj
  rcases List.mem_pair.mp hj' with rfl | rfl
  · exact (by omega : st.token + j ≤ path.length)
  · exact (by omega : ((resultLen + j : Nat) : Int) < pathlen + 1)

theorem sanitizeTokenLogged_inBounds (h : SanitizeInv path pathlen stack i st)
    (hi : i ≤ pathlen) : (sanitizeTokenLogged path st).Logs (Inside path pathlen) := by
  have hidx := h.index
  have hwithin := h.within
  have htoken : st.token + st.tokenLen ≤ path.length := by omega
  have hlen : st.resultLen ≤ pathlen := by
    have hpos := h.token_pos
    exact h.resultLen_le (by omega) (by omega)
  unfold sanitizeTokenLogged
  dsimp only
  by_cases hempty : st.tokenLen = 0
  · rw [if_pos hempty]
    exact .pure _
  rw [if_neg hempty]
  refine (compareTokenLogged_inBounds htoken _).bind fun dot hdot => ?_
  obtain rfl := Except.ok.inj hdot
  split_ifs with hdot
  · exact .pure _
  refine (compareTokenLogged_inBounds htoken _).bind fun dotdot hdotdot => ?_
  obtain rfl := Except.ok.inj hdotdot
  split_ifs with hdotdot
  · -- the way back
    refine (sanitizeBacktrackLogged_inBounds _ (by omega)).bind fun n hn => ?_
    rw [sanitizeBacktrackLogged_result] at hn
    obtain rfl := Except.ok.inj hn
    have hpos := sanitizeBacktrack_pos st.result h.resultLen_pos
    exact Logged.Logs.step_bind hpos fun _ _ => .pure _
  · -- a name is appended
    have hvalid := h.validName hi (not_or.mpr ⟨hempty, hdot⟩) hdotdot
    obtain ⟨result, resultLen, hslash, -, -, -, hle⟩ := append_name h hi ⟨_, hvalid⟩ rfl
    rw [h.length_token hi] at hle
    refine (sanitizeSlashLogged_inBounds hlen).bind fun slashed hslashed => ?_
    rw [sanitizeSlashLogged_result, hslash] at hslashed
    obtain rfl := Except.ok.inj hslashed
    exact (copyTokenLogged_inBounds htoken _ (hle.trans hi)).bind fun _ _ => .pure _

theorem sanitizeStepLogged_inBounds (h : SanitizeInv path pathlen stack i st)
    (hi : i ≤ pathlen) : (sanitizeStepLogged path i st).Logs (Inside path pathlen) := by
  unfold sanitizeStepLogged
  refine Logged.Logs.step_bind (hi.trans h.within) fun nextChar _ => ?_
  split_ifs
  · refine (sanitizeTokenLogged_inBounds h hi).bind fun st' hst' => ?_
    obtain ⟨st'', htoken, hholds, -, -⟩ := sanitizeToken_push h hi
    rw [sanitizeTokenLogged_result, htoken] at hst'
    obtain rfl := Except.ok.inj hst'
    exact Logged.Logs.step_bind hholds.resultLen_pos fun _ _ => .pure _
  · exact Logged.Logs.step_bind h.resultLen_pos fun _ _ => .pure _

theorem sanitizeLoopLogged_inBounds (rounds : Nat) (h : SanitizeInv path pathlen stack i st)
    (hi : i + rounds = pathlen + 1) :
    (sanitizeLoopLogged path rounds i st).Logs (Inside path pathlen) := by
  induction rounds generalizing i stack st with
  | zero => exact .pure _
  | succ rounds ih =>
    rw [sanitizeLoopLogged]
    refine (sanitizeStepLogged_inBounds h (by omega)).bind fun st' hst' => ?_
    obtain ⟨st'', stack', hstep, hinv, -⟩ := sanitizeStep_normalizes h (by omega)
    rw [sanitizeStepLogged_result, hstep] at hst'
    obtain rfl := Except.ok.inj hst'
    exact ih hinv (by omega)

theorem sanitizeIntoLogged_inBounds (hpos : 0 < pathlen) (hwithin : pathlen ≤ path.length)
    {result : Buffer} (hsize : result.length = pathlen + 1) :
    (sanitizeIntoLogged path result).Logs (Inside path pathlen) := by
  have hrounds : result.length - 1 = pathlen := by omega
  unfold sanitizeIntoLogged
  rw [hrounds]
  refine Logged.Logs.step_bind (by omega : ((0 : Nat) : Int) < pathlen + 1) fun b hb => ?_
  obtain ⟨b', hwrite, hinv⟩ := SanitizeInv.start hwithin hsize
  rw [hwrite] at hb
  obtain rfl := Except.ok.inj hb
  refine (sanitizeLoopLogged_inBounds pathlen hinv (Nat.add_comm 1 _)).bind fun st hst => ?_
  obtain ⟨st', hloop, hinv'⟩ := sanitizeLoop_normalizes pathlen hinv (Nat.add_comm 1 _)
  rw [sanitizeLoopLogged_result, hloop] at hst
  obtain rfl := Except.ok.inj hst
  have hlast := hinv'.resultLen_le (Nat.le_refl _) hpos
  exact Logged.Logs.step_bind (by omega : (st'.resultLen : Int) < pathlen + 1) fun _ _ => .pure _

end Bounds

/-! ## The whole function -/

/-- The accesses are in the bounds of what is read and of what is allocated, and the run comes
back. -/
structure StaysInside (path : CStr) (run : SanitizeLogged (Option CStr)) : Prop where
  returns : ∃ output, run.result = .ok output
  log : ∀ event ∈ run.log, event.InBounds path.length (intLength path + 1)

/-- Only a buffer that is neither empty nor as small as the slash can be written, and only a length
that can be counted up gives one. -/
theorem StaysInside.lengths {path : CStr} (habs : isAbsolutePath path = true)
    (h : StaysInside path (sanitizeAbsolutePathLogged path true)) :
    intLength path + 1 < 2 ^ 31 ∧ (1 ≤ intLength path ∨ intLength path + 1 < 0) := by
  have hlow : -2 ^ 31 ≤ intLength path := BitVec.le_toInt _
  obtain ⟨output, hresult⟩ := h.returns
  rw [sanitizeAbsolutePathLogged_eq habs] at hresult
  have hfits : intLength path + 1 < 2 ^ 31 := by
    by_contra hwide
    rw [checkInt, if_neg (fun hcheck => hwide hcheck.2)] at hresult
    exact absurd hresult (by simp [bind, Except.bind])
  refine ⟨hfits, ?_⟩
  by_contra hsmall
  obtain ⟨hpos, hneg⟩ := not_or.mp hsmall
  have hsize : decide (0 ≤ intLength path + 1) = true := by simp; omega
  rw [checkInt_ok (by omega) hfits, Run.ok_bind, allocate, hsize, Bool.and_self,
    if_pos rfl] at hresult
  have hinto : sanitizeInto path (List.replicate (intLength path + 1).toNat none) = none :=
    sanitizeInto_small (by rw [List.length_replicate]; omega)
  dsimp only at hresult
  rw [hinto] at hresult
  exact absurd hresult (by simp [Run.ofOption])

/-- A buffer that is allocated has a place for every character that is read. -/
theorem length_allocate {path : CStr} (hlengths : 1 ≤ intLength path ∨ intLength path + 1 < 0)
    {haveMemory : Bool} {result : Buffer}
    (hresult : allocate (intLength path + 1) haveMemory = some result) :
    ∃ pathlen : Nat, 0 < pathlen ∧ pathlen ≤ path.length ∧ intLength path = pathlen ∧
      result.length = pathlen + 1 := by
  unfold allocate at hresult
  split_ifs at hresult with hsize
  have hnonneg : 0 ≤ intLength path + 1 := by simpa using ((Bool.and_eq_true _ _).mp hsize).2
  have hlength : 1 ≤ intLength path := by omega
  obtain ⟨hpos, hwithin⟩ := toNat_intLength hlength
  refine ⟨(intLength path).toNat, hpos, hwithin, by omega, ?_⟩
  rw [← Option.some.inj hresult, List.length_replicate]
  omega

/-- With one the bounds are kept; without one nothing is accessed but the path. -/
theorem StaysInside.of_lengths {path : CStr} (habs : isAbsolutePath path = true)
    (hfits : intLength path + 1 < 2 ^ 31)
    (hlengths : 1 ≤ intLength path ∨ intLength path + 1 < 0) (haveMemory : Bool) :
    StaysInside path (sanitizeAbsolutePathLogged path haveMemory) := by
  have hlow : -2 ^ 31 ≤ intLength path := BitVec.le_toInt _
  have hstrlen : ∀ event ∈ (List.range (path.length + 1)).map SanitizeEvent.readPath,
      event.InBounds path.length (intLength path + 1) := by
    intro event hevent
    obtain ⟨j, hj, rfl⟩ := List.mem_map.mp hevent
    exact Nat.le_of_lt_succ (List.mem_range.mp hj)
  have hcheck : checkInt (intLength path + 1) = .ok (intLength path + 1) :=
    checkInt_ok (by omega) hfits
  constructor
  · rw [sanitizeAbsolutePathLogged_eq habs, hcheck, Run.ok_bind]
    cases hallocate : allocate (intLength path + 1) haveMemory with
    | none => exact ⟨none, rfl⟩
    | some result =>
      obtain ⟨pathlen, hpos, hwithin, -, hlength⟩ := length_allocate hlengths hallocate
      refine ⟨some (absPath (Paths.normalize (componentsRead path pathlen))), ?_⟩
      dsimp only
      rw [(sanitizeInto_eq hpos hwithin hlength).1]
      rfl
  · unfold sanitizeAbsolutePathLogged
    simp only [habs, Bool.not_true, Bool.false_eq_true, if_false]
    refine Logged.Logs.step_bind (Nat.zero_le _) fun _ _ => ?_
    refine (Logged.Logs.steps hstrlen).bind fun _ _ => ?_
    refine Logged.Logs.bind (fun _ h => absurd h List.not_mem_nil) fun size hsize => ?_
    obtain rfl := Except.ok.inj (hcheck.symm.trans hsize)
    cases hallocate : allocate (intLength path + 1) haveMemory with
    | none => exact .pure none
    | some result =>
      obtain ⟨pathlen, hpos, hwithin, hlen, hlength⟩ := length_allocate hlengths hallocate
      refine Logged.Logs.bind ?_ fun _ _ => .pure _
      rw [hlen]
      exact sanitizeIntoLogged_inBounds hpos hwithin hlength

/-- The bounds are kept if and only if the length can be counted up, and the buffer is neither
empty nor as small as the slash. -/
theorem sanitizeAbsolutePathLogged_inside_iff {path : CStr} (habs : isAbsolutePath path = true) :
    (∀ haveMemory, StaysInside path (sanitizeAbsolutePathLogged path haveMemory)) ↔
      intLength path + 1 < 2 ^ 31 ∧ (1 ≤ intLength path ∨ intLength path + 1 < 0) := by
  constructor
  · intro h
    exact (h true).lengths habs
  · rintro ⟨hfits, hlengths⟩ haveMemory
    exact .of_lengths habs hfits hlengths haveMemory

/-- `sanitize_path` keeps the bounds: the concatenation with its terminator is the whole array that
is there for it, and from then on no access leaves what it is made to. -/
structure SanitizesInside (cwd path : CStr) : Prop where
  join : isAbsolutePath path = false →
    sanitizeJoin cwd path = some (toBuffer (joinedPath cwd path))
  inside : ∀ haveMemory,
    StaysInside (joinedPath cwd path) (sanitizePathLogged cwd path haveMemory)

/-- On an absolute path it is the length that decides. -/
theorem sanitizesInside_absolute (cwd : CStr) {path : CStr} (hpath : isAbsolutePath path = true) :
    SanitizesInside cwd path ↔
      intLength path + 1 < 2 ^ 31 ∧ (1 ≤ intLength path ∨ intLength path + 1 < 0) := by
  have hjoined : joinedPath cwd path = path := if_pos hpath
  have hlogged : sanitizePathLogged cwd path = sanitizeAbsolutePathLogged path := by
    funext haveMemory
    unfold sanitizePathLogged
    simp only [hpath, Bool.not_true, Bool.false_eq_true, if_false]
  rw [← sanitizeAbsolutePathLogged_inside_iff hpath]
  constructor
  · intro h
    have hinside := h.inside
    rwa [hjoined, hlogged] at hinside
  · intro h
    refine ⟨fun hrelative => ?_, ?_⟩
    · exact absurd hpath (by simp [hrelative])
    · rwa [hjoined, hlogged]

/-- **Bounds.** The log is that of the sanitiser; and its bounds are kept if and only if a relative
path makes no more than `2 ^ 31 - 1` bytes with the directory in front of it, and the length of an
absolute one comes out neither as `-1` or `0` nor as the largest `int`. -/
theorem sanitizePath_inside_iff (cwd path : CStr) :
    (sanitizePath cwd path =
      if isAbsolutePath (joinedPath cwd path) then do
        let haveMemory ← Exec.malloc
        Exec.checked (sanitizePathLogged cwd path haveMemory).result.toOption
      else Exec.checked (sanitizePathLogged cwd path true).result.toOption) ∧
    (SanitizesInside cwd path ↔
      if isAbsolutePath path then
        intLength path + 1 < 2 ^ 31 ∧ (1 ≤ intLength path ∨ intLength path + 1 < 0)
      else cwd.length + 1 + path.length + 1 < 2 ^ 31) := by
  refine ⟨sanitizePathLogged_result cwd path, ?_⟩
  by_cases hpath : isAbsolutePath path = true
  · rw [if_pos hpath]
    exact sanitizesInside_absolute cwd hpath
  · have hpath' : isAbsolutePath path = false := by simpa using hpath
    have hjoined : joinedPath cwd path = cwd ++ ['/'] ++ path := if_neg hpath
    have hlength : (cwd ++ ['/'] ++ path).length = cwd.length + 1 + path.length := by simp; omega
    rw [if_neg hpath, ← hlength]
    constructor
    · intro h
      have hjoin := h.join hpath'
      rw [sanitizeJoin_eq] at hjoin
      by_contra hwide
      rw [if_neg hwide] at hjoin
      exact absurd hjoin (by simp)
    · intro hfits
      have hjoin : sanitizeJoin cwd path = some (toBuffer (joinedPath cwd path)) := by
        rw [sanitizeJoin_eq, if_pos hfits, hjoined]
      refine ⟨fun _ => hjoin, fun haveMemory => ?_⟩
      have hlogged : sanitizePathLogged cwd path haveMemory =
          sanitizeAbsolutePathLogged (joinedPath cwd path) haveMemory := by
        unfold sanitizePathLogged
        simp only [hpath', Bool.not_false, if_true, hjoin]
        show sanitizeAbsolutePathLogged (cstr (toBuffer _)) haveMemory = _
        rw [cstr_toBuffer]
      rw [hlogged]
      rw [← hjoined] at hfits
      have hlen := intLength_of_lt (Nat.lt_of_succ_lt hfits)
      have hpos := List.length_pos_of_ne_nil (joinedPath_ne_nil cwd path)
      by_cases habs : isAbsolutePath (joinedPath cwd path) = true
      · exact (sanitizeAbsolutePathLogged_inside_iff habs).mpr (by rw [hlen]; omega) haveMemory
      · have habs' : isAbsolutePath (joinedPath cwd path) = false := by simpa using habs
        unfold sanitizeAbsolutePathLogged
        simp only [habs', Bool.not_false, if_true]
        exact ⟨⟨none, rfl⟩, Logged.Logs.step_bind (Nat.zero_le _) fun _ _ => .pure none⟩

/-- A path of `2 ^ 32` characters: one byte is allocated, and two are written. -/
theorem sanitizePath_outside :
    intLength (absPath [nameOf (2 ^ 32 - 1) (by decide)]) = 0 ∧
      ¬SanitizesInside [] (absPath [nameOf (2 ^ 32 - 1) (by decide)]) := by
  have hzero := intLength_nameOf (k := 2 ^ 32 - 1) (n := 0) (by decide) (by decide) (by decide)
  generalize nameOf (2 ^ 32 - 1) _ = name at hzero ⊢
  have habs : isAbsolutePath (absPath [name]) = true := (canonical_absPath _).isAbsolutePath
  refine ⟨hzero, fun h => ?_⟩
  have hinside := (sanitizesInside_absolute [] habs).mp h
  rw [hzero] at hinside
  exact absurd hinside (by decide)

end Umsftpd
