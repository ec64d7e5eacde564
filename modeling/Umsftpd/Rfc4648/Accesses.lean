import Umsftpd.Rfc4648
import Umsftpd.Systems.Logged

/-!
# What the decoder reads and writes

The decoder of `rfc4648.c` once more, with a log of the characters of `input_string` that it reads
and the bytes of `output` that it writes. Without the log it is the decoder.
-/

namespace Umsftpd

open CLib
open Systems (Logged)

/-- An access of the decoder, by its index: it reads its input and writes its output. -/
inductive Rfc4648Access where
  | read (index : Nat)
  | write (index : Nat)
  deriving DecidableEq, Repr

/-- The indices that are written to, in order. -/
def writesOf (log : List Rfc4648Access) : List Nat :=
  log.filterMap fun access => match access with
    | .read _ => none
    | .write index => some index

@[simp] theorem writesOf_append (log log' : List Rfc4648Access) :
    writesOf (log ++ log') = writesOf log ++ writesOf log' := List.filterMap_append

@[simp] theorem writesOf_reads (indices : List Nat) :
    writesOf (indices.map Rfc4648Access.read) = [] := by
  induction indices with
  | nil => rfl
  | cons index indices ih => exact ih

@[simp] theorem writesOf_writes (indices : List Nat) :
    writesOf (indices.map Rfc4648Access.write) = indices := by
  induction indices with
  | nil => rfl
  | cons index indices ih => exact congrArg (index :: ·) ih

/-! ## The decoder with its log -/

def rfc4648MapCharsLogged (inputString alphabet : CStr) (srcOffset : BitVec 32) :
    Nat → Nat → List (BitVec 32) → Logged Undefined Rfc4648Access (Option (List (BitVec 32)))
  | 0, _, mappedChars => return some mappedChars
  | remaining + 1, i, mappedChars => do
    let index := (srcOffset + BitVec.ofNat 32 i).toNat
    match ← Logged.step (.read index) (readAt (toBuffer inputString) index) with
    | none => return some mappedChars
    | some c =>
      if c = rfc4648PaddingChar then return some mappedChars
      match alphabet.idxOf? c with
      | none => return none
      | some sub =>
        rfc4648MapCharsLogged inputString alphabet srcOffset remaining (i + 1)
          (mappedChars.set i (BitVec.ofNat 32 sub))

def rfc4648StoreBytesLogged (bufsize : BitVec 32) (mappedChars : List (BitVec 32)) :
    Nat → Nat → Rfc4648State → Logged Undefined Rfc4648Access Rfc4648Round
  | 0, _, st => return .next { st with srcOffset := st.srcOffset + 8 }
  | remaining + 1, i, st =>
    match rfc4648Byte mappedChars i with
    | none => return .returned true st.output
    | some next => do
      if st.dstOffset ≥ bufsize then return .returned false st.output
      let output ← Logged.step (.write st.dstOffset.toNat)
        (writeAt st.output st.dstOffset.toNat next)
      rfc4648StoreBytesLogged bufsize mappedChars remaining (i + 1)
        { st with output := output, dstOffset := st.dstOffset + 1 }

def rfc4648DecodeRoundLogged (bufsize : BitVec 32) (inputString alphabet : CStr)
    (st : Rfc4648State) : Logged Undefined Rfc4648Access Rfc4648Round := do
  match ← rfc4648MapCharsLogged inputString alphabet st.srcOffset 8 0 (List.replicate 8 (-1)) with
  | none => return .returned false st.output
  | some mappedChars => rfc4648StoreBytesLogged bufsize mappedChars 5 0 st

def rfc4648DecodeRoundsLogged (bufsize : BitVec 32) (inputString alphabet : CStr) :
    Nat → Rfc4648State → Option (Logged Undefined Rfc4648Access (Bool × List Byte))
  | 0, _ => none
  | rounds + 1, st =>
    match rfc4648DecodeRoundLogged bufsize inputString alphabet st with
    | ⟨log, .error undefined⟩ => some ⟨log, .error undefined⟩
    | ⟨log, .ok (.returned ok output)⟩ => some ⟨log, .ok (ok, output)⟩
    | ⟨log, .ok (.next st)⟩ =>
      (rfc4648DecodeRoundsLogged bufsize inputString alphabet rounds st).map fun more =>
        ⟨log ++ more.log, more.result⟩

def rfc4648DecodeBase32MultiLogged (output : List Byte) (bufsize : BitVec 32)
    (inputString alphabet : CStr) :
    Option (Logged Undefined Rfc4648Access (Bool × List Byte)) :=
  rfc4648DecodeRoundsLogged bufsize inputString alphabet (bufsize.toNat + 1) ⟨output, 0, 0⟩

/-! ## Without the log -/

theorem rfc4648MapCharsLogged_result (inputString alphabet : CStr) (srcOffset : BitVec 32)
    (remaining i : Nat) (mappedChars : List (BitVec 32)) :
    (rfc4648MapCharsLogged inputString alphabet srcOffset remaining i mappedChars).result =
      rfc4648MapChars inputString alphabet srcOffset remaining i mappedChars := by
  induction remaining generalizing i mappedChars with
  | zero => rfl
  | succ remaining ih =>
    rw [rfc4648MapCharsLogged, rfc4648MapChars, Logged.result_bind, Logged.result_step]
    congr 1
    funext cell
    cases cell with
    | none => rfl
    | some c =>
      dsimp only
      split
      · rfl
      · cases alphabet.idxOf? c with
        | none => rfl
        | some sub => exact ih _ _

theorem rfc4648StoreBytesLogged_result (bufsize : BitVec 32) (mappedChars : List (BitVec 32))
    (remaining i : Nat) (st : Rfc4648State) :
    (rfc4648StoreBytesLogged bufsize mappedChars remaining i st).result =
      rfc4648StoreBytes bufsize mappedChars remaining i st := by
  induction remaining generalizing i st with
  | zero => rfl
  | succ remaining ih =>
    rw [rfc4648StoreBytesLogged, rfc4648StoreBytes]
    cases rfc4648Byte mappedChars i with
    | none => rfl
    | some next =>
      dsimp only
      split
      · rfl
      · rw [Logged.result_bind, Logged.result_step]
        congr 1
        funext output
        exact ih _ _

theorem rfc4648DecodeRoundLogged_result (bufsize : BitVec 32) (inputString alphabet : CStr)
    (st : Rfc4648State) :
    (rfc4648DecodeRoundLogged bufsize inputString alphabet st).result =
      rfc4648DecodeRound bufsize inputString alphabet st := by
  unfold rfc4648DecodeRoundLogged rfc4648DecodeRound
  rw [Logged.result_bind, rfc4648MapCharsLogged_result]
  congr 1
  funext mappedChars
  cases mappedChars with
  | none => rfl
  | some mappedChars => exact rfc4648StoreBytesLogged_result _ _ _ _ _

theorem rfc4648DecodeRoundsLogged_result (bufsize : BitVec 32) (inputString alphabet : CStr)
    (rounds : Nat) (st : Rfc4648State) :
    (rfc4648DecodeRoundsLogged bufsize inputString alphabet rounds st).map Logged.result =
      rfc4648DecodeRounds bufsize inputString alphabet rounds st := by
  induction rounds generalizing st with
  | zero => rfl
  | succ rounds ih =>
    rw [rfc4648DecodeRoundsLogged, rfc4648DecodeRounds, ← rfc4648DecodeRoundLogged_result]
    obtain ⟨log, result⟩ := rfc4648DecodeRoundLogged bufsize inputString alphabet st
    match result with
    | .error undefined => rfl
    | .ok (.returned ok output) => rfl
    | .ok (.next st) =>
      dsimp only
      rw [Option.map_map, ← ih]
      rfl

/-- The log is all that is added to the decoder. -/
theorem rfc4648DecodeBase32MultiLogged_result (output : List Byte) (bufsize : BitVec 32)
    (inputString alphabet : CStr) :
    (rfc4648DecodeBase32MultiLogged output bufsize inputString alphabet).map Logged.result =
      rfc4648DecodeBase32Multi output bufsize inputString alphabet :=
  rfc4648DecodeRoundsLogged_result _ _ _ _ _

end Umsftpd
