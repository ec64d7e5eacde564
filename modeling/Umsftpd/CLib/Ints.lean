import Umsftpd.CLib.CString

/-!
# Integers of C

Signed integers are `Int` with a check where an operation may overflow, unsigned ones are bit
vectors and wrap around. `Run` is the result of code that may meet undefined behaviour on the way.
-/

namespace Umsftpd.CLib

/-- What leaves the behaviour undefined. -/
inductive Undefined where
  | signedOverflow
  | divisionByZero
  | outOfBounds
  deriving DecidableEq, Repr

abbrev Run := Except Undefined

@[simp] theorem Run.ok_bind {α β : Type} (a : α) (f : α → Run β) :
    ((Except.ok a : Run α) >>= f) = f a := rfl

/-- The value of an `int` expression. -/
def checkInt (x : Int) : Run Int :=
  if -2 ^ 31 ≤ x ∧ x < 2 ^ 31 then .ok x else .error .signedOverflow

/-- The value of a `time_t` or `long` expression. -/
def checkLong (x : Int) : Run Int :=
  if -2 ^ 63 ≤ x ∧ x < 2 ^ 63 then .ok x else .error .signedOverflow

/-- Signed division cuts the fraction off. -/
def signedDiv (x y : Int) : Run Int :=
  if y = 0 then .error .divisionByZero else .ok (x.tdiv y)

def unsignedDiv {w : Nat} (x y : BitVec w) : Run (BitVec w) :=
  if y = 0 then .error .divisionByZero else .ok (x / y)

def unsignedMod {w : Nat} (x y : BitVec w) : Run (BitVec w) :=
  if y = 0 then .error .divisionByZero else .ok (x % y)

/-- Read an array. -/
def readAt {α : Type} (xs : List α) (i : Nat) : Run α :=
  match xs[i]? with
  | none => .error .outOfBounds
  | some x => .ok x

/-- Store into an array. -/
def writeAt {α : Type} (xs : List α) (i : Nat) (x : α) : Run (List α) :=
  if i < xs.length then .ok (xs.set i x) else .error .outOfBounds

theorem checkInt_ok {x : Int} (h : -2 ^ 31 ≤ x) (h' : x < 2 ^ 31) : checkInt x = .ok x :=
  if_pos ⟨h, h'⟩

theorem checkInt_eq_ok {x y : Int} : checkInt x = .ok y ↔ x = y ∧ -2 ^ 31 ≤ x ∧ x < 2 ^ 31 := by
  unfold checkInt
  split
  · next hfits => exact ⟨fun h => ⟨Except.ok.inj h, hfits⟩, fun h => congrArg _ h.1⟩
  · next hwide => exact iff_of_false (by simp) fun h => hwide h.2

theorem checkLong_ok {x : Int} (h : -2 ^ 63 ≤ x) (h' : x < 2 ^ 63) : checkLong x = .ok x :=
  if_pos ⟨h, h'⟩

theorem signedDiv_ok (x : Int) {y : Int} (h : y ≠ 0) : signedDiv x y = .ok (x.tdiv y) := if_neg h

theorem unsignedDiv_ok {w : Nat} (x : BitVec w) {y : BitVec w} (h : y ≠ 0) :
    unsignedDiv x y = .ok (x / y) := if_neg h

theorem unsignedMod_ok {w : Nat} (x : BitVec w) {y : BitVec w} (h : y ≠ 0) :
    unsignedMod x y = .ok (x % y) := if_neg h

theorem readAt_ok {α : Type} {xs : List α} {i : Nat} (h : i < xs.length) :
    readAt xs i = .ok xs[i] := by
  unfold readAt
  rw [List.getElem?_eq_getElem h]

theorem readAt_getElem? {α : Type} {xs : List α} {i : Nat} {x : α} (h : xs[i]? = some x) :
    readAt xs i = .ok x := by
  unfold readAt
  rw [h]

theorem writeAt_ok {α : Type} {xs : List α} {i : Nat} (h : i < xs.length) (x : α) :
    writeAt xs i x = .ok (xs.set i x) := if_pos h

/-! ## Lengths -/

/-- The length of a string as an `int`. -/
def intLength (pass : CStr) : Int := (BitVec.ofNat 32 pass.length).toInt

theorem intLength_of_mod {pass : CStr} {n : Nat} (h : pass.length % 2 ^ 32 = n) (hn : n < 2 ^ 31) :
    intLength pass = n := by
  unfold intLength
  rw [BitVec.toInt_eq_toNat_of_lt] <;> rw [BitVec.toNat_ofNat, h]
  omega

theorem intLength_of_lt {pass : CStr} (h : pass.length < 2 ^ 31) :
    intLength pass = pass.length := intLength_of_mod (Nat.mod_eq_of_lt (by omega)) h

/-- What is not negative of a length is a length within the string. -/
theorem intLength_eq {pass : CStr} (h : 0 ≤ intLength pass) :
    ∃ n, n ≤ pass.length ∧ intLength pass = n := by
  refine ⟨pass.length % 2 ^ 32, Nat.mod_le _ _, ?_⟩
  unfold intLength at h ⊢
  rw [BitVec.toInt_eq_toNat_cond] at h ⊢
  split_ifs at h ⊢
  · rw [BitVec.toNat_ofNat]
  · have hlt := (BitVec.ofNat 32 pass.length).isLt
    omega

/-! ## Bytes -/

abbrev Byte := BitVec 8

inductive ByteOrder where
  | littleEndian | bigEndian
  deriving DecidableEq, Repr

/-- The eight bytes of a word, the least significant first. -/
def bytesOf (x : BitVec 64) : List Byte :=
  [x.extractLsb' 0 8, x.extractLsb' 8 8, x.extractLsb' 16 8, x.extractLsb' 24 8,
    x.extractLsb' 32 8, x.extractLsb' 40 8, x.extractLsb' 48 8, x.extractLsb' 56 8]

/-- A word as it lies in memory. -/
def ByteOrder.store (order : ByteOrder) (x : BitVec 64) : List Byte :=
  match order with
  | littleEndian => bytesOf x
  | bigEndian => (bytesOf x).reverse

/-- `bswap_64`. -/
def bswap64 (x : BitVec 64) : BitVec 64 :=
  x.extractLsb' 0 8 ++ x.extractLsb' 8 8 ++ x.extractLsb' 16 8 ++ x.extractLsb' 24 8 ++
    x.extractLsb' 32 8 ++ x.extractLsb' 40 8 ++ x.extractLsb' 48 8 ++ x.extractLsb' 56 8

/-- `snprintf("%0*d", width, x)`, without a limit. -/
def zeroPadded (width : Nat) (x : Int) : CStr :=
  let digits := Nat.toDigits 10 x.natAbs
  if x < 0 then '-' :: digits.leftpad (width - 1) '0' else digits.leftpad width '0'

/-- Padded text has the width that is asked for, if the number fits into it. -/
theorem length_zeroPadded {width n : Nat} (hwidth : 0 < width) (hn : n < 10 ^ width) :
    (zeroPadded width n).length = width := by
  have hdigits : (Nat.toDigits 10 n).length ≤ width :=
    (Nat.length_toDigits_le_iff (by decide) hwidth).mpr hn
  unfold zeroPadded
  dsimp only
  rw [if_neg (Int.not_lt.mpr (Int.natCast_nonneg n)), List.length_leftpad, Int.natAbs_natCast]
  exact Nat.max_eq_left hdigits

end Umsftpd.CLib
