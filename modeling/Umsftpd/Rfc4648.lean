import Umsftpd.CLib.Ints

/-!
# Base 32 decoding (`rfc4648.c`)

The outer loop takes eight characters at a time until one of the five bytes they stand for is not
complete. Offsets are `unsigned int` and wrap around.
-/

namespace Umsftpd

open CLib

def rfc4648PaddingChar : Char := '='

/-- The loop of `rfc4648_base32_size`, which is not entered with a negative length. -/
def rfc4648Base32SizeLoop (inputString : CStr) : Nat → Run Nat
  | 0 => return 0
  | length + 1 => do
    if (← readAt (toBuffer inputString) length) = some rfc4648PaddingChar then
      rfc4648Base32SizeLoop inputString length
    else
      return length + 1

/-- `rfc4648_base32_size`; the length is an `int` until it is returned. -/
def rfc4648Base32Size (inputString : CStr) : Run (BitVec 32) := do
  let length := intLength inputString
  if length > 0 then
    return BitVec.ofNat 32 (← rfc4648Base32SizeLoop inputString length.toNat)
  else
    return BitVec.ofInt 32 length

/-- The locals of `rfc4648_decode_base32_multi` that live from one round of the outer loop to the
next, and the buffer behind `output`. -/
structure Rfc4648State where
  output : List Byte
  srcOffset : BitVec 32
  dstOffset : BitVec 32

/-- What a round of the outer loop comes to: the function returns, or the next round follows. -/
inductive Rfc4648Round where
  | returned (ok : Bool) (output : List Byte)
  | next (st : Rfc4648State)

/-- The loop over the characters of a group, from `i` on; there is no result where a character is
foreign to the alphabet. -/
def rfc4648MapChars (inputString alphabet : CStr) (srcOffset : BitVec 32) :
    Nat → Nat → List (BitVec 32) → Run (Option (List (BitVec 32)))
  | 0, _, mappedChars => return some mappedChars
  | remaining + 1, i, mappedChars => do
    match ← readAt (toBuffer inputString) (srcOffset + BitVec.ofNat 32 i).toNat with
    | none => return some mappedChars
    | some c =>
      if c = rfc4648PaddingChar then return some mappedChars
      -- strchr(alphabet, c) - alphabet
      match alphabet.idxOf? c with
      | none => return none
      | some sub =>
        rfc4648MapChars inputString alphabet srcOffset remaining (i + 1)
          (mappedChars.set i (BitVec.ofNat 32 sub))

/-- Byte `i` of a group, if all the characters it has bits in are there. -/
def rfc4648Byte (mappedChars : List (BitVec 32)) (i : Nat) : Option Byte :=
  let c := fun j => mappedChars.getD j (-1)
  if i = 0 ∧ c 0 ≠ -1 ∧ c 1 ≠ -1 then
    some ((c 0 <<< 3 ||| c 1 >>> 2).setWidth 8)
  else if i = 1 ∧ c 1 ≠ -1 ∧ c 2 ≠ -1 ∧ c 3 ≠ -1 then
    some ((c 1 <<< 6 ||| c 2 <<< 1 ||| c 3 >>> 4).setWidth 8)
  else if i = 2 ∧ c 3 ≠ -1 ∧ c 4 ≠ -1 then
    some ((c 3 <<< 4 ||| c 4 >>> 1).setWidth 8)
  else if i = 3 ∧ c 4 ≠ -1 ∧ c 5 ≠ -1 ∧ c 6 ≠ -1 then
    some ((c 4 <<< 7 ||| c 5 <<< 2 ||| c 6 >>> 3).setWidth 8)
  else if i = 4 ∧ c 6 ≠ -1 ∧ c 7 ≠ -1 then
    some ((c 6 <<< 5 ||| c 7 >>> 0).setWidth 8)
  else none

/-- The loop over the bytes of a group, from `i` on. -/
def rfc4648StoreBytes (bufsize : BitVec 32) (mappedChars : List (BitVec 32)) :
    Nat → Nat → Rfc4648State → Run Rfc4648Round
  | 0, _, st => return .next { st with srcOffset := st.srcOffset + 8 }
  | remaining + 1, i, st =>
    match rfc4648Byte mappedChars i with
    | none => return .returned true st.output
    | some next => do
      if st.dstOffset ≥ bufsize then return .returned false st.output
      let output ← writeAt st.output st.dstOffset.toNat next
      rfc4648StoreBytes bufsize mappedChars remaining (i + 1)
        { st with output := output, dstOffset := st.dstOffset + 1 }

def rfc4648DecodeRound (bufsize : BitVec 32) (inputString alphabet : CStr) (st : Rfc4648State) :
    Run Rfc4648Round := do
  match ← rfc4648MapChars inputString alphabet st.srcOffset 8 0 (List.replicate 8 (-1)) with
  | none => return .returned false st.output
  | some mappedChars => rfc4648StoreBytes bufsize mappedChars 5 0 st

/-- At most that many rounds of the outer loop; there is no result if more follow. -/
def rfc4648DecodeRounds (bufsize : BitVec 32) (inputString alphabet : CStr) :
    Nat → Rfc4648State → Option (Run (Bool × List Byte))
  | 0, _ => none
  | rounds + 1, st =>
    match rfc4648DecodeRound bufsize inputString alphabet st with
    | .error undefined => some (.error undefined)
    | .ok (.returned ok output) => some (.ok (ok, output))
    | .ok (.next st) => rfc4648DecodeRounds bufsize inputString alphabet rounds st

/-- `rfc4648_decode_base32_multi`, with the buffer as it is left. A round that is followed by
another one stores five bytes, so there is no room for more rounds than this. -/
def rfc4648DecodeBase32Multi (output : List Byte) (bufsize : BitVec 32)
    (inputString alphabet : CStr) : Option (Run (Bool × List Byte)) :=
  rfc4648DecodeRounds bufsize inputString alphabet (bufsize.toNat + 1) ⟨output, 0, 0⟩

def base32hexAlphabet : CStr := "0123456789ABCDEFGHIJKLMNOPQRSTUV".toList

def base32Alphabet : CStr := "ABCDEFGHIJKLMNOPQRSTUVWXYZ234567".toList

def rfc4648DecodeBase32hex (output : List Byte) (bufsize : BitVec 32) (inputString : CStr) :
    Option (Run (Bool × List Byte)) :=
  rfc4648DecodeBase32Multi output bufsize inputString base32hexAlphabet

def rfc4648DecodeBase32 (output : List Byte) (bufsize : BitVec 32) (inputString : CStr) :
    Option (Run (Bool × List Byte)) :=
  rfc4648DecodeBase32Multi output bufsize inputString base32Alphabet

end Umsftpd
