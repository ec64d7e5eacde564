import Umsftpd.Rfc6238

/-!
# Passwords (`passdb.c`)

An entry stores what a key derivation function makes of the passphrase, and it may ask for a
one-time password at the end of the passphrase. The passphrase goes to the derivation with its
length, which is a `size_t` first, an `unsigned int` then and an `int` in the library.
-/

namespace Umsftpd

open CLib

inductive PassdbKdf where
  | none | pbkdf2Sha256 | scrypt
  deriving DecidableEq, Repr

def passdbSaltSizeBytes : Nat := 16
def passdbPassSizeBytes : Nat := 32

/-- `union passdb_kdf_params_t`: the parameters of scrypt, the first of which lies where PBKDF2 has
its iterations. -/
structure PassdbKdfParams where
  N : BitVec 32
  r : BitVec 32
  p : BitVec 32
  maxmemMib : BitVec 32

def PassdbKdfParams.iterations (params : PassdbKdfParams) : BitVec 32 := params.N

abbrev PassdbDigest := Vector Byte passdbPassSizeBytes

/-- `struct passdb_entry_t`. -/
structure PassdbEntry where
  kdf : PassdbKdf
  params : PassdbKdfParams
  salt : Vector Byte passdbSaltSizeBytes
  hash : PassdbDigest
  totp : Option Rfc6238Config
  totpWindowSize : BitVec 32

variable (ssl : OpenSsl)

/-! ## Deriving keys

The derivation functions take the array for the digest and give it back, filled where they fill it;
there is none where they return `false`. -/

def passdbDeriveNone (_entry : PassdbEntry) (_passphrase : CStr) (_passphraseLength : BitVec 32)
    (digest : PassdbDigest) : Option PassdbDigest :=
  some digest

def passdbDerivePbkdf2Sha256 (entry : PassdbEntry) (passphrase : CStr)
    (passphraseLength : BitVec 32) (_digest : PassdbDigest) : Option PassdbDigest :=
  ssl.pkcs5Pbkdf2Hmac passphrase passphraseLength.toInt entry.salt.toList
    entry.params.iterations.toInt .sha256 passdbPassSizeBytes

/-- The calls of `passdb_derive_scrypt`, with the length as the library takes it. -/
def scryptCalls (entry : PassdbEntry) (passphrase : CStr) (passlen : Int) :
    Option PassdbDigest := do
  let pctx ← ssl.pkeyCtxNew
  let pctx ← ssl.deriveInit pctx
  let pctx ← ssl.setPbePass pctx passphrase passlen
  let pctx ← ssl.setScryptSalt pctx entry.salt.toList
  let pctx ← ssl.setScryptN pctx (entry.params.N.setWidth 64)
  let pctx ← ssl.setScryptR pctx (entry.params.r.setWidth 64)
  let pctx ← ssl.setScryptP pctx (entry.params.p.setWidth 64)
  let pctx ← ssl.setScryptMaxmemBytes pctx ((entry.params.maxmemMib * 1024 * 1024).setWidth 64)
  ssl.derive pctx passdbPassSizeBytes

def passdbDeriveScrypt (entry : PassdbEntry) (passphrase : CStr) (passphraseLength : BitVec 32)
    (_digest : PassdbDigest) : Option PassdbDigest :=
  scryptCalls ssl entry passphrase passphraseLength.toInt

def passdbDerive (entry : PassdbEntry) (passphrase : CStr) (passphraseLength : BitVec 32)
    (digest : PassdbDigest) : Option PassdbDigest :=
  match entry.kdf with
  | .none => passdbDeriveNone entry passphrase passphraseLength digest
  | .pbkdf2Sha256 => passdbDerivePbkdf2Sha256 ssl entry passphrase passphraseLength digest
  | .scrypt => passdbDeriveScrypt ssl entry passphrase passphraseLength digest

/-! ## Creating entries -/

/-- `default_params`. -/
def defaultParams : PassdbKdf → PassdbKdfParams
  | .none => ⟨0, 0, 0, 0⟩
  | .pbkdf2Sha256 => ⟨140845, 0, 0, 0⟩
  | .scrypt => ⟨32768, 8, 1, 33⟩

/-- An entry of zero bytes. -/
def PassdbEntry.zeroed : PassdbEntry where
  kdf := .none
  params := ⟨0, 0, 0, 0⟩
  salt := Vector.replicate _ 0
  hash := Vector.replicate _ 0
  totp := none
  totpWindowSize := 0

/-- `passdb_create_entry`, with the entry where it returns `true`; `getrandom` is the salt that is
drawn, if all of it is. -/
def passdbCreateEntry (getrandom : Option (Vector Byte passdbSaltSizeBytes)) (entry : PassdbEntry)
    (kdf : PassdbKdf) (params : Option PassdbKdfParams) (passphrase : CStr) :
    Option PassdbEntry := do
  let entry := { entry with kdf := kdf }
  let entry := { entry with
    params := match params with
      | some params => params
      | none => defaultParams entry.kdf }
  let salt ← getrandom
  let entry := { entry with salt := salt }
  let hash ← passdbDerive ssl entry passphrase (BitVec.ofNat 32 passphrase.length) entry.hash
  return { entry with hash := hash }

/-! ## One-time passwords -/

def passdbAttachTotp (entry : PassdbEntry) (totp : Rfc6238Config) (windowSizeSeconds : BitVec 32) :
    Run PassdbEntry := do
  let totpWindowSize ←
    unsignedDiv (windowSizeSeconds + totp.sliceTimeSeconds - 1) totp.sliceTimeSeconds
  return { entry with totp := some totp, totpWindowSize := totpWindowSize }

def passdbValidateTotp (entry : PassdbEntry) (totpProvided : CStr) (timestamp offset : Int) :
    Run Bool := do
  match entry.totp with
  | none => return true
  | some totp =>
    let shift ← checkInt (offset * totp.sliceTimeSeconds.toInt)
    let effectiveTimestamp ← checkLong (timestamp + shift)
    match ← rfc6238GenerateAt ssl totp effectiveTimestamp with
    | none => return false
    | some totpExpected =>
      let totpCorrect := strcmp totpProvided totpExpected == .eq
      return totpCorrect

/-! ## Validating -/

/-- The loop of `passdb_validate_around` over the offsets of the window. -/
def passdbValidateLoop (entry : PassdbEntry) (totpProvided : CStr) (timestamp : Int)
    (digestCorrect : Bool) : Nat → Int → Run Bool
  | 0, _ => return false
  | rounds + 1, offset => do
    if ← passdbValidateTotp ssl entry totpProvided timestamp (-offset) then
      return digestCorrect
    if ← passdbValidateTotp ssl entry totpProvided timestamp offset then
      return digestCorrect
    let offset ← checkInt (offset + 1)
    passdbValidateLoop entry totpProvided timestamp digestCorrect rounds offset

/-- Where `passdb_validate_around` splits the passphrase: the one-time password, and the length of
what is in front of it. -/
def passdbSplit (entry : PassdbEntry) (passphrase : CStr) : CStr × Nat :=
  let passlen := passphrase.length
  match entry.totp with
  | none => ([], passlen)
  | some totp =>
    if passlen ≥ totp.digits.toNat then
      (passphrase.drop (passlen - totp.digits.toNat), passlen - totp.digits.toNat)
    else ([], passlen)

/-- `passdb_validate_around` once the passphrase is split and the digest computed. -/
def passdbValidateSplit (entry : PassdbEntry) (totpProvided : CStr) (timestamp : Int)
    (digest : PassdbDigest) : Run Bool := do
  let digestCorrect := decide (entry.kdf = .none) || entry.hash == digest
  if ← passdbValidateTotp ssl entry totpProvided timestamp 0 then
    return digestCorrect
  passdbValidateLoop ssl entry totpProvided timestamp digestCorrect entry.totpWindowSize.toNat 1

/-- `passdb_validate_around`; `digest` is what the array holds that is not initialised. -/
def passdbValidateAround (entry : PassdbEntry) (passphrase : CStr) (timestamp : Int)
    (digest : PassdbDigest) : Run Bool :=
  let (totpProvided, passlen) := passdbSplit entry passphrase
  -- the length is cut to an unsigned int here
  match passdbDerive ssl entry passphrase (BitVec.ofNat 32 passlen) digest with
  | none => return false
  | some digest => passdbValidateSplit ssl entry totpProvided timestamp digest

end Umsftpd
