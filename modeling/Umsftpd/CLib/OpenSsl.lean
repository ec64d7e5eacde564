import Umsftpd.CLib.Ints

/-!
# What a program sees of OpenSSL

The message digests with their sizes, and the functions for message authentication and key
derivation as answers to their arguments: each is deterministic and may fail.
-/

namespace Umsftpd.CLib

/-- `const EVP_MD *`. -/
inductive EvpMd where
  | sha1 | sha256 | sha384 | sha512
  deriving DecidableEq, Repr

/-- The sizes that the standards give the digests. -/
structure DigestSizes (size : EvpMd → Nat) : Prop where
  sha1 : size .sha1 = 20
  sha256 : size .sha256 = 32
  sha384 : size .sha384 = 48
  sha512 : size .sha512 = 64

/-- The machine the code runs on and the library it calls. Lengths are `int`s where the functions
take them as such. -/
structure OpenSsl where
  byteOrder : ByteOrder
  /-- `EVP_MD_size`. -/
  mdSize : EvpMd → Nat
  mdSize_sizes : DigestSizes mdSize
  hmac : (md : EvpMd) → (key : List Byte) → (keyLen : Int) → (data : List Byte) →
    Option (Vector Byte (mdSize md))
  pkcs5Pbkdf2Hmac : (pass : CStr) → (passlen : Int) → (salt : List Byte) → (iter : Int) → EvpMd →
    (keylen : Nat) → Option (Vector Byte keylen)
  /-- An `EVP_PKEY_CTX *` for scrypt. -/
  PkeyCtx : Type
  pkeyCtxNew : Option PkeyCtx
  deriveInit : PkeyCtx → Option PkeyCtx
  setPbePass : PkeyCtx → (pass : CStr) → (passlen : Int) → Option PkeyCtx
  setScryptSalt : PkeyCtx → List Byte → Option PkeyCtx
  setScryptN : PkeyCtx → BitVec 64 → Option PkeyCtx
  setScryptR : PkeyCtx → BitVec 64 → Option PkeyCtx
  setScryptP : PkeyCtx → BitVec 64 → Option PkeyCtx
  setScryptMaxmemBytes : PkeyCtx → BitVec 64 → Option PkeyCtx
  derive : PkeyCtx → (keylen : Nat) → Option (Vector Byte keylen)

/-- A passphrase that is given with its length is read that far and no further. -/
structure OpenSsl.ReadsPassphrase (ssl : OpenSsl) : Prop where
  pkcs5Pbkdf2Hmac : ∀ (pass : CStr) (n : Nat) salt iter md keylen, n ≤ pass.length →
    ssl.pkcs5Pbkdf2Hmac pass n salt iter md keylen =
      ssl.pkcs5Pbkdf2Hmac (pass.take n) n salt iter md keylen
  setPbePass : ∀ ctx (pass : CStr) (n : Nat), n ≤ pass.length →
    ssl.setPbePass ctx pass n = ssl.setPbePass ctx (pass.take n) n

/-- A string whose length is no `int` is refused where this makes the length negative. -/
structure OpenSsl.RefusesNegative (ssl : OpenSsl) : Prop where
  pkcs5Pbkdf2Hmac : ∀ (pass : CStr) salt iter md keylen, intLength pass < 0 →
    ssl.pkcs5Pbkdf2Hmac pass (intLength pass) salt iter md keylen = none
  setPbePass : ∀ ctx (pass : CStr), intLength pass < 0 →
    ssl.setPbePass ctx pass (intLength pass) = none

/-- The other negative lengths are refused too, except that -1 asks PBKDF2 for the length of the
string. -/
structure OpenSsl.TakesLengths (ssl : OpenSsl) : Prop where
  pkcs5Pbkdf2Hmac : ∀ (pass : CStr) (passlen : Int) salt iter md keylen, passlen < -1 →
    ssl.pkcs5Pbkdf2Hmac pass passlen salt iter md keylen = none
  pkcs5Pbkdf2Hmac_strlen : ∀ (pass : CStr) salt iter md keylen,
    ssl.pkcs5Pbkdf2Hmac pass (-1) salt iter md keylen =
      if intLength pass < 0 then none
      else ssl.pkcs5Pbkdf2Hmac pass (intLength pass) salt iter md keylen
  setPbePass : ∀ ctx (pass : CStr) (passlen : Int), passlen < 0 →
    ssl.setPbePass ctx pass passlen = none

end Umsftpd.CLib
