import Umsftpd.Rfc6238

/-!
# Codes as the standard has them

The HMAC is computed of the number of the time slice in eight bytes, most significant first, and a
code is the dynamically truncated digest in as many decimal digits as are configured. What
`rfc6238_generate_at` does with the result of the HMAC is known exactly, on either byte order.
-/

namespace Umsftpd

open CLib

/-- The configuration for these arguments. -/
structure Rfc6238Config.MadeFrom (config : Rfc6238Config) (secret : List Byte)
    (secretLength : BitVec 32) (digest : Rfc6238Digest) (sliceTimeSeconds digits : BitVec 32) :
    Prop where
  md : config.md = rfc6238Md digest
  secret : config.secret = secret.take secretLength.toNat
  secretLength : config.secretLength = secretLength
  sliceTimeSeconds : config.sliceTimeSeconds = sliceTimeSeconds
  digits : config.digits = digits

/-- What `rfc6238_new` returns is made from its arguments. -/
theorem rfc6238New_madeFrom {secret : List Byte} {secretLength : BitVec 32}
    {digest : Rfc6238Digest} {sliceTimeSeconds digits : BitVec 32} {os : Os} {w w' : World}
    {config : Rfc6238Config}
    (h : rfc6238New secret secretLength digest sliceTimeSeconds digits os w =
      some (some config, w')) :
    config.MadeFrom secret secretLength digest sliceTimeSeconds digits := by
  unfold rfc6238New at h
  split at h
  · exact absurd h (by simp)
  · rw [Exec.bind_apply, Exec.malloc_run, Option.bind_some] at h
    cases hmalloc : w.outcome 0 with
    | false => simp [hmalloc] at h
    | true =>
      by_cases hlen : secretLength.toNat ≤ secret.length
      · simp only [hmalloc, dif_pos hlen, Exec.checked_some_bind] at h
        obtain rfl := Option.some.inj (Prod.mk.inj (Option.some.inj h)).1
        exact ⟨rfl, rfl, rfl, rfl, rfl⟩
      · simp [hmalloc, dif_neg hlen] at h

/-- What a code is to be: so many decimal digits, zeros in front where needed, whose number is the
truncated digest to this power of ten. -/
structure IsCode (digits : Nat) (digest : List Byte) (code : CStr) : Prop where
  length : code.length = digits
  decimal : ∀ c ∈ code, c.isDigit = true
  value : Nat.ofDigitChars 10 code 0 = dynamicTruncation digest % 10 ^ digits

theorem Rfc6238Config.isCode_codeOf (config : Rfc6238Config) (digest : List Byte) :
    IsCode config.digits.toNat digest (config.codeOf digest) where
  length := config.length_codeOf digest
  decimal _ h := isDigit_of_mem_zeroPadded h
  value := ofDigitChars_zeroPadded _ _

/-- **Codes.** For the slice that a time is in, one string of eight bytes is given to the HMAC,
whatever the byte order is. A digest is read within its bounds, and the code of it is written with
its end into nine bytes. -/
theorem rfc6238GenerateAt_code {secret : List Byte} {secretLength : BitVec 32}
    {digest : Rfc6238Digest} {sliceTimeSeconds digits : BitVec 32} {os : Os} {w w' : World}
    {config : Rfc6238Config}
    (hnew : rfc6238New secret secretLength digest sliceTimeSeconds digits os w =
      some (some config, w'))
    (hslice : 1 ≤ sliceTimeSeconds.toNat) {t : Int} (ht : 0 ≤ t) (htime : t < 2 ^ 63) :
    1 ≤ digits.toNat ∧ digits.toNat ≤ 8 ∧
    ∃ data : List Byte, data.length = 8 ∧ ofBigEndian data = t / sliceTimeSeconds.toNat ∧
      ∀ ssl : OpenSsl,
        (ssl.hmac config.md (secret.take secretLength.toNat) secretLength.toInt data = none →
          rfc6238GenerateAt ssl config t = .ok none) ∧
        ∀ digest, ssl.hmac config.md (secret.take secretLength.toNat) secretLength.toInt data =
            some digest →
          dynamicOffset digest.toList + 3 < digest.toList.length ∧
          ∃ code, rfc6238GenerateAt ssl config t = .ok (some code) ∧
            IsCode digits.toNat digest.toList code ∧ code.length + 1 ≤ 9 := by
  obtain ⟨-, hsecret, hsecretLength, rfl, rfl⟩ := rfc6238New_madeFrom hnew
  obtain ⟨slice, hslices⟩ : ∃ slice : Nat, t / config.sliceTimeSeconds.toNat = slice :=
    Int.eq_ofNat_of_zero_le (Int.ediv_nonneg ht (Int.natCast_nonneg _))
  have hlt : slice < 2 ^ 63 := by
    have hle : t / config.sliceTimeSeconds.toNat ≤ t := Int.ediv_le_self _ ht
    omega
  -- the counter is a number of slices, so eight bytes hold it
  have hcode : (BitVec.ofInt 64 slice).toNat = slice := by
    rw [BitVec.ofInt_natCast, BitVec.toNat_ofNat, Nat.mod_eq_of_lt (by omega)]
  have hgenerate : ∀ ssl, rfc6238GenerateAt ssl config t =
      .ok ((ssl.hmac config.md (secret.take secretLength.toNat) secretLength.toInt
        (bigEndian 8 slice)).map fun digest => config.codeOf digest.toList) := by
    intro ssl
    rw [rfc6238GenerateAt_eq ssl config hslice ht, hslices, rfc6238Generate_eq, hcode, hsecret,
      hsecretLength]
  refine ⟨config.digits_pos, config.digits_le, bigEndian 8 slice, length_bigEndian 8 slice, ?_,
    fun ssl => ⟨fun hnone => ?_, fun digest hsome => ⟨?_, config.codeOf digest.toList, ?_,
      config.isCode_codeOf _, ?_⟩⟩⟩
  · rw [hslices, ofBigEndian_bigEndian_of_lt (by omega)]
  · rw [hgenerate, hnone]
    rfl
  · have hoffset := dynamicOffset_lt digest.toList
    have hsize := ssl.le_mdSize config.md
    rw [digest.length_toList]
    omega
  · rw [hgenerate, hsome]
    rfl
  · rw [config.length_codeOf]
    exact Nat.succ_le_succ config.digits_le

/-! ## Any code -/

def CLib.EvpMd.size : EvpMd → Nat
  | sha1 => 20
  | sha256 => 32
  | sha384 => 48
  | sha512 => 64

/-- A digest that points to its first four bytes, which have the value. -/
def truncatingTo (md : EvpMd) (value : Nat) : Vector Byte md.size :=
  ⟨(bigEndian 4 value ++ List.replicate (md.size - 4) 0).toArray, by
    cases md <;> simp [length_bigEndian, EvpMd.size]⟩

theorem dynamicTruncation_truncatingTo (md : EvpMd) {value : Nat} (h : value < 2 ^ 31) :
    dynamicTruncation (truncatingTo md value).toList = value := by
  obtain ⟨k, hk⟩ : ∃ k, md.size - 4 = k + 1 := by
    cases md <;> exact ⟨_, rfl⟩
  have hlist : (truncatingTo md value).toList =
      bigEndian 4 value ++ (List.replicate k 0 ++ [0]) := by
    rw [← List.replicate_succ', ← hk]
    rfl
  have hoffset : dynamicOffset (truncatingTo md value).toList = 0 := by
    unfold dynamicOffset
    rw [hlist, ← List.append_assoc, ofBigEndian_concat]
    simp [Nat.mul_mod]
  unfold dynamicTruncation
  rw [hoffset, hlist, List.drop_zero, List.take_append_of_le_length (length_bigEndian 4 value).ge,
    List.take_of_length_le (length_bigEndian 4 value).le, ofBigEndian_bigEndian_of_lt (by omega),
    Nat.mod_eq_of_lt h]

/-- Any text of so many digits is the code of some digest. -/
theorem Rfc6238Config.codeOf_truncatingTo (config : Rfc6238Config) {code : CStr}
    (hlen : code.length = config.digits.toNat) (hdigits : ∀ c ∈ code, c.isDigit = true)
    (md : EvpMd) :
    config.codeOf (truncatingTo md (Nat.ofDigitChars 10 code 0)).toList = code := by
  have hlt : Nat.ofDigitChars 10 code 0 < 10 ^ config.digits.toNat := by
    rw [← hlen]
    exact ofDigitChars_lt hdigits
  have hpow : 10 ^ config.digits.toNat ≤ 10 ^ 8 :=
    Nat.pow_le_pow_right (by decide) config.digits_le
  have hcode := config.isCode_codeOf (truncatingTo md (Nat.ofDigitChars 10 code 0)).toList
  refine ofDigitChars_inj (hcode.length.trans hlen.symm) hcode.decimal hdigits ?_
  rw [hcode.value, dynamicTruncation_truncatingTo md (by omega), Nat.mod_eq_of_lt hlt]

/-! ## Test vectors -/

/-- A library without answers. -/
def CLib.OpenSsl.silent : OpenSsl where
  byteOrder := .littleEndian
  mdSize := EvpMd.size
  mdSize_sizes := ⟨rfl, rfl, rfl, rfl⟩
  hmac _ _ _ _ := none
  pkcs5Pbkdf2Hmac _ _ _ _ _ _ := none
  PkeyCtx := Unit
  pkeyCtxNew := none
  deriveInit _ := none
  setPbePass _ _ _ := none
  setScryptSalt _ _ := none
  setScryptN _ _ := none
  setScryptR _ _ := none
  setScryptP _ _ := none
  setScryptMaxmemBytes _ _ := none
  derive _ _ := none

/-- The secret of the test vectors, `"12345678901234567890"`. -/
def testSecret : List Byte :=
  [0x31, 0x32, 0x33, 0x34, 0x35, 0x36, 0x37, 0x38, 0x39, 0x30, 0x31, 0x32, 0x33, 0x34, 0x35, 0x36,
    0x37, 0x38, 0x39, 0x30]

def testConfig : Rfc6238Config where
  md := .sha1
  modulo := 100000000
  digits := 8
  secretLength := 20
  sliceTimeSeconds := 30
  secret := testSecret
  digits_pos := by decide
  digits_le := by decide
  modulo_eq := by decide
  secret_length := by decide

/-- HMAC-SHA-1 of the first three counters under the test secret. -/
def testHmac (data : List Byte) : Option (Vector Byte 20) :=
  if data = [0, 0, 0, 0, 0, 0, 0, 0] then
    some #v[0xcc, 0x93, 0xcf, 0x18, 0x50, 0x8d, 0x94, 0x93, 0x4c, 0x64, 0xb6, 0x5d, 0x8b, 0xa7,
      0x66, 0x7f, 0xb7, 0xcd, 0xe4, 0xb0]
  else if data = [0, 0, 0, 0, 0, 0, 0, 1] then
    some #v[0x75, 0xa4, 0x8a, 0x19, 0xd4, 0xcb, 0xe1, 0x00, 0x64, 0x4e, 0x8a, 0xc1, 0x39, 0x7e,
      0xea, 0x74, 0x7a, 0x2d, 0x33, 0xab]
  else if data = [0, 0, 0, 0, 0, 0, 0, 2] then
    some #v[0x0b, 0xac, 0xb7, 0xfa, 0x08, 0x2f, 0xef, 0x30, 0x78, 0x22, 0x11, 0x93, 0x8b, 0xc1,
      0xc5, 0xe7, 0x04, 0x16, 0xff, 0x44]
  else none

/-- A library that knows the test vectors. -/
def vectorSsl : OpenSsl :=
  { OpenSsl.silent with
    hmac := fun md _ _ data =>
      match md with
      | .sha1 => testHmac data
      | _ => none }

/-- Second 59 is in slice 1, and the code is that of the test. -/
theorem rfc6238GenerateAt_code_59 :
    rfc6238New testSecret 20 .sha1 30 8 Os.empty {} = some (some testConfig, {}) ∧
      ∃ code, rfc6238GenerateAt vectorSsl testConfig 59 = .ok (some code) ∧ code.length = 8 ∧
        Nat.ofDigitChars 10 code 0 = 94287082 := by
  have hnew : rfc6238New testSecret 20 .sha1 30 8 Os.empty {} = some (some testConfig, {}) := rfl
  obtain ⟨-, -, data, hlen, hdata, hcodes⟩ := rfc6238GenerateAt_code hnew (by decide)
    (by decide : (0 : Int) ≤ 59) (by decide)
  obtain rfl : data = [0, 0, 0, 0, 0, 0, 0, 1] := by
    apply ofBigEndian_inj hlen
    exact Int.ofNat.inj hdata
  obtain ⟨digest, hdigest, hvalue⟩ : ∃ digest, vectorSsl.hmac testConfig.md
      (testSecret.take 20) 20 [0, 0, 0, 0, 0, 0, 0, 1] = some digest ∧
        dynamicTruncation digest.toList % 10 ^ 8 = 94287082 := ⟨_, rfl, by decide⟩
  obtain ⟨-, code, hcode, hstandard, -⟩ := (hcodes vectorSsl).2 digest hdigest
  exact ⟨hnew, code, hcode, hstandard.length, hstandard.value.trans hvalue⟩

end Umsftpd
