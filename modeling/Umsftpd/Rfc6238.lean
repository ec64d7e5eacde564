import Umsftpd.CLib.OpenSsl
import Umsftpd.CLib.Posix
import Umsftpd.Encoding.BigEndian

/-!
# Time-based one-time passwords (`rfc6238.c`)

A configuration comes from `rfc6238_new` only, so the number of digits is in its range and `modulo`
is the power of ten that belongs to it.
-/

namespace Umsftpd

open CLib

inductive Rfc6238Digest where
  | sha1 | sha256 | sha384 | sha512
  deriving DecidableEq, Repr

/-- `struct rfc6238_config_t`. -/
structure Rfc6238Config where
  md : EvpMd
  modulo : BitVec 32
  digits : BitVec 32
  secretLength : BitVec 32
  sliceTimeSeconds : BitVec 32
  secret : List Byte
  digits_pos : 1 ≤ digits.toNat
  digits_le : digits.toNat ≤ 8
  modulo_eq : modulo.toNat = 10 ^ digits.toNat
  secret_length : secret.length = secretLength.toNat

/-- The loop that computes `modulo`. -/
def rfc6238Modulo : Nat → BitVec 32 → BitVec 32
  | 0, modulo => modulo
  | rounds + 1, modulo => rfc6238Modulo rounds (modulo * 10)

theorem rfc6238Modulo_toNat (rounds : Nat) (modulo : BitVec 32)
    (h : modulo.toNat * 10 ^ rounds < 2 ^ 32) :
    (rfc6238Modulo rounds modulo).toNat = modulo.toNat * 10 ^ rounds := by
  induction rounds generalizing modulo with
  | zero => simp [rfc6238Modulo]
  | succ rounds ih =>
    have hpow : 10 ^ (rounds + 1) = 10 * 10 ^ rounds := by rw [Nat.pow_succ, Nat.mul_comm]
    have hone : 1 ≤ 10 ^ rounds := Nat.one_le_pow _ _ (by decide)
    rw [hpow, ← Nat.mul_assoc] at h
    have hfits : modulo.toNat * 10 < 2 ^ 32 := by nlinarith
    have hmul : (modulo * 10).toNat = modulo.toNat * 10 := by
      rw [BitVec.toNat_mul]
      exact Nat.mod_eq_of_lt hfits
    rw [rfc6238Modulo, ih _ (by rw [hmul]; exact h), hmul, hpow, Nat.mul_assoc]

/-- For the digits that are allowed the power of ten fits. -/
theorem rfc6238Modulo_digits {digits : Nat} (h : digits ≤ 8) :
    (rfc6238Modulo digits 1).toNat = 10 ^ digits := by
  have hle : 10 ^ digits ≤ 10 ^ 8 := Nat.pow_le_pow_right (by decide) h
  have hone : (1 : BitVec 32).toNat = 1 := rfl
  rw [rfc6238Modulo_toNat _ _ (by rw [hone]; omega), hone, Nat.one_mul]

def rfc6238Md : Rfc6238Digest → EvpMd
  | .sha1 => .sha1
  | .sha256 => .sha256
  | .sha384 => .sha384
  | .sha512 => .sha512

def rfc6238New (secret : List Byte) (secretLength : BitVec 32) (digest : Rfc6238Digest)
    (sliceTimeSeconds digits : BitVec 32) : Exec (Option Rfc6238Config) := do
  if hdigits : digits.toNat < 1 ∨ digits.toNat > 8 then
    return none
  else
    -- malloc(sizeof(struct rfc6238_config_t) + secret_length)
    if !(← Exec.malloc) then
      return none
    -- memcpy(config->secret, secret, secret_length)
    let secret ← Exec.checked (if h : secretLength.toNat ≤ secret.length then
      some (⟨secret.take secretLength.toNat, List.length_take_of_le h⟩ :
        { s : List Byte // s.length = secretLength.toNat }) else none)
    return some {
      md := rfc6238Md digest
      modulo := rfc6238Modulo digits.toNat 1
      digits := digits
      secretLength := secretLength
      sliceTimeSeconds := sliceTimeSeconds
      secret := secret.val
      digits_pos := by omega
      digits_le := by omega
      modulo_eq := rfc6238Modulo_digits (by omega)
      secret_length := secret.property }

/-- `rfc6238_present`; `snprintf` stores eight characters at most. -/
def rfc6238Present (config : Rfc6238Config) (value : BitVec 32) : Run CStr := do
  let value ← unsignedMod value config.modulo
  return (zeroPadded config.digits.toNat value.toInt).take 8

/-- `rfc6238_generate`; without an output where it returns `false`. -/
def rfc6238Generate (ssl : OpenSsl) (config : Rfc6238Config) (timecode : BitVec 64) :
    Run (Option CStr) := do
  let timecode := if ssl.byteOrder = .littleEndian then bswap64 timecode else timecode
  let digestLen := ssl.mdSize config.md
  let macData := ssl.byteOrder.store timecode
  match ssl.hmac config.md config.secret config.secretLength.toInt macData with
  | none => return none
  | some digest =>
    let digest := digest.toList
    let offset := ((← readAt digest (digestLen - 1)) &&& 0xf).toNat
    let value : BitVec 32 :=
      ((← readAt digest (offset + 0)).setWidth 32 <<< 24) |||
      ((← readAt digest (offset + 1)).setWidth 32 <<< 16) |||
      ((← readAt digest (offset + 2)).setWidth 32 <<< 8) |||
      ((← readAt digest (offset + 3)).setWidth 32 <<< 0)
    let value := value &&& 0x7fffffff
    return some (← rfc6238Present config value)

/-- `rfc6238_generate_at`; the time code is a `long`, stored in a `uint64_t`. -/
def rfc6238GenerateAt (ssl : OpenSsl) (config : Rfc6238Config) (t : Int) : Run (Option CStr) := do
  let timecode := BitVec.ofInt 64 (← signedDiv t config.sliceTimeSeconds.toNat)
  rfc6238Generate ssl config timecode

/-- `rfc6238_generate_now`, where `time` returns `t`. -/
def rfc6238GenerateNow (ssl : OpenSsl) (config : Rfc6238Config) (t : Int) : Run (Option CStr) :=
  rfc6238Generate ssl config (BitVec.ofInt 64 t)

/-! ## Codes -/

theorem Rfc6238Config.modulo_ne_zero (config : Rfc6238Config) : config.modulo ≠ 0 := by
  intro h
  have hzero : 10 ^ config.digits.toNat = 0 := by rw [← config.modulo_eq, h]; rfl
  exact absurd hzero (Nat.pos_iff_ne_zero.mp (Nat.pow_pos (by decide)))

/-- The text of a value: its last digits, as many as are configured. -/
theorem rfc6238Present_eq (config : Rfc6238Config) (value : BitVec 32) :
    rfc6238Present config value =
      .ok (zeroPadded config.digits.toNat (value.toNat % 10 ^ config.digits.toNat : Nat)) := by
  have hpow : 10 ^ config.digits.toNat ≤ 10 ^ 8 :=
    Nat.pow_le_pow_right (by decide) config.digits_le
  have hmod : (value % config.modulo).toNat = value.toNat % 10 ^ config.digits.toNat := by
    rw [BitVec.toNat_umod, config.modulo_eq]
  have hlt : value.toNat % 10 ^ config.digits.toNat < 10 ^ config.digits.toNat :=
    Nat.mod_lt _ (Nat.pow_pos (by decide))
  have hint : (value % config.modulo).toInt = (value.toNat % 10 ^ config.digits.toNat : Nat) := by
    rw [BitVec.toInt_eq_toNat_of_lt (by omega), hmod]
  have hlen := length_zeroPadded config.digits_pos hlt
  unfold rfc6238Present
  rw [unsignedMod_ok _ config.modulo_ne_zero, Run.ok_bind, hint]
  exact congrArg Except.ok (List.take_of_length_le (hlen.trans_le config.digits_le))

/-- Four bytes follow any offset in every digest. -/
theorem CLib.OpenSsl.le_mdSize (ssl : OpenSsl) (md : EvpMd) : 20 ≤ ssl.mdSize md := by
  obtain ⟨hsha1, hsha256, hsha384, hsha512⟩ := ssl.mdSize_sizes
  cases md <;> omega

/-- Where a digest says that its value is: the last four bits. -/
def dynamicOffset (digest : List Byte) : Nat := ofBigEndian digest % 16

/-- The value of a digest: 31 bits of the four bytes that it points to. -/
def dynamicTruncation (digest : List Byte) : Nat :=
  ofBigEndian ((digest.drop (dynamicOffset digest)).take 4) % 2 ^ 31

theorem dynamicOffset_lt (digest : List Byte) : dynamicOffset digest < 16 :=
  Nat.mod_lt _ (by decide)

/-- The offset is in the last byte. -/
theorem dynamicOffset_eq {digest : List Byte} {n : Nat} (h : digest.length = n + 1) :
    (digest[n] &&& 0xf).toNat = dynamicOffset digest := by
  obtain ⟨bytes, b, rfl⟩ := (List.eq_nil_or_concat' digest).resolve_left
    (List.ne_nil_of_length_pos (by omega))
  obtain rfl : bytes.length = n := by simpa using h
  have hmask : (b &&& 0xf).toNat = b.toNat % 16 := by
    rw [BitVec.toNat_and]
    exact Nat.and_two_pow_sub_one_eq_mod b.toNat 4
  rw [List.getElem_concat_length rfl, hmask, dynamicOffset, ofBigEndian_concat]
  omega

/-- The value is in the four bytes at the offset. -/
theorem dynamicTruncation_eq {digest : List Byte} (h : dynamicOffset digest + 3 < digest.length) :
    ((((digest[dynamicOffset digest].setWidth 32 <<< 24) |||
      (digest[dynamicOffset digest + 1].setWidth 32 <<< 16) |||
      (digest[dynamicOffset digest + 2].setWidth 32 <<< 8) |||
      (digest[dynamicOffset digest + 3].setWidth 32 <<< 0)) &&& 0x7fffffff : BitVec 32)).toNat =
      dynamicTruncation digest := by
  have hbytes : (digest.drop (dynamicOffset digest)).take 4 =
      [digest[dynamicOffset digest], digest[dynamicOffset digest + 1],
        digest[dynamicOffset digest + 2], digest[dynamicOffset digest + 3]] := by
    apply List.ext_getElem
    · simp
      omega
    · intro i hi hi'
      match i with
      | 0 | 1 | 2 | 3 => simp
  rw [BitVec.toNat_and, toNat_joined, ← hbytes]
  exact Nat.and_two_pow_sub_one_eq_mod _ 31

/-- The code that belongs to a digest. -/
def Rfc6238Config.codeOf (config : Rfc6238Config) (digest : List Byte) : CStr :=
  zeroPadded config.digits.toNat (dynamicTruncation digest % 10 ^ config.digits.toNat : Nat)

/-- The generation of a code: the time code goes to the HMAC in network order, the digest is read
within its bounds. -/
theorem rfc6238Generate_eq (ssl : OpenSsl) (config : Rfc6238Config) (timecode : BitVec 64) :
    rfc6238Generate ssl config timecode =
      .ok ((ssl.hmac config.md config.secret config.secretLength.toInt
        (bigEndian 8 timecode.toNat)).map fun digest => config.codeOf digest.toList) := by
  unfold rfc6238Generate
  dsimp only
  rw [ssl.byteOrder.store_bswap64]
  cases ssl.hmac config.md config.secret config.secretLength.toInt
    (bigEndian 8 timecode.toNat) with
  | none => rfl
  | some digest =>
    have hlen : digest.toList.length = ssl.mdSize config.md := digest.length_toList
    have hsize := ssl.le_mdSize config.md
    have hlt := dynamicOffset_lt digest.toList
    dsimp only
    rw [readAt_ok (by omega), Run.ok_bind, dynamicOffset_eq (by omega),
      readAt_ok (by omega), Run.ok_bind, readAt_ok (by omega), Run.ok_bind,
      readAt_ok (by omega), Run.ok_bind, readAt_ok (by omega), Run.ok_bind, rfc6238Present_eq]
    simp only [Nat.add_zero, dynamicTruncation_eq (show _ < digest.toList.length by omega)]
    rfl

/-- A code has the digits that are configured. -/
theorem Rfc6238Config.length_codeOf (config : Rfc6238Config) (digest : List Byte) :
    (config.codeOf digest).length = config.digits.toNat :=
  length_zeroPadded config.digits_pos (Nat.mod_lt _ (Nat.pow_pos (by decide)))

/-- The generation of a code fails only when the HMAC does. -/
theorem rfc6238Generate_ok (ssl : OpenSsl) (config : Rfc6238Config) (timecode : BitVec 64) :
    ∃ code, rfc6238Generate ssl config timecode = .ok code ∧ ∀ output, code = some output →
      output.length = config.digits.toNat := by
  refine ⟨_, rfc6238Generate_eq ssl config timecode, fun output h => ?_⟩
  obtain ⟨digest, -, rfl⟩ := Option.map_eq_some_iff.mp h
  exact config.length_codeOf _

/-- The code of a time is the code of the slice that the time is in. -/
theorem rfc6238GenerateAt_eq (ssl : OpenSsl) (config : Rfc6238Config)
    (hslice : 1 ≤ config.sliceTimeSeconds.toNat) {t : Int} (ht : 0 ≤ t) :
    rfc6238GenerateAt ssl config t =
      rfc6238Generate ssl config (BitVec.ofInt 64 (t / config.sliceTimeSeconds.toNat)) := by
  unfold rfc6238GenerateAt
  rw [signedDiv_ok _ (by omega), Run.ok_bind, Int.tdiv_eq_ediv_of_nonneg ht]

end Umsftpd
