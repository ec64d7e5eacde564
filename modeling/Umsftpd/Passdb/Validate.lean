import Umsftpd.Passdb
import Umsftpd.Rfc6238.Codes

/-!
# What validates

A passphrase validates when its first part derives to the stored hash and its last part is the code
of a slice in the window, whatever the order in which the window is searched.
-/

namespace Umsftpd

open CLib

variable (ssl : OpenSsl)

/-! ## The derivation -/

/-- What the key derivation function of an entry makes of a whole string. -/
def PassdbEntry.kdfOf (entry : PassdbEntry) (passphrase : CStr) : Option PassdbDigest :=
  match entry.kdf with
  | .none => none
  | .pbkdf2Sha256 =>
    ssl.pkcs5Pbkdf2Hmac passphrase passphrase.length entry.salt.toList
      entry.params.iterations.toInt .sha256 passdbPassSizeBytes
  | .scrypt => scryptCalls ssl entry passphrase passphrase.length

/-- The part of a passphrase that is not the one-time password. -/
def PassdbEntry.passphrasePart (entry : PassdbEntry) (passphrase : CStr) : CStr :=
  match entry.totp with
  | none => passphrase
  | some totp =>
    if totp.digits.toNat ≤ passphrase.length then
      passphrase.take (passphrase.length - totp.digits.toNat)
    else passphrase

/-- The part that is tried as the one-time password. -/
def PassdbEntry.totpPart (entry : PassdbEntry) (passphrase : CStr) : CStr :=
  match entry.totp with
  | none => []
  | some totp =>
    if totp.digits.toNat ≤ passphrase.length then
      passphrase.drop (passphrase.length - totp.digits.toNat)
    else []

/-- What `passdb_validate_around` derives: the length of the part is cut to an `unsigned int`. -/
def PassdbEntry.derivation (entry : PassdbEntry) (passphrase : CStr) (digest : PassdbDigest) :
    Option PassdbDigest :=
  passdbDerive ssl entry passphrase
    (BitVec.ofNat 32 (entry.passphrasePart passphrase).length) digest

/-- The first part is a beginning of the passphrase, and the split is after it. -/
theorem passdbSplit_eq (entry : PassdbEntry) (passphrase : CStr) :
    passdbSplit entry passphrase =
        (entry.totpPart passphrase, (entry.passphrasePart passphrase).length) ∧
      (entry.passphrasePart passphrase).length ≤ passphrase.length ∧
      passphrase.take (entry.passphrasePart passphrase).length =
        entry.passphrasePart passphrase := by
  unfold passdbSplit PassdbEntry.passphrasePart PassdbEntry.totpPart
  cases entry.totp with
  | none => exact ⟨rfl, le_refl _, List.take_length⟩
  | some totp =>
    dsimp only
    by_cases hlong : totp.digits.toNat ≤ passphrase.length
    · have htake : (passphrase.take (passphrase.length - totp.digits.toNat)).length =
          passphrase.length - totp.digits.toNat := List.length_take_of_le (Nat.sub_le _ _)
      rw [if_pos hlong, if_pos hlong, if_pos hlong, htake]
      exact ⟨rfl, Nat.sub_le _ _, rfl⟩
    · rw [if_neg hlong, if_neg hlong, if_neg hlong]
      exact ⟨rfl, le_refl _, List.take_length⟩

theorem PassdbEntry.length_totpPart (entry : PassdbEntry) {totp : Rfc6238Config}
    (htotp : entry.totp = some totp) {passphrase : CStr}
    (hlong : totp.digits.toNat ≤ passphrase.length) :
    totp.digits.toNat ≤ passphrase.length ∧
      entry.totpPart passphrase = passphrase.drop (passphrase.length - totp.digits.toNat) ∧
      (entry.totpPart passphrase).length = totp.digits.toNat := by
  have hpart : entry.totpPart passphrase =
      passphrase.drop (passphrase.length - totp.digits.toNat) := by
    unfold totpPart
    rw [htotp]
    exact if_pos hlong
  refine ⟨hlong, hpart, ?_⟩
  rw [hpart, List.length_drop]
  omega

variable {ssl}

/-- The derivation of the first `n` characters, as long as `n` is an `int`. -/
theorem passdbDerive_take (hread : ssl.ReadsPassphrase) (entry : PassdbEntry) {passphrase : CStr}
    {n : Nat} (hn : n ≤ passphrase.length) (hint : n < 2 ^ 31) (digest : PassdbDigest) :
    passdbDerive ssl entry passphrase (BitVec.ofNat 32 n) digest =
      if entry.kdf = .none then some digest else entry.kdfOf ssl (passphrase.take n) := by
  have hlen : (BitVec.ofNat 32 n).toInt = n := by
    have hnat : (BitVec.ofNat 32 n).toNat = n := Nat.mod_eq_of_lt (by omega)
    rw [BitVec.toInt_eq_toNat_of_lt (by omega), hnat]
  have htake : (passphrase.take n).length = n := List.length_take_of_le hn
  unfold passdbDerive PassdbEntry.kdfOf
  cases hkdf : entry.kdf with
  | none => rfl
  | pbkdf2Sha256 =>
    rw [if_neg (by simp)]
    unfold passdbDerivePbkdf2Sha256
    rw [hlen, htake]
    exact hread.pkcs5Pbkdf2Hmac _ _ _ _ _ _ hn
  | scrypt =>
    rw [if_neg (by simp)]
    unfold passdbDeriveScrypt scryptCalls
    rw [hlen, htake]
    simp only [hread.setPbePass _ _ _ hn]

/-! ## The window -/

/-- The one-time password is the code of a counter. -/
def Rfc6238Config.accepts (ssl : OpenSsl) (totp : Rfc6238Config) (provided : CStr)
    (counter : Int) : Bool :=
  match rfc6238Generate ssl totp (BitVec.ofInt 64 counter) with
  | .ok (some expected) => provided == expected
  | _ => false

theorem Rfc6238Config.accepts_iff {totp : Rfc6238Config} {provided : CStr} {counter : Int} :
    totp.accepts ssl provided counter = true ↔
      rfc6238Generate ssl totp (BitVec.ofInt 64 counter) = .ok (some provided) := by
  unfold accepts
  obtain ⟨code, hcode, -⟩ := rfc6238Generate_ok ssl totp (BitVec.ofInt 64 counter)
  rw [hcode]
  cases code with
  | none => exact iff_of_false (by simp) fun h => by simpa using Except.ok.inj h
  | some expected =>
    show (provided == expected) = true ↔ _
    rw [beq_iff_eq]
    exact ⟨fun h => by rw [h], fun h => (Option.some.inj (Except.ok.inj h)).symm⟩

/-- The empty string is no code. -/
theorem Rfc6238Config.accepts_nil (totp : Rfc6238Config) (counter : Int) :
    totp.accepts ssl [] counter = false := by
  obtain ⟨code, hcode, hlen⟩ := rfc6238Generate_ok ssl totp (BitVec.ofInt 64 counter)
  rw [Bool.eq_false_iff, Ne, accepts_iff, hcode]
  intro h
  exact absurd (hlen [] (Except.ok.inj h)) (Nat.ne_of_lt totp.digits_pos)

/-- The conditions under which the arithmetic of the window is exact: slices of at least a second,
and a window that neither overflows an `int` nor leaves the times that there are. -/
structure WindowFits (totp : Rfc6238Config) (window : Nat) (timestamp : Int) : Prop where
  slice_pos : 1 ≤ totp.sliceTimeSeconds.toNat
  starts : (window * totp.sliceTimeSeconds.toNat : Int) ≤ timestamp
  fits_int : ((window + 1) * totp.sliceTimeSeconds.toNat : Int) < 2 ^ 31
  fits_time : timestamp + window * totp.sliceTimeSeconds.toNat < 2 ^ 63

/-- An offset of the window tries the counter that many slices away. -/
theorem passdbValidateTotp_offset {entry : PassdbEntry} {totp : Rfc6238Config} {window : Nat}
    {timestamp : Int} (htotp : entry.totp = some totp) (hfits : WindowFits totp window timestamp)
    (provided : CStr) {offset : Int} (hlow : -(window : Int) ≤ offset) (hhigh : offset ≤ window) :
    passdbValidateTotp ssl entry provided timestamp offset =
      .ok (totp.accepts ssl provided (timestamp / totp.sliceTimeSeconds.toNat + offset)) := by
  obtain ⟨hpos, hstarts, hint, htime⟩ := hfits
  have hcast : totp.sliceTimeSeconds.toInt = totp.sliceTimeSeconds.toNat := by
    apply BitVec.toInt_eq_toNat_of_lt
    nlinarith
  generalize hs : totp.sliceTimeSeconds.toNat = s at *
  have hupper : offset * s ≤ window * s := by nlinarith
  have hlower : -(window * s : Int) ≤ offset * s := by nlinarith
  unfold passdbValidateTotp
  rw [htotp]
  dsimp only
  rw [hcast, checkInt_ok (by linarith) (by linarith), Run.ok_bind,
    checkLong_ok (by linarith) (by linarith), Run.ok_bind,
    rfc6238GenerateAt_eq ssl totp (by omega) (by linarith), hs,
    Int.add_mul_ediv_right _ _ (by omega)]
  unfold Rfc6238Config.accepts
  obtain ⟨code, hcode, -⟩ := rfc6238Generate_ok ssl totp (BitVec.ofInt 64 (timestamp / s + offset))
  rw [hcode]
  cases code with
  | none => rfl
  | some expected =>
    show Except.ok (strcmp provided expected == .eq) = Except.ok (provided == expected)
    rw [strcmp_beq]

/-- The loop succeeds when the digest is right and an offset from `offset` on is accepted, forwards
or backwards. -/
theorem passdbValidateLoop_iff {entry : PassdbEntry} {provided : CStr} {timestamp : Int}
    {valid : Int → Bool} {window : Nat} (hint : window + 1 < 2 ^ 31)
    (hvalid : ∀ offset : Int, -(window : Int) ≤ offset → offset ≤ window →
      passdbValidateTotp ssl entry provided timestamp offset = .ok (valid offset))
    (digestCorrect : Bool) (rounds : Nat) {offset : Int} (hpos : 1 ≤ offset)
    (hend : offset + rounds = window + 1) :
    ∃ ok, passdbValidateLoop ssl entry provided timestamp digestCorrect rounds offset = .ok ok ∧
      (ok = true ↔ digestCorrect = true ∧
        ∃ k, offset ≤ k ∧ k ≤ window ∧ (valid (-k) = true ∨ valid k = true)) := by
  induction rounds generalizing offset with
  | zero =>
    refine ⟨false, rfl, iff_of_false (by simp) ?_⟩
    rintro ⟨-, k, hk, hk', -⟩
    omega
  | succ rounds ih =>
    rw [passdbValidateLoop, hvalid _ (by omega) (by omega), Run.ok_bind,
      hvalid _ (by omega) (by omega)]
    cases hback : valid (-offset) with
    | true =>
      refine ⟨digestCorrect, rfl, ⟨fun h => ⟨h, offset, ?_⟩, fun h => h.1⟩⟩
      exact ⟨le_refl _, by omega, Or.inl hback⟩
    | false =>
      cases hforth : valid offset with
      | true =>
        refine ⟨digestCorrect, rfl, ⟨fun h => ⟨h, offset, ?_⟩, fun h => h.1⟩⟩
        exact ⟨le_refl _, by omega, Or.inr hforth⟩
      | false =>
        obtain ⟨ok, hloop, hiff⟩ := ih (show 1 ≤ offset + 1 by omega) (by omega)
        refine ⟨ok, ?_, ?_⟩
        · have hnext : checkInt (offset + 1) = .ok (offset + 1) :=
            checkInt_ok (by omega) (by omega)
          simp only [Bool.false_eq_true, if_false, Run.ok_bind, hnext, hloop]
        · rw [hiff]
          refine and_congr_right fun _ => ⟨?_, ?_⟩
          · rintro ⟨k, hk, hk', h⟩
            exact ⟨k, by omega, hk', h⟩
          · rintro ⟨k, hk, hk', h⟩
            refine ⟨k, ?_, hk', h⟩
            by_contra hlt
            obtain rfl : k = offset := by omega
            simp [hback, hforth] at h

/-! ## Validation -/

/-- Too short a passphrase has no code at its end. -/
theorem accepts_totpPart {entry : PassdbEntry} {totp : Rfc6238Config}
    (htotp : entry.totp = some totp) (passphrase : CStr) (counter : Int) :
    totp.accepts ssl (entry.totpPart passphrase) counter = true ↔
      totp.digits.toNat ≤ passphrase.length ∧
        rfc6238Generate ssl totp (BitVec.ofInt 64 counter) =
          .ok (some (passphrase.drop (passphrase.length - totp.digits.toNat))) := by
  unfold PassdbEntry.totpPart
  rw [htotp]
  dsimp only
  split
  · next hlong => rw [Rfc6238Config.accepts_iff, and_iff_right hlong]
  · next hshort =>
    rw [Rfc6238Config.accepts_nil]
    exact iff_of_false (by simp) fun h => hshort h.1

/-- The search accepts what some offset of the window accepts. -/
theorem passdbValidateSplit_window (ssl : OpenSsl) {entry : PassdbEntry} {totp : Rfc6238Config}
    {timestamp : Int} (htotp : entry.totp = some totp)
    (hfits : WindowFits totp entry.totpWindowSize.toNat timestamp) (provided : CStr)
    (digest : PassdbDigest) :
    ∃ ok, passdbValidateSplit ssl entry provided timestamp digest = .ok ok ∧
      (ok = true ↔ (entry.kdf = .none ∨ entry.hash = digest) ∧
        ∃ k : Int, -(entry.totpWindowSize.toNat : Int) ≤ k ∧ k ≤ entry.totpWindowSize.toNat ∧
          totp.accepts ssl provided (timestamp / totp.sliceTimeSeconds.toNat + k) = true) := by
  have hcorrect : (entry.kdf = .none ∨ entry.hash = digest) ↔
      (decide (entry.kdf = .none) || entry.hash == digest) = true := by
    rw [Bool.or_eq_true, decide_eq_true_iff, beq_iff_eq]
  unfold passdbValidateSplit
  rw [hcorrect]
  generalize (decide (entry.kdf = .none) || entry.hash == digest) = digestCorrect
  generalize entry.totpWindowSize.toNat = window at *
  have hvalid : ∀ offset : Int, -(window : Int) ≤ offset → offset ≤ window →
      passdbValidateTotp ssl entry provided timestamp offset =
        .ok (totp.accepts ssl provided (timestamp / totp.sliceTimeSeconds.toNat + offset)) :=
    fun offset => passdbValidateTotp_offset htotp hfits provided
  have hint : window + 1 < 2 ^ 31 := by
    obtain ⟨hpos, -, hint, -⟩ := hfits
    generalize totp.sliceTimeSeconds.toNat = s at *
    have hle : ((window + 1) * 1 : Int) ≤ (window + 1) * s :=
      Int.mul_le_mul_of_nonneg_left (by omega) (by omega)
    omega
  generalize hbase : timestamp / (totp.sliceTimeSeconds.toNat : Int) = base at *
  dsimp only
  rw [hvalid 0 (by omega) (by omega), Run.ok_bind]
  cases hzero : totp.accepts ssl provided (base + 0) with
  | true =>
    refine ⟨digestCorrect, rfl, ⟨fun h => ⟨h, 0, by omega, by omega, hzero⟩, fun h => h.1⟩⟩
  | false =>
    obtain ⟨ok, hloop, hiff⟩ := passdbValidateLoop_iff hint hvalid digestCorrect window
      (le_refl 1) (by omega)
    refine ⟨ok, hloop, hiff.trans (and_congr_right fun _ => ⟨?_, ?_⟩)⟩
    · rintro ⟨k, hk, hk', h | h⟩
      · exact ⟨-k, by omega, by omega, h⟩
      · exact ⟨k, by omega, hk', h⟩
    · rintro ⟨k, hk, hk', h⟩
      rcases lt_trichotomy k 0 with hneg | rfl | hpos
      · exact ⟨-k, by omega, by omega, Or.inl (by rwa [Int.neg_neg])⟩
      · rw [hzero] at h
        exact absurd h (by simp)
      · exact ⟨k, by omega, hk', Or.inr h⟩

/-- The last characters of the passphrase are the code of a counter in the window around the
time. -/
def PassdbEntry.HasCode (entry : PassdbEntry) (ssl : OpenSsl) (passphrase : CStr)
    (timestamp : Int) : Prop :=
  ∀ totp, entry.totp = some totp → totp.digits.toNat ≤ passphrase.length ∧
    ∃ c : Int, timestamp / totp.sliceTimeSeconds.toNat - entry.totpWindowSize.toNat ≤ c ∧
      c ≤ timestamp / totp.sliceTimeSeconds.toNat + entry.totpWindowSize.toNat ∧
      rfc6238Generate ssl totp (BitVec.ofInt 64 c) =
        .ok (some (passphrase.drop (passphrase.length - totp.digits.toNat)))

/-- The checks that follow the derivation. -/
theorem passdbValidateSplit_iff (ssl : OpenSsl) {entry : PassdbEntry} {timestamp : Int}
    (hfits : ∀ totp, entry.totp = some totp →
      WindowFits totp entry.totpWindowSize.toNat timestamp) (passphrase : CStr)
    (digest : PassdbDigest) :
    ∃ ok, passdbValidateSplit ssl entry (entry.totpPart passphrase) timestamp digest = .ok ok ∧
      (ok = true ↔ (entry.kdf = .none ∨ entry.hash = digest) ∧
        entry.HasCode ssl passphrase timestamp) := by
  cases htotp : entry.totp with
  | none =>
    refine ⟨decide (entry.kdf = .none) || entry.hash == digest, ?_, ?_⟩
    · simp only [passdbValidateSplit, passdbValidateTotp, htotp]
      rfl
    · simp [PassdbEntry.HasCode, htotp]
  | some totp =>
    obtain ⟨ok, hrun, hiff⟩ := passdbValidateSplit_window ssl htotp
      (hfits totp htotp) (entry.totpPart passphrase) digest
    refine ⟨ok, hrun, hiff.trans (and_congr_right fun _ => ?_)⟩
    unfold PassdbEntry.HasCode
    simp only [accepts_totpPart htotp, htotp, Option.some.injEq, forall_eq']
    constructor
    · rintro ⟨k, hk, hk', hlong, hcode⟩
      exact ⟨hlong, _, by omega, by omega, hcode⟩
    · rintro ⟨hlong, c, hc, hc', hcode⟩
      refine ⟨c - timestamp / totp.sliceTimeSeconds.toNat, by omega, by omega, hlong, ?_⟩
      rw [← hcode]
      congr 2
      omega

/-- Validation is the derivation, of the length that it is given, and the checks. -/
theorem passdbValidateAround_derive (ssl : OpenSsl) {entry : PassdbEntry} {timestamp : Int}
    (hfits : ∀ totp, entry.totp = some totp →
      WindowFits totp entry.totpWindowSize.toNat timestamp) (passphrase : CStr)
    (digest : PassdbDigest) :
    ∃ ok, passdbValidateAround ssl entry passphrase timestamp digest = .ok ok ∧
      (ok = true ↔ ∃ derived, entry.derivation ssl passphrase digest = some derived ∧
        (entry.kdf = .none ∨ entry.hash = derived) ∧ entry.HasCode ssl passphrase timestamp) := by
  unfold passdbValidateAround PassdbEntry.derivation
  simp only [(passdbSplit_eq entry passphrase).1]
  cases passdbDerive ssl entry passphrase
      (BitVec.ofNat 32 (entry.passphrasePart passphrase).length) digest with
  | none => exact ⟨false, rfl, iff_of_false (by simp) (by simp)⟩
  | some derived =>
    obtain ⟨ok, hrun, hiff⟩ := passdbValidateSplit_iff ssl hfits passphrase derived
    exact ⟨ok, hrun, by simpa using hiff⟩

/-! ## Lengths -/

/-- The length that the library goes by: the `int` that it is given, or that of the whole string
where it is given -1 and takes it for `strlen`. -/
def PassdbEntry.lengthRead (entry : PassdbEntry) (passphrase : CStr) : Int :=
  if entry.kdf = .pbkdf2Sha256 ∧ intLength (entry.passphrasePart passphrase) = -1 then
    intLength passphrase
  else intLength (entry.passphrasePart passphrase)

theorem PassdbEntry.lengthRead_lt (entry : PassdbEntry) (passphrase : CStr) :
    entry.lengthRead passphrase < 2 ^ 31 := by
  unfold lengthRead intLength
  split
  · exact BitVec.toInt_lt
  · exact BitVec.toInt_lt

/-- A length that is read as it is is an `int`. -/
theorem PassdbEntry.length_lt_of_lengthRead {entry : PassdbEntry} {passphrase : CStr}
    (h : entry.lengthRead passphrase = (entry.passphrasePart passphrase).length) :
    (entry.passphrasePart passphrase).length < 2 ^ 31 := by
  have hlt := entry.lengthRead_lt passphrase
  omega

theorem PassdbEntry.le_length_of_lengthRead {entry : PassdbEntry} {passphrase : CStr}
    (hne : entry.lengthRead passphrase ≠ (entry.passphrasePart passphrase).length) :
    2 ^ 31 ≤ (entry.passphrasePart passphrase).length := by
  by_contra hshort
  have hint : intLength (entry.passphrasePart passphrase) =
      (entry.passphrasePart passphrase).length := by
    have hnat : (BitVec.ofNat 32 (entry.passphrasePart passphrase).length).toNat =
        (entry.passphrasePart passphrase).length := Nat.mod_eq_of_lt (by omega)
    unfold intLength
    rw [BitVec.toInt_eq_toNat_of_lt (by omega), hnat]
  apply hne
  unfold lengthRead
  rw [if_neg (by omega), hint]

/-- Where the library goes by a negative length, nothing is derived. -/
theorem PassdbEntry.derivation_eq_none (htakes : ssl.TakesLengths) {entry : PassdbEntry}
    (hkdf : entry.kdf ≠ .none) {passphrase : CStr} (hneg : entry.lengthRead passphrase < 0)
    (digest : PassdbDigest) : entry.derivation ssl passphrase digest = none := by
  unfold lengthRead at hneg
  unfold derivation passdbDerive
  cases hcase : entry.kdf with
  | none => exact absurd hcase hkdf
  | pbkdf2Sha256 =>
    rw [hcase] at hneg
    show ssl.pkcs5Pbkdf2Hmac passphrase (intLength (entry.passphrasePart passphrase)) _ _ _ _ = none
    by_cases hone : intLength (entry.passphrasePart passphrase) = -1
    · rw [if_pos ⟨rfl, hone⟩] at hneg
      rw [hone, htakes.pkcs5Pbkdf2Hmac_strlen, if_pos hneg]
    · rw [if_neg (fun h => hone h.2)] at hneg
      exact htakes.pkcs5Pbkdf2Hmac _ _ _ _ _ _ (by omega)
  | scrypt =>
    rw [hcase, if_neg (by simp)] at hneg
    have hpass := fun ctx => htakes.setPbePass ctx passphrase _ hneg
    unfold intLength at hpass
    simp [passdbDeriveScrypt, scryptCalls, hpass]

/-- A library that derives one key at the lengths of an `int`, and another one beyond them; each of
its codes has the given value. -/
def CLib.OpenSsl.cutting (key other : PassdbDigest) (value : Nat) : OpenSsl :=
  let answer (passlen : Int) (keylen : Nat) : Option (Vector Byte keylen) :=
    if h : 0 ≤ passlen ∧ passdbPassSizeBytes = keylen then
      some (h.2 ▸ if passlen < 2 ^ 31 then key else other)
    else none
  { OpenSsl.silent with
    hmac := fun md _ _ _ => some (truncatingTo md value)
    pkcs5Pbkdf2Hmac := fun pass passlen _ _ _ keylen =>
      answer (if passlen = -1 then intLength pass else passlen) keylen
    PkeyCtx := Int
    pkeyCtxNew := some 0
    deriveInit := some
    setPbePass := fun _ _ passlen => if passlen < 0 then none else some passlen
    setScryptSalt := fun ctx _ => some ctx
    setScryptN := fun ctx _ => some ctx
    setScryptR := fun ctx _ => some ctx
    setScryptP := fun ctx _ => some ctx
    setScryptMaxmemBytes := fun ctx _ => some ctx
    derive := answer }

section Cutting

variable (key other : PassdbDigest) (value : Nat)

theorem cutting_readsPassphrase : (OpenSsl.cutting key other value).ReadsPassphrase where
  pkcs5Pbkdf2Hmac pass n salt iter md keylen _ := by
    have hne : (n : Int) ≠ -1 := by omega
    simp only [OpenSsl.cutting, if_neg hne]
  setPbePass _ _ _ _ := rfl

theorem cutting_takesLengths : (OpenSsl.cutting key other value).TakesLengths where
  pkcs5Pbkdf2Hmac pass passlen salt iter md keylen hneg := by
    have hne : passlen ≠ -1 := by omega
    have hlt : ¬0 ≤ passlen := by omega
    simp [OpenSsl.cutting, hne, hlt]
  pkcs5Pbkdf2Hmac_strlen pass salt iter md keylen := by
    by_cases hneg : intLength pass < 0
    · simp [OpenSsl.cutting, hneg, Int.not_le.mpr hneg]
    · have hne : intLength pass ≠ -1 := by omega
      simp [OpenSsl.cutting, hneg, hne]
  setPbePass ctx pass passlen hneg := if_pos hneg

theorem cutting_generate {totp : Rfc6238Config} {code : CStr}
    (hlen : code.length = totp.digits.toNat) (hdigits : ∀ c ∈ code, c.isDigit = true)
    (timecode : BitVec 64) :
    rfc6238Generate (OpenSsl.cutting key other (Nat.ofDigitChars 10 code 0)) totp timecode =
      .ok (some code) := by
  rw [rfc6238Generate_eq]
  exact congrArg (fun code => Except.ok (some code)) (totp.codeOf_truncatingTo hlen hdigits _)

/-- What the code derives there. -/
theorem cutting_derivation {entry : PassdbEntry} (hkdf : entry.kdf ≠ .none) {passphrase : CStr}
    (hread : 0 ≤ entry.lengthRead passphrase) (digest : PassdbDigest) :
    entry.derivation (OpenSsl.cutting key other value) passphrase digest = some key := by
  have hlt := entry.lengthRead_lt passphrase
  unfold PassdbEntry.lengthRead at hread hlt
  unfold PassdbEntry.derivation passdbDerive
  have hcast : (BitVec.ofNat 32 (entry.passphrasePart passphrase).length).toInt =
    intLength (entry.passphrasePart passphrase) := rfl
  cases hcase : entry.kdf with
  | none => exact absurd hcase hkdf
  | pbkdf2Sha256 =>
    simp only [hcase, true_and] at hread hlt
    simp only [passdbDerivePbkdf2Sha256, OpenSsl.cutting, hcast]
    rw [dif_pos ⟨hread, trivial⟩, if_pos hlt]
  | scrypt =>
    simp only [hcase, reduceCtorEq, false_and, if_false] at hread hlt
    simp only [passdbDeriveScrypt, scryptCalls, OpenSsl.cutting, hcast, Option.bind_eq_bind,
      Option.bind_some, if_neg (Int.not_lt.mpr hread)]
    rw [dif_pos ⟨hread, trivial⟩, if_pos hlt]

/-- What the key derivation function makes of a longer string. -/
theorem cutting_kdfOf {entry : PassdbEntry} (hkdf : entry.kdf ≠ .none) {passphrase : CStr}
    (hlong : 2 ^ 31 ≤ passphrase.length) :
    entry.kdfOf (OpenSsl.cutting key other value) passphrase = some other := by
  have hone : (passphrase.length : Int) ≠ -1 := by omega
  have hlt : ¬(passphrase.length : Int) < 2 ^ 31 := by omega
  have hpos : (0 : Int) ≤ passphrase.length := Int.natCast_nonneg _
  unfold PassdbEntry.kdfOf
  cases hcase : entry.kdf with
  | none => exact absurd hcase hkdf
  | pbkdf2Sha256 =>
    simp only [OpenSsl.cutting, if_neg hone]
    rw [dif_pos ⟨hpos, trivial⟩, if_neg hlt]
  | scrypt =>
    simp only [scryptCalls, OpenSsl.cutting, Option.bind_eq_bind, Option.bind_some,
      if_neg (Int.not_lt.mpr hpos)]
    rw [dif_pos ⟨hpos, trivial⟩, if_neg hlt]

end Cutting

/-- A passphrase validates just if the derivation does not fail, its first part derives to the
stored hash, where there is a derivation, and, where there is a configuration for one-time
passwords, its last characters are the code of a counter in the window around the time. -/
def ValidatesRightly (ssl : OpenSsl) (entry : PassdbEntry) (passphrase : CStr) (timestamp : Int)
    (digest : PassdbDigest) : Prop :=
  ∃ ok, passdbValidateAround ssl entry passphrase timestamp digest = .ok ok ∧
    (ok = true ↔ entry.derivation ssl passphrase digest ≠ none ∧
      (entry.kdf = .none ∨
        entry.kdfOf ssl (entry.passphrasePart passphrase) = some entry.hash) ∧
      entry.HasCode ssl passphrase timestamp)

/-- The derivation and the function agree on a length that is read as it is. -/
theorem PassdbEntry.derivation_eq_kdfOf (hread : ssl.ReadsPassphrase) {entry : PassdbEntry}
    (hkdf : entry.kdf ≠ .none) {passphrase : CStr}
    (hlen : (entry.passphrasePart passphrase).length < 2 ^ 31) (digest : PassdbDigest) :
    entry.derivation ssl passphrase digest =
      entry.kdfOf ssl (entry.passphrasePart passphrase) := by
  obtain ⟨-, hle, htake⟩ := passdbSplit_eq entry passphrase
  have hderive := passdbDerive_take hread entry hle hlen digest
  rwa [htake, if_neg hkdf] at hderive

/-- A text with another character in it than a digit is no code. -/
theorem PassdbEntry.not_hasCode {entry : PassdbEntry} {totp : Rfc6238Config}
    (htotp : entry.totp = some totp) {passphrase : CStr} {c : Char}
    (hc : c ∈ entry.totpPart passphrase) (hdigit : c.isDigit = false) (timestamp : Int) :
    ¬entry.HasCode ssl passphrase timestamp := by
  intro h
  obtain ⟨hlong, counter, -, -, hcode⟩ := h totp htotp
  rw [rfc6238Generate_eq] at hcode
  obtain ⟨hmac, -, hcodeOf⟩ := Option.map_eq_some_iff.mp (Except.ok.inj hcode)
  have hpart : entry.totpPart passphrase = totp.codeOf hmac.toList := by
    unfold totpPart
    rw [htotp, hcodeOf]
    exact if_pos hlong
  rw [hpart] at hc
  rw [(totp.isCode_codeOf hmac.toList).decimal c hc] at hdigit
  exact absurd hdigit (by simp)

/-- Where the length is kept, a passphrase validates rightly. -/
theorem validatesRightly_of_kept (hread : ssl.ReadsPassphrase) (htakes : ssl.TakesLengths)
    {entry : PassdbEntry} {passphrase : CStr} {timestamp : Int} (digest : PassdbDigest)
    (hfits : ∀ totp, entry.totp = some totp →
      WindowFits totp entry.totpWindowSize.toNat timestamp)
    (hkept : entry.kdf = .none ∨ entry.lengthRead passphrase < 0 ∨
      entry.lengthRead passphrase = (entry.passphrasePart passphrase).length ∨
      ∃ c ∈ entry.totpPart passphrase, c.isDigit = false) :
    ValidatesRightly ssl entry passphrase timestamp digest := by
  obtain ⟨ok, hrun, hok⟩ := passdbValidateAround_derive ssl hfits passphrase digest
  refine ⟨ok, hrun, hok.trans ?_⟩
  by_cases hkdf : entry.kdf = .none
  · have hsome : entry.derivation ssl passphrase digest = some digest := by
      unfold PassdbEntry.derivation passdbDerive
      rw [hkdf]
      rfl
    simp [hsome, hkdf]
  rcases hkept.resolve_left hkdf with hneg | hlen | ⟨c, hc, hdigit⟩
  · simp [PassdbEntry.derivation_eq_none htakes hkdf hneg digest]
  · have heq := PassdbEntry.derivation_eq_kdfOf hread hkdf
      (PassdbEntry.length_lt_of_lengthRead hlen) digest
    simp only [heq, hkdf, false_or]
    constructor
    · rintro ⟨derived, hderived, hhash, hcode⟩
      exact ⟨by simp [hderived], by rw [hderived, hhash], hcode⟩
    · rintro ⟨-, hhash, hcode⟩
      exact ⟨entry.hash, hhash, rfl, hcode⟩
  · obtain ⟨totp, htotp⟩ : ∃ totp, entry.totp = some totp := by
      unfold PassdbEntry.totpPart at hc
      cases htotp : entry.totp with
      | none => simp [htotp] at hc
      | some totp => exact ⟨totp, rfl⟩
    have hno : ¬entry.HasCode ssl passphrase timestamp :=
      PassdbEntry.not_hasCode htotp hc hdigit timestamp
    simp [hno]

theorem exists_digest_ne (key : PassdbDigest) : ∃ other : PassdbDigest, other ≠ key := by
  refine ⟨Vector.replicate _ (key[0] + 1), fun heq => ?_⟩
  have hfirst : key[0] + 1 = key[0] := by
    conv_rhs => rw [← heq]
    exact (Vector.getElem_replicate _).symm
  exact absurd hfirst (by simp)

/-- Where it is cut, the library that derives the hash from what is read of the passphrase, and has
its last characters for a code, makes it validate. -/
theorem cutting_validates (other : PassdbDigest) {entry : PassdbEntry} (hkdf : entry.kdf ≠ .none)
    {passphrase : CStr} (hread : 0 ≤ entry.lengthRead passphrase)
    (hlong : 2 ^ 31 ≤ (entry.passphrasePart passphrase).length)
    (hdigits : ∀ c ∈ entry.totpPart passphrase, c.isDigit = true) {timestamp : Int}
    (hfits : ∀ totp, entry.totp = some totp →
      WindowFits totp entry.totpWindowSize.toNat timestamp) (digest : PassdbDigest) :
    passdbValidateAround (OpenSsl.cutting entry.hash other
      (Nat.ofDigitChars 10 (entry.totpPart passphrase) 0)) entry passphrase timestamp digest =
      .ok true := by
  obtain ⟨ok, hrun, hok⟩ := passdbValidateAround_derive
    (OpenSsl.cutting entry.hash other (Nat.ofDigitChars 10 (entry.totpPart passphrase) 0)) hfits
    passphrase digest
  obtain rfl : ok = true := by
    refine hok.mpr ⟨entry.hash, cutting_derivation _ _ _ hkdf hread digest, .inr rfl, ?_⟩
    intro totp htotp
    have hle := (passdbSplit_eq entry passphrase).2.1
    have hdigitsLe : totp.digits.toNat ≤ passphrase.length :=
      le_trans totp.digits_le (by omega)
    obtain ⟨-, hpart, hlen⟩ := entry.length_totpPart htotp hdigitsLe
    refine ⟨hdigitsLe, timestamp / totp.sliceTimeSeconds.toNat, by omega, by omega, ?_⟩
    rw [← hpart]
    exact cutting_generate _ _ hlen hdigits _
  exact hrun

/-- **Validation.** Whatever the library derives and authenticates, a passphrase validates rightly
if and only if nothing is derived from it, or the length by which the library goes is negative or
that of its first part, or its last part can be no code. -/
theorem passdbValidateAround_iff (entry : PassdbEntry) (passphrase : CStr) (timestamp : Int)
    (digest : PassdbDigest)
    (hfits : ∀ totp, entry.totp = some totp →
      WindowFits totp entry.totpWindowSize.toNat timestamp) :
    (∀ ssl : OpenSsl, ssl.ReadsPassphrase → ssl.TakesLengths →
      ValidatesRightly ssl entry passphrase timestamp digest) ↔
    entry.kdf = .none ∨ entry.lengthRead passphrase < 0 ∨
      entry.lengthRead passphrase = (entry.passphrasePart passphrase).length ∨
      ∃ c ∈ entry.totpPart passphrase, c.isDigit = false := by
  constructor
  · intro h
    by_contra hcut
    simp only [not_or, not_exists, not_and, Bool.not_eq_false] at hcut
    obtain ⟨hkdf, hneg, hne, hdigits⟩ := hcut
    -- a length that is read as another one is no `int`
    have hlong : 2 ^ 31 ≤ (entry.passphrasePart passphrase).length :=
      PassdbEntry.le_length_of_lengthRead hne
    obtain ⟨other, hother⟩ := exists_digest_ne entry.hash
    obtain ⟨ok, hrun, hok⟩ := h _
      (cutting_readsPassphrase entry.hash other (Nat.ofDigitChars 10 (entry.totpPart passphrase) 0))
      (cutting_takesLengths _ _ _)
    have hvalid := cutting_validates other hkdf (Int.not_lt.mp hneg) hlong hdigits hfits digest
    obtain rfl : true = ok := Except.ok.inj (hvalid.symm.trans hrun)
    obtain ⟨-, hhash, -⟩ := hok.mp rfl
    rw [cutting_kdfOf _ _ _ hkdf hlong] at hhash
    rcases hhash with h | h
    · exact hkdf h
    · exact hother (Option.some.inj h)
  · intro hkept ssl hread htakes
    exact validatesRightly_of_kept hread htakes digest hfits hkept

/-! ## Runs on test data -/

/-- The entry of `test_passdb_custom_params_pbkdf2`. -/
def testEntry : PassdbEntry where
  kdf := .pbkdf2Sha256
  params := ⟨281, 0, 0, 0⟩
  salt := #v[0xed, 0x01, 0xcf, 0xea, 0x2e, 0x2f, 0x3d, 0xd8, 0x30, 0x19, 0x7b, 0xbc, 0x87, 0x78,
    0x7b, 0x63]
  hash := #v[0x54, 0x22, 0x32, 0x18, 0xca, 0x0e, 0xa8, 0x29, 0x16, 0x5c, 0x81, 0x92, 0x7d, 0x60,
    0x4f, 0x22, 0x84, 0xf1, 0x82, 0x49, 0x88, 0xa6, 0xf5, 0x84, 0x60, 0x1a, 0x48, 0x31, 0x8d, 0x40,
    0xcd, 0xe1]
  totp := none
  totpWindowSize := 0

/-- A library that knows the answers for the test data. -/
def testSsl : OpenSsl :=
  { OpenSsl.silent with
    hmac := fun md key _ data =>
      match md with
      | .sha1 => if key = testSecret then testHmac data else none
      | _ => none
    pkcs5Pbkdf2Hmac := fun pass passlen salt iter md keylen =>
      let passlen := if passlen = -1 then intLength pass else passlen
      if h : keylen = passdbPassSizeBytes then
        if pass.take passlen.toNat = "31AnNyAi6z".toList ∧ salt = testEntry.salt.toList ∧
            iter = 281 ∧ md = .sha256 then some (h ▸ testEntry.hash)
        else none
      else none }

theorem testSsl_readsPassphrase : testSsl.ReadsPassphrase where
  pkcs5Pbkdf2Hmac pass n salt iter md keylen _ := by
    have hne : (n : Int) ≠ -1 := by omega
    simp only [testSsl, if_neg hne, Int.toNat_natCast, List.take_take, Nat.min_self]
  setPbePass _ _ _ _ := rfl

theorem testSsl_pkcs5Pbkdf2Hmac_eq_none {pass : CStr} {passlen : Int}
    (h : (if passlen = -1 then intLength pass else passlen).toNat = 0) (salt : List Byte)
    (iter : Int) (md : EvpMd) (keylen : Nat) :
    testSsl.pkcs5Pbkdf2Hmac pass passlen salt iter md keylen = none := by
  show (if h : keylen = passdbPassSizeBytes then _ else _) = none
  split
  · refine if_neg fun hpass => ?_
    rw [h, List.take_zero] at hpass
    exact absurd hpass.1 (by decide)
  · rfl

theorem testSsl_takesLengths : testSsl.TakesLengths where
  pkcs5Pbkdf2Hmac pass passlen salt iter md keylen hneg := by
    apply testSsl_pkcs5Pbkdf2Hmac_eq_none
    rw [if_neg (by omega)]
    omega
  pkcs5Pbkdf2Hmac_strlen pass salt iter md keylen := by
    by_cases hneg : intLength pass < 0
    · rw [if_pos hneg]
      apply testSsl_pkcs5Pbkdf2Hmac_eq_none
      rw [if_pos rfl]
      omega
    · rw [if_neg hneg]
      simp only [testSsl, ite_self, if_true]
  setPbePass _ _ _ _ := rfl

/-- The test entry once `testConfig` is attached, with a window of one slice. -/
def testTotpEntry : PassdbEntry :=
  { testEntry with totp := some testConfig, totpWindowSize := 1 }

theorem testConfig_generate :
    rfc6238Generate testSsl testConfig (BitVec.ofInt 64 1) = .ok (some "94287082".toList) := by
  rfl

/-- A second into the slice of counter 2 the code of counter 1 still validates. -/
theorem passdbValidateAround_iff_test :
    passdbAttachTotp testEntry testConfig 30 = .ok testTotpEntry ∧
      passdbValidateAround testSsl testTotpEntry "31AnNyAi6z94287082".toList 61
        (Vector.replicate _ 0) = .ok true := by
  refine ⟨rfl, ?_⟩
  have hfits : ∀ totp, testTotpEntry.totp = some totp →
      WindowFits totp testTotpEntry.totpWindowSize.toNat 61 := by
    intro totp htotp
    obtain rfl : testConfig = totp := Option.some.inj htotp
    constructor <;> decide
  obtain ⟨ok, hrun, hok⟩ := (passdbValidateAround_iff testTotpEntry "31AnNyAi6z94287082".toList 61
    (Vector.replicate _ 0) hfits).mpr (.inr (.inr (.inl (by decide)))) testSsl
    testSsl_readsPassphrase testSsl_takesLengths
  rw [hrun, hok.mpr]
  refine ⟨by decide, .inr rfl, fun totp htotp => ?_⟩
  obtain rfl : testConfig = totp := Option.some.inj htotp
  exact ⟨by decide, 1, by decide, by decide, testConfig_generate⟩

/-- A library whose derived keys tell the empty passphrase from the others, and which fails where
the length is negative. -/
def lengthSsl : OpenSsl :=
  { OpenSsl.silent with
    pkcs5Pbkdf2Hmac := fun pass passlen _ _ _ keylen =>
      let passlen := if passlen = -1 then intLength pass else passlen
      if passlen < 0 then none
      else some (Vector.replicate keylen (if passlen = 0 then 0 else 1)) }

theorem lengthSsl_readsPassphrase : lengthSsl.ReadsPassphrase where
  pkcs5Pbkdf2Hmac pass n salt iter md keylen _ := by
    have hne : (n : Int) ≠ -1 := by omega
    simp only [lengthSsl, if_neg hne]
  setPbePass _ _ _ _ := rfl

theorem lengthSsl_takesLengths : lengthSsl.TakesLengths where
  pkcs5Pbkdf2Hmac pass passlen salt iter md keylen hneg := by
    have hne : passlen ≠ -1 := by omega
    have hlt : passlen < 0 := by omega
    simp [lengthSsl, hne, hlt]
  pkcs5Pbkdf2Hmac_strlen pass salt iter md keylen := by
    by_cases hneg : intLength pass < 0
    · simp [lengthSsl, hneg]
    · have hne : intLength pass ≠ -1 := by omega
      simp [lengthSsl, hneg, hne]
  setPbePass _ _ _ _ := rfl

/-- An entry of `lengthSsl`, with the key of the empty passphrase. -/
def emptyEntry : PassdbEntry := { testEntry with hash := Vector.replicate _ 0 }

/-- Without a one-time password the digest decides. -/
theorem passdbValidateAround_emptyEntry (passphrase : CStr) (digest : PassdbDigest) :
    passdbValidateAround lengthSsl emptyEntry passphrase 0 digest =
      match passdbDerive lengthSsl emptyEntry passphrase
        (BitVec.ofNat 32 passphrase.length) digest with
      | none => .ok false
      | some digest => .ok (emptyEntry.hash == digest) := by
  show (match passdbDerive lengthSsl emptyEntry passphrase
      (BitVec.ofNat 32 passphrase.length) digest with
    | none => _
    | some digest => passdbValidateSplit _ _ _ _ digest) = _
  cases passdbDerive lengthSsl emptyEntry passphrase (BitVec.ofNat 32 passphrase.length)
    digest <;> rfl

/-- A passphrase of `2 ^ 32` characters validates where the empty one does, although the derivation
tells the two apart. -/
theorem passdbValidateAround_truncates :
    lengthSsl.ReadsPassphrase ∧ lengthSsl.TakesLengths ∧
      passdbValidateAround lengthSsl emptyEntry [] 0 (Vector.replicate _ 0) = .ok true ∧
      passdbValidateAround lengthSsl emptyEntry (List.replicate (2 ^ 32) 'A') 0
        (Vector.replicate _ 0) = .ok true ∧
      emptyEntry.kdfOf lengthSsl (List.replicate (2 ^ 32) 'A') ≠ some emptyEntry.hash ∧
      ¬ValidatesRightly lengthSsl emptyEntry (List.replicate (2 ^ 32) 'A') 0
        (Vector.replicate _ 0) := by
  have hlong : (List.replicate (2 ^ 32) 'A').length = 2 ^ 32 := List.length_replicate
  have hvalid : passdbValidateAround lengthSsl emptyEntry (List.replicate (2 ^ 32) 'A') 0
      (Vector.replicate _ 0) = .ok true := by
    rw [passdbValidateAround_emptyEntry, hlong]
    rfl
  have hother : emptyEntry.kdfOf lengthSsl (List.replicate (2 ^ 32) 'A') ≠
      some emptyEntry.hash := by
    have hkdf : emptyEntry.kdfOf lengthSsl (List.replicate (2 ^ 32) 'A') =
        some (Vector.replicate _ 1) := by
      unfold PassdbEntry.kdfOf
      rw [hlong]
      rfl
    rw [hkdf]
    decide
  refine ⟨lengthSsl_readsPassphrase, lengthSsl_takesLengths, rfl, hvalid, hother, ?_⟩
  rintro ⟨ok, hrun, hok⟩
  obtain rfl : true = ok := Except.ok.inj (hvalid.symm.trans hrun)
  rcases (hok.mp rfl).2.1 with h | h
  · exact absurd h (by decide)
  · exact hother h

end Umsftpd
