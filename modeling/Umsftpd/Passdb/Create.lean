import Umsftpd.Passdb.Validate

/-!
# What is created validates

Creating an entry and validating a passphrase against it give the derivation the same length, with
or without a one-time password behind the passphrase. The window in seconds is rounded up to slices,
so the code of any time in it is the code of a counter that is tried.
-/

namespace Umsftpd

open CLib

variable {ssl : OpenSsl}

/-! ## The derivation -/

/-- The derivation reads no further than the length it is given. -/
theorem passdbDerive_append (hread : ssl.ReadsPassphrase) (entry : PassdbEntry) {passphrase : CStr}
    (hint : entry.kdf = .none ∨ 0 ≤ intLength passphrase) (code : CStr) (digest : PassdbDigest) :
    passdbDerive ssl entry (passphrase ++ code) (BitVec.ofNat 32 passphrase.length) digest =
      passdbDerive ssl entry passphrase (BitVec.ofNat 32 passphrase.length) digest := by
  unfold passdbDerive
  rcases hint with hkdf | hint
  · rw [hkdf]
    rfl
  · obtain ⟨n, hn, heq⟩ := intLength_eq hint
    have hn' : n ≤ (passphrase ++ code).length := by
      rw [List.length_append]
      omega
    have htake : (passphrase ++ code).take n = passphrase.take n := List.take_append_of_le_length hn
    unfold intLength at heq
    cases entry.kdf with
    | none => rfl
    | pbkdf2Sha256 =>
      dsimp only
      unfold passdbDerivePbkdf2Sha256
      rw [heq, hread.pkcs5Pbkdf2Hmac _ _ _ _ _ _ hn', hread.pkcs5Pbkdf2Hmac _ _ _ _ _ _ hn, htake]
    | scrypt =>
      dsimp only
      unfold passdbDeriveScrypt scryptCalls
      simp only [heq, hread.setPbePass _ _ _ hn', hread.setPbePass _ _ _ hn, htake]

/-- Where the derivation succeeds, the library has been given a length. -/
theorem passdbDerive_intLength (hrefuse : ssl.RefusesNegative) {entry : PassdbEntry}
    {passphrase : CStr} {digest hash : PassdbDigest}
    (h : passdbDerive ssl entry passphrase (BitVec.ofNat 32 passphrase.length) digest =
      some hash) :
    entry.kdf = .none ∨ 0 ≤ intLength passphrase := by
  by_contra hnot
  rw [not_or, not_le] at hnot
  obtain ⟨hkdf, hneg⟩ := hnot
  unfold passdbDerive at h
  cases hcase : entry.kdf with
  | none => exact hkdf hcase
  | pbkdf2Sha256 =>
    rw [hcase] at h
    have hnone := hrefuse.pkcs5Pbkdf2Hmac passphrase entry.salt.toList
      entry.params.iterations.toInt .sha256 passdbPassSizeBytes hneg
    exact absurd (hnone.symm.trans h) (by simp)
  | scrypt =>
    rw [hcase] at h
    have hpass := fun ctx => hrefuse.setPbePass ctx passphrase hneg
    unfold intLength at hpass
    unfold passdbDeriveScrypt scryptCalls at h
    simp [hpass] at h

/-- An entry as `passdb_create_entry` leaves it: its hash comes from the passphrase, whatever is
in the array before. -/
structure PassdbEntry.CreatedFrom (ssl : OpenSsl) (entry : PassdbEntry) (passphrase : CStr) :
    Prop where
  intLength : entry.kdf = .none ∨ 0 ≤ CLib.intLength passphrase
  derive : ∀ digest, ∃ hash,
    passdbDerive ssl entry passphrase (BitVec.ofNat 32 passphrase.length) digest = some hash ∧
      (entry.kdf = .none ∨ entry.hash = hash)

theorem passdbCreateEntry_createdFrom (hrefuse : ssl.RefusesNegative)
    {getrandom : Option (Vector Byte passdbSaltSizeBytes)} {entry : PassdbEntry} {kdf : PassdbKdf}
    {params : Option PassdbKdfParams} {passphrase : CStr} {created : PassdbEntry}
    (h : passdbCreateEntry ssl getrandom entry kdf params passphrase = some created) :
    created.CreatedFrom ssl passphrase ∧ created.totp = entry.totp := by
  unfold passdbCreateEntry at h
  obtain ⟨salt, -, h⟩ := Option.bind_eq_some_iff.mp h
  obtain ⟨hash, hderive, h⟩ := Option.bind_eq_some_iff.mp h
  obtain rfl := Option.some.inj h
  refine ⟨⟨passdbDerive_intLength hrefuse hderive, fun digest => ?_⟩, rfl⟩
  -- without a derivation the array is left alone, and with one it is filled anew
  cases kdf with
  | none => exact ⟨digest, rfl, .inl rfl⟩
  | pbkdf2Sha256 => exact ⟨hash, hderive, .inr rfl⟩
  | scrypt => exact ⟨hash, hderive, .inr rfl⟩

/-! ## Validating -/

/-- A passphrase with a code behind it is split where the code starts. -/
theorem passdbSplit_append {entry : PassdbEntry} {totp : Rfc6238Config}
    (htotp : entry.totp = some totp) {code : CStr} (hcode : code.length = totp.digits.toNat)
    (passphrase : CStr) : passdbSplit entry (passphrase ++ code) = (code, passphrase.length) := by
  have hlen : (passphrase ++ code).length = passphrase.length + totp.digits.toNat := by
    rw [List.length_append, hcode]
  unfold passdbSplit
  rw [htotp]
  dsimp only
  rw [hlen, if_pos (Nat.le_add_left _ _), Nat.add_sub_cancel, List.drop_left]

/-- The window in slices, computed with `unsigned int`s. -/
theorem passdbAttachTotp_eq (entry : PassdbEntry) {totp : Rfc6238Config}
    (hslice : totp.sliceTimeSeconds ≠ 0) (w : BitVec 32) :
    passdbAttachTotp entry totp w = .ok { entry with
      totp := some totp
      totpWindowSize := (w + totp.sliceTimeSeconds - 1) / totp.sliceTimeSeconds } := by
  unfold passdbAttachTotp
  rw [unsignedDiv_ok _ hslice]
  rfl

/-- It is rounded up, as long as an `unsigned int` is enough. -/
theorem passdbAttachTotp_ok (entry : PassdbEntry) {totp : Rfc6238Config}
    (hslice : 1 ≤ totp.sliceTimeSeconds.toNat) {w : BitVec 32}
    (hfits : w.toNat + totp.sliceTimeSeconds.toNat ≤ 2 ^ 32) :
    ∃ totpWindowSize : BitVec 32,
      passdbAttachTotp entry totp w =
        .ok { entry with totp := some totp, totpWindowSize := totpWindowSize } ∧
      totpWindowSize.toNat = w.toNat ⌈/⌉ totp.sliceTimeSeconds.toNat := by
  have hne : totp.sliceTimeSeconds ≠ 0 := by
    intro h
    rw [h] at hslice
    exact absurd hslice (by decide)
  have hsum : (w + totp.sliceTimeSeconds - 1).toNat =
      w.toNat + totp.sliceTimeSeconds.toNat - 1 := by
    bv_omega
  refine ⟨_, passdbAttachTotp_eq entry hne w, ?_⟩
  rw [BitVec.toNat_udiv, hsum, Nat.ceilDiv_eq_add_pred_div]

/-- Times that are at most `w` seconds apart are in slices that are no further apart than the window
in slices. -/
theorem slices_near {s w : Nat} (hs : 1 ≤ s) {t t' : Int} (hnear : |t - t'| ≤ w) :
    -((w ⌈/⌉ s : Nat) : Int) ≤ t' / s - t / s ∧ t' / s - t / s ≤ (w ⌈/⌉ s : Nat) := by
  have hwindow : (w : Int) ≤ (w ⌈/⌉ s : Nat) * s := by
    have hle := le_smul_ceilDiv (b := w) (Nat.lt_of_succ_le hs)
    rw [smul_eq_mul, Nat.mul_comm] at hle
    exact_mod_cast hle
  have hne : (s : Int) ≠ 0 := by omega
  -- a slice is at most the window behind another when their times are
  have hmono : ∀ x y : Int, x ≤ y + w → x / s ≤ y / s + (w ⌈/⌉ s : Nat) := by
    intro x y hxy
    rw [← Int.add_mul_ediv_right _ _ hne]
    exact Int.ediv_le_ediv (by omega) (hxy.trans (Int.add_le_add_left hwindow y))
  obtain ⟨hlow, hhigh⟩ := abs_le.mp hnear
  have hforth := hmono t' t (by omega)
  have hback := hmono t t' (by omega)
  omega

/-- A window that is rounded up to slices fits if there is room for two more slices. -/
theorem WindowFits.of_ceilDiv {totp : Rfc6238Config} (hslice : 1 ≤ totp.sliceTimeSeconds.toNat)
    {w : Nat} (hw : w + 2 * totp.sliceTimeSeconds.toNat ≤ 2 ^ 31) {t : Int}
    (hstarts :
      ((w ⌈/⌉ totp.sliceTimeSeconds.toNat : Nat) * totp.sliceTimeSeconds.toNat : Int) ≤ t)
    (htime :
      t + (w ⌈/⌉ totp.sliceTimeSeconds.toNat : Nat) * totp.sliceTimeSeconds.toNat < 2 ^ 63) :
    WindowFits totp (w ⌈/⌉ totp.sliceTimeSeconds.toNat) t := by
  refine ⟨hslice, hstarts, ?_, htime⟩
  have hround := Nat.div_mul_le_self (w + totp.sliceTimeSeconds.toNat - 1)
    totp.sliceTimeSeconds.toNat
  rw [← Nat.ceilDiv_eq_add_pred_div] at hround
  have hroundInt : ((w ⌈/⌉ totp.sliceTimeSeconds.toNat : Nat) * totp.sliceTimeSeconds.toNat : Int) ≤
      (w + totp.sliceTimeSeconds.toNat - 1 : Nat) := by
    exact_mod_cast hround
  rw [Int.add_mul, Int.one_mul]
  omega

/-- The digest is right, whatever the array held. -/
theorem PassdbEntry.CreatedFrom.validateAround {entry : PassdbEntry} {passphrase : CStr}
    (hread : ssl.ReadsPassphrase) (hcreated : entry.CreatedFrom ssl passphrase)
    {totp : Option Rfc6238Config} {totpWindowSize : BitVec 32} {code provided : CStr}
    (hsplit : passdbSplit { entry with totp := totp, totpWindowSize := totpWindowSize }
      (passphrase ++ code) = (provided, passphrase.length)) (timestamp : Int)
    (digest : PassdbDigest) :
    ∃ hash, (entry.kdf = .none ∨ entry.hash = hash) ∧
      passdbValidateAround ssl { entry with totp := totp, totpWindowSize := totpWindowSize }
        (passphrase ++ code) timestamp digest =
      passdbValidateSplit ssl { entry with totp := totp, totpWindowSize := totpWindowSize }
        provided timestamp hash := by
  obtain ⟨hash, hderive, hcorrect⟩ := hcreated.derive digest
  have happend := passdbDerive_append hread entry hcreated.intLength code digest
  refine ⟨hash, hcorrect, ?_⟩
  have hattached : passdbDerive ssl { entry with totp := totp, totpWindowSize := totpWindowSize }
      (passphrase ++ code) (BitVec.ofNat 32 passphrase.length) digest = some hash :=
    happend.trans hderive
  unfold passdbValidateAround
  rw [hsplit]
  dsimp only
  rw [hattached]

/-- Without a configuration the passphrase validates. -/
theorem PassdbEntry.CreatedFrom.validates {entry : PassdbEntry} {passphrase : CStr}
    (hread : ssl.ReadsPassphrase) (hcreated : entry.CreatedFrom ssl passphrase)
    (htotp : entry.totp = none) (timestamp : Int) (digest : PassdbDigest) :
    passdbValidateAround ssl entry passphrase timestamp digest = .ok true := by
  have hsplit : passdbSplit entry (passphrase ++ []) = ([], passphrase.length) := by
    unfold passdbSplit
    rw [htotp, List.append_nil]
  obtain ⟨hash, hcorrect, hrun⟩ := hcreated.validateAround hread hsplit timestamp digest
  have hdigest : (decide (entry.kdf = .none) || entry.hash == hash) = true := by
    rwa [Bool.or_eq_true, decide_eq_true_iff, beq_iff_eq]
  rw [List.append_nil] at hrun
  refine hrun.trans ?_
  simp only [passdbValidateSplit, passdbValidateTotp, htotp]
  exact congrArg Except.ok hdigest

/-- With a configuration the passphrase validates with the code of a time in the window. -/
theorem PassdbEntry.CreatedFrom.validates_code {entry : PassdbEntry} {passphrase : CStr}
    (hread : ssl.ReadsPassphrase) (hcreated : entry.CreatedFrom ssl passphrase)
    {totp : Rfc6238Config} {totpWindowSize : BitVec 32} {w : Nat} {t t' : Int}
    (hnear : |t - t'| ≤ w)
    (hwindow : totpWindowSize.toNat = w ⌈/⌉ totp.sliceTimeSeconds.toNat)
    (hfits : WindowFits totp totpWindowSize.toNat t) (hpast : 0 ≤ t') {code : CStr}
    (hgen : rfc6238GenerateAt ssl totp t' = .ok (some code)) (digest : PassdbDigest) :
    passdbValidateAround ssl { entry with totp := some totp, totpWindowSize := totpWindowSize }
      (passphrase ++ code) t digest = .ok true := by
  rw [rfc6238GenerateAt_eq ssl totp hfits.slice_pos hpast] at hgen
  have hcode : code.length = totp.digits.toNat := by
    obtain ⟨code', hcode', hlen⟩ := rfc6238Generate_ok ssl totp
      (BitVec.ofInt 64 (t' / totp.sliceTimeSeconds.toNat))
    exact hlen code (Except.ok.inj (hcode'.symm.trans hgen))
  have hattached : ({ entry with totp := some totp, totpWindowSize := totpWindowSize } :
      PassdbEntry).totp = some totp := rfl
  obtain ⟨hash, hcorrect, hrun⟩ := hcreated.validateAround hread
    (passdbSplit_append hattached hcode passphrase) t digest
  obtain ⟨ok, hsearch, hiff⟩ := passdbValidateSplit_window ssl hattached hfits code hash
  obtain ⟨hlow, hhigh⟩ := slices_near hfits.slice_pos hnear
  -- the offset that leads from the slice of `t` to that of `t'`
  have hoffset : ok = true := by
    refine hiff.mpr ⟨hcorrect, t' / totp.sliceTimeSeconds.toNat - t / totp.sliceTimeSeconds.toNat,
      ?_, ?_, ?_⟩
    · rwa [hwindow]
    · rwa [hwindow]
    · rw [Rfc6238Config.accepts_iff, add_sub_cancel]
      exact hgen
  rw [hrun, hsearch, hoffset]

/-- **Create, then validate.** What `passdb_create_entry` makes of a passphrase validates with it,
and with a configuration attached also with the code of a time in the window behind it. -/
theorem passdbCreateEntry_validates (hread : ssl.ReadsPassphrase) (hrefuse : ssl.RefusesNegative)
    {getrandom : Option (Vector Byte passdbSaltSizeBytes)} {kdf : PassdbKdf}
    {params : Option PassdbKdfParams} {passphrase : CStr} {entry : PassdbEntry}
    (hcreate : passdbCreateEntry ssl getrandom .zeroed kdf params passphrase = some entry) :
    (∀ timestamp digest, passdbValidateAround ssl entry passphrase timestamp digest = .ok true) ∧
    ∀ (totp : Rfc6238Config) (w : BitVec 32), 1 ≤ totp.sliceTimeSeconds.toNat →
      w.toNat + 2 * totp.sliceTimeSeconds.toNat ≤ 2 ^ 31 →
      ∃ attached, passdbAttachTotp entry totp w = .ok attached ∧
        ∀ (t t' : Int) (code : CStr) digest, |t - t'| ≤ w.toNat →
          let W := w.toNat ⌈/⌉ totp.sliceTimeSeconds.toNat
          (W * totp.sliceTimeSeconds.toNat : Int) ≤ t →
          (W * totp.sliceTimeSeconds.toNat : Int) ≤ t' →
          t + W * totp.sliceTimeSeconds.toNat < 2 ^ 63 →
          rfc6238GenerateAt ssl totp t' = .ok (some code) →
          passdbValidateAround ssl attached (passphrase ++ code) t digest = .ok true := by
  obtain ⟨hcreated, htotp⟩ := passdbCreateEntry_createdFrom hrefuse hcreate
  constructor
  · exact hcreated.validates hread htotp
  · intro totp w hslice hw
    obtain ⟨totpWindowSize, hattach, hwindow⟩ :=
      passdbAttachTotp_ok entry hslice (w := w) (by omega)
    refine ⟨_, hattach, ?_⟩
    intro t t' code digest hnear W hstarts hstarts' htime hgen
    have hpast : 0 ≤ t' := le_trans (by positivity) hstarts'
    have hfits : WindowFits totp totpWindowSize.toNat t := by
      rw [hwindow]
      exact WindowFits.of_ceilDiv hslice hw hstarts htime
    exact hcreated.validates_code hread hnear hwindow hfits hpast hgen digest

theorem testSsl_refusesNegative : testSsl.RefusesNegative where
  pkcs5Pbkdf2Hmac pass salt iter md keylen hneg := by
    apply testSsl_pkcs5Pbkdf2Hmac_eq_none
    rw [ite_self]
    omega
  setPbePass _ _ _ := rfl

theorem testConfig_generateAt :
    rfc6238GenerateAt testSsl testConfig 31 = .ok (some "94287082".toList) := by
  have hslice : (31 : Int) / testConfig.sliceTimeSeconds.toNat = 1 := by decide
  rw [rfc6238GenerateAt_eq testSsl testConfig (by decide) (by decide), hslice]
  exact testConfig_generate

/-- With a window of 30 seconds the code of second 31 validates at second 61. -/
theorem passdbCreateEntry_validates_test :
    passdbCreateEntry testSsl (some testEntry.salt) .zeroed .pbkdf2Sha256 (some ⟨281, 0, 0, 0⟩)
        "31AnNyAi6z".toList = some testEntry ∧
      passdbValidateAround testSsl testEntry "31AnNyAi6z".toList 61 (Vector.replicate _ 0) =
        .ok true ∧
      ∃ attached, passdbAttachTotp testEntry testConfig 30 = .ok attached ∧
        passdbValidateAround testSsl attached ("31AnNyAi6z".toList ++ "94287082".toList) 61
          (Vector.replicate _ 0) = .ok true := by
  have hcreate : passdbCreateEntry testSsl (some testEntry.salt) .zeroed .pbkdf2Sha256
      (some ⟨281, 0, 0, 0⟩) "31AnNyAi6z".toList = some testEntry := rfl
  obtain ⟨hplain, htotp⟩ := passdbCreateEntry_validates testSsl_readsPassphrase
    testSsl_refusesNegative hcreate
  obtain ⟨attached, hattach, hcode⟩ := htotp testConfig 30 (by decide) (by decide)
  refine ⟨hcreate, hplain _ _, attached, hattach, ?_⟩
  exact hcode 61 31 _ _ (by decide) (by decide) (by decide) (by decide) testConfig_generateAt

end Umsftpd
