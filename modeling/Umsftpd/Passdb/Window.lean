import Umsftpd.Passdb.Create
import Umsftpd.Systems.Logged

/-!
# The arithmetic of the window

A window in seconds is rounded up to slices with `unsigned int`s, the offsets in slices are `int`s,
and so are their products with the length of a slice. The arithmetic is exact as long as the window
in slices, times a slice, is an `int`, and it is defined at all as long as a slice is not empty.
-/

namespace Umsftpd

open CLib
open Systems (Logged)

/-! ## Divisions -/

/-- A run that divides by zero nowhere, as far as it gets. -/
def CLib.Run.DividesSafely {α : Type} (x : Run α) : Prop := x ≠ .error .divisionByZero

theorem CLib.Run.DividesSafely.pure {α : Type} (a : α) : (Pure.pure a : Run α).DividesSafely :=
  nofun

theorem CLib.Run.DividesSafely.bind {α β : Type} {x : Run α} {f : α → Run β} (hx : x.DividesSafely)
    (hf : ∀ a, (f a).DividesSafely) : (x >>= f).DividesSafely := by
  cases x with
  | error e => exact fun h => hx (congrArg _ (Except.error.inj h))
  | ok a => exact hf a

theorem checkInt_dividesSafely (x : Int) : (checkInt x).DividesSafely := by
  unfold checkInt Run.DividesSafely
  split <;> simp

theorem checkLong_dividesSafely (x : Int) : (checkLong x).DividesSafely := by
  unfold checkLong Run.DividesSafely
  split <;> simp

theorem rfc6238GenerateAt_dividesSafely_iff (ssl : OpenSsl) (config : Rfc6238Config) (t : Int) :
    (rfc6238GenerateAt ssl config t).DividesSafely ↔ config.sliceTimeSeconds ≠ 0 := by
  constructor
  · rintro h hzero
    apply h
    unfold rfc6238GenerateAt
    rw [hzero]
    rfl
  · intro hne
    have hpos : (config.sliceTimeSeconds.toNat : Int) ≠ 0 := by
      intro h
      exact hne (BitVec.eq_of_toNat_eq (Int.ofNat.inj h))
    unfold rfc6238GenerateAt
    rw [signedDiv_ok _ hpos, Run.ok_bind, rfc6238Generate_eq]
    exact .pure _

theorem passdbAttachTotp_dividesSafely_iff (entry : PassdbEntry) (totp : Rfc6238Config)
    (w : BitVec 32) :
    (passdbAttachTotp entry totp w).DividesSafely ↔ totp.sliceTimeSeconds ≠ 0 := by
  constructor
  · rintro h hzero
    apply h
    unfold passdbAttachTotp
    rw [hzero]
    rfl
  · intro hne
    rw [passdbAttachTotp_eq entry hne]
    exact .pure _

section

variable (ssl : OpenSsl) {entry : PassdbEntry}

theorem passdbValidateTotp_dividesSafely
    (h : ∀ totp, entry.totp = some totp → totp.sliceTimeSeconds ≠ 0) (provided : CStr)
    (timestamp offset : Int) :
    (passdbValidateTotp ssl entry provided timestamp offset).DividesSafely := by
  unfold passdbValidateTotp
  cases htotp : entry.totp with
  | none => exact .pure _
  | some totp =>
    apply (checkInt_dividesSafely _).bind
    intro shift
    apply (checkLong_dividesSafely _).bind
    intro effective
    apply ((rfc6238GenerateAt_dividesSafely_iff ssl totp effective).mpr (h totp htotp)).bind
    rintro (_ | expected) <;> exact .pure _

theorem passdbValidateLoop_dividesSafely {provided : CStr} {timestamp : Int}
    (h : ∀ offset, (passdbValidateTotp ssl entry provided timestamp offset).DividesSafely)
    (digestCorrect : Bool) (rounds : Nat) (offset : Int) :
    (passdbValidateLoop ssl entry provided timestamp digestCorrect rounds
      offset).DividesSafely := by
  induction rounds generalizing offset with
  | zero => exact .pure false
  | succ rounds ih =>
    rw [passdbValidateLoop]
    apply (h _).bind
    rintro (_ | _)
    · apply (h _).bind
      rintro (_ | _)
      · apply (checkInt_dividesSafely _).bind
        exact ih
      · exact .pure _
    · exact .pure _

theorem passdbValidateAround_dividesSafely
    (h : ∀ totp, entry.totp = some totp → totp.sliceTimeSeconds ≠ 0) (passphrase : CStr)
    (timestamp : Int) (digest : PassdbDigest) :
    (passdbValidateAround ssl entry passphrase timestamp digest).DividesSafely := by
  have htotp := passdbValidateTotp_dividesSafely ssl h
  unfold passdbValidateAround
  dsimp only
  split
  · exact .pure _
  · apply (htotp _ _ _).bind
    rintro (_ | _)
    · exact passdbValidateLoop_dividesSafely ssl (htotp _ _) _ _ _
    · exact .pure _

end

/-- **Divisions.** With a configuration from `rfc6238_new` the code divides by zero nowhere if and
only if the slices are not empty, which `rfc6238_new` does not ask for. -/
theorem totp_dividesSafely_iff {secret : List Byte} {secretLength : BitVec 32}
    {digest : Rfc6238Digest} {sliceTimeSeconds digits : BitVec 32} {os : Os} {w w' : World}
    {config : Rfc6238Config}
    (hnew : rfc6238New secret secretLength digest sliceTimeSeconds digits os w =
      some (some config, w'))
    (ssl : OpenSsl) (entry : PassdbEntry) (windowSizeSeconds : BitVec 32) (passphrase : CStr)
    (timestamp t : Int) (array : PassdbDigest) :
    ((passdbAttachTotp entry config windowSizeSeconds).DividesSafely ∧
      (∀ attached, passdbAttachTotp entry config windowSizeSeconds = .ok attached →
        (passdbValidateAround ssl attached passphrase timestamp array).DividesSafely) ∧
      (rfc6238GenerateAt ssl config t).DividesSafely) ↔ sliceTimeSeconds ≠ 0 := by
  obtain rfl := (rfc6238New_madeFrom hnew).sliceTimeSeconds
  constructor
  · rintro ⟨hattach, -⟩
    exact (passdbAttachTotp_dividesSafely_iff entry config windowSizeSeconds).mp hattach
  · intro hne
    refine ⟨(passdbAttachTotp_dividesSafely_iff _ _ _).mpr hne, fun attached hattach => ?_,
      (rfc6238GenerateAt_dividesSafely_iff _ _ _).mpr hne⟩
    obtain rfl := Except.ok.inj ((passdbAttachTotp_eq entry hne _).symm.trans hattach)
    apply passdbValidateAround_dividesSafely
    rintro totp ⟨⟩
    exact hne

/-- With slices of 30 seconds nothing is divided by zero. -/
theorem totp_dividesSafely_30 :
    rfc6238New testSecret 20 .sha1 30 8 Os.empty {} = some (some testConfig, {}) ∧
      (passdbAttachTotp testEntry testConfig 30).DividesSafely ∧
      (rfc6238GenerateAt testSsl testConfig 59).DividesSafely := by
  have hnew : rfc6238New testSecret 20 .sha1 30 8 Os.empty {} = some (some testConfig, {}) := rfl
  obtain ⟨hattach, -, hgenerate⟩ := (totp_dividesSafely_iff hnew testSsl testEntry 30 [] 59 59
    (Vector.replicate _ 0)).mpr (by decide)
  exact ⟨hnew, hattach, hgenerate⟩

/-- A configuration with empty slices. -/
def emptySlices : Rfc6238Config := { testConfig with sliceTimeSeconds := 0 }

/-- It is accepted, and what uses it divides by zero. -/
theorem totp_divides_by_zero :
    rfc6238New testSecret 20 .sha1 0 8 Os.empty {} = some (some emptySlices, {}) ∧
      passdbAttachTotp testEntry emptySlices 30 = .error .divisionByZero ∧
      rfc6238GenerateAt testSsl emptySlices 59 = .error .divisionByZero :=
  ⟨rfl, rfl, rfl⟩

/-! ## The offsets of the window -/

section

variable (ssl : OpenSsl)

/-- A call of `passdb_validate_totp`, logged with its offset. -/
def passdbValidateTotpLogged (entry : PassdbEntry) (totpProvided : CStr) (timestamp offset : Int) :
    Logged Undefined Int Bool :=
  Logged.step offset (passdbValidateTotp ssl entry totpProvided timestamp offset)

/-- `passdbValidateLoop`, with a log of its offsets. -/
def passdbValidateLoopLogged (entry : PassdbEntry) (totpProvided : CStr) (timestamp : Int)
    (digestCorrect : Bool) : Nat → Int → Logged Undefined Int Bool
  | 0, _ => return false
  | rounds + 1, offset => do
    if ← passdbValidateTotpLogged ssl entry totpProvided timestamp (-offset) then
      return digestCorrect
    if ← passdbValidateTotpLogged ssl entry totpProvided timestamp offset then
      return digestCorrect
    let offset ← Logged.silently (checkInt (offset + 1))
    passdbValidateLoopLogged entry totpProvided timestamp digestCorrect rounds offset

/-- `passdbValidateSplit`, with a log of its offsets. -/
def passdbValidateSplitLogged (entry : PassdbEntry) (totpProvided : CStr) (timestamp : Int)
    (digest : PassdbDigest) : Logged Undefined Int Bool := do
  let digestCorrect := decide (entry.kdf = .none) || entry.hash == digest
  if ← passdbValidateTotpLogged ssl entry totpProvided timestamp 0 then
    return digestCorrect
  passdbValidateLoopLogged ssl entry totpProvided timestamp digestCorrect
    entry.totpWindowSize.toNat 1

/-- `passdbValidateAround`, with a log of its offsets. -/
def passdbValidateAroundLogged (entry : PassdbEntry) (passphrase : CStr) (timestamp : Int)
    (digest : PassdbDigest) : Logged Undefined Int Bool :=
  let (totpProvided, passlen) := passdbSplit entry passphrase
  match passdbDerive ssl entry passphrase (BitVec.ofNat 32 passlen) digest with
  | none => return false
  | some digest => passdbValidateSplitLogged ssl entry totpProvided timestamp digest

theorem passdbValidateLoopLogged_result (entry : PassdbEntry) (totpProvided : CStr)
    (timestamp : Int) (digestCorrect : Bool) (rounds : Nat) (offset : Int) :
    (passdbValidateLoopLogged ssl entry totpProvided timestamp digestCorrect rounds offset).result =
      passdbValidateLoop ssl entry totpProvided timestamp digestCorrect rounds offset := by
  induction rounds generalizing offset with
  | zero => rfl
  | succ rounds ih =>
    rw [passdbValidateLoopLogged, passdbValidateLoop, Logged.result_bind]
    apply bind_congr
    rintro (_ | _)
    · show (Logged.result (_ >>= _)) = _ >>= _
      rw [Logged.result_bind]
      apply bind_congr
      rintro (_ | _)
      · show (Logged.result (_ >>= _)) = _ >>= _
        rw [Logged.result_bind]
        apply bind_congr
        exact ih
      · rfl
    · rfl

theorem passdbValidateSplitLogged_result (entry : PassdbEntry) (totpProvided : CStr)
    (timestamp : Int) (digest : PassdbDigest) :
    (passdbValidateSplitLogged ssl entry totpProvided timestamp digest).result =
      passdbValidateSplit ssl entry totpProvided timestamp digest := by
  unfold passdbValidateSplitLogged passdbValidateSplit
  rw [Logged.result_bind]
  apply bind_congr
  rintro (_ | _)
  · exact passdbValidateLoopLogged_result ssl entry _ timestamp _ _ 1
  · rfl

/-- The log changes nothing. -/
theorem passdbValidateAroundLogged_result (entry : PassdbEntry) (passphrase : CStr)
    (timestamp : Int) (digest : PassdbDigest) :
    (passdbValidateAroundLogged ssl entry passphrase timestamp digest).result =
      passdbValidateAround ssl entry passphrase timestamp digest := by
  unfold passdbValidateAroundLogged passdbValidateAround
  dsimp only
  cases passdbDerive ssl entry passphrase (BitVec.ofNat 32 (passdbSplit entry passphrase).2)
    digest with
  | none => rfl
  | some digest => exact passdbValidateSplitLogged_result ssl entry _ timestamp digest

/-- So many offsets, backwards and forwards, from `offset` on. -/
def offsetsFrom (offset : Int) : Nat → List Int
  | 0 => []
  | n + 1 => -offset :: offset :: offsetsFrom (offset + 1) n

/-- The offsets of a window, in the order in which they are tried. -/
def windowOffsets (n : Nat) : List Int := 0 :: offsetsFrom 1 n

theorem mem_offsetsFrom {k offset : Int} {n : Nat} (hpos : 0 < offset) :
    k ∈ offsetsFrom offset n ↔ offset ≤ |k| ∧ |k| < offset + n := by
  induction n generalizing offset with
  | zero => simp [offsetsFrom]
  | succ n ih =>
    rw [offsetsFrom, List.mem_cons, List.mem_cons, ih (by omega)]
    grind

theorem mem_windowOffsets {k : Int} {n : Nat} : k ∈ windowOffsets n ↔ |k| ≤ n := by
  rw [windowOffsets, List.mem_cons, mem_offsetsFrom (by decide)]
  grind

/-- The search has tried the first of these offsets, and all of them if none was the end of it. -/
def Tries (validate : Int → Run Bool) (log offsets : List Int) : Prop :=
  log <+: offsets ∧ ((∀ k ∈ log, validate k = .ok false) → log = offsets)

theorem Tries.stop {validate : Int → Run Bool} {k : Int} {offsets : List Int}
    (h : validate k ≠ .ok false) : Tries validate [k] (k :: offsets) :=
  ⟨List.prefix_append [k] offsets, fun hall => absurd (hall k List.mem_cons_self) h⟩

theorem Tries.cons {validate : Int → Run Bool} {log offsets : List Int}
    (h : Tries validate log offsets) (k : Int) : Tries validate (k :: log) (k :: offsets) := by
  refine ⟨(List.prefix_cons_inj k).mpr h.1, fun hall => ?_⟩
  rw [h.2 fun k' hk' => hall k' (List.mem_cons_of_mem k hk')]

/-- One offset, and what follows if it does not match. -/
theorem Tries.validateTotp {entry : PassdbEntry} {totpProvided : CStr} {timestamp offset : Int}
    {ssl : OpenSsl} (digestCorrect : Bool) {more : Logged Undefined Int Bool}
    {offsets : List Int}
    (h : Tries (passdbValidateTotp ssl entry totpProvided timestamp) more.log offsets) :
    Tries (passdbValidateTotp ssl entry totpProvided timestamp)
      (passdbValidateTotpLogged ssl entry totpProvided timestamp offset >>= fun ok =>
        if ok = true then pure digestCorrect else more).log (offset :: offsets) := by
  unfold passdbValidateTotpLogged
  cases hvalid : passdbValidateTotp ssl entry totpProvided timestamp offset with
  | error e => exact .stop (by simp [hvalid])
  | ok ok =>
    cases ok with
    | true => exact .stop (by simp [hvalid])
    | false => exact h.cons offset

/-- The loop tries the offsets in their order, as long as they are `int`s. -/
theorem passdbValidateLoopLogged_tries (entry : PassdbEntry) (totpProvided : CStr)
    (timestamp : Int) (digestCorrect : Bool) (rounds : Nat) {offset : Int} (hpos : 1 ≤ offset)
    (hfits : offset + rounds ≤ 2 ^ 31) :
    Tries (passdbValidateTotp ssl entry totpProvided timestamp)
      (passdbValidateLoopLogged ssl entry totpProvided timestamp digestCorrect rounds offset).log
      (offsetsFrom offset rounds) := by
  induction rounds generalizing offset with
  | zero => exact ⟨List.prefix_rfl, fun _ => rfl⟩
  | succ rounds ih =>
    rw [passdbValidateLoopLogged, offsetsFrom]
    apply Tries.validateTotp
    apply Tries.validateTotp
    rcases lt_or_ge (offset + 1) (2 ^ 31) with hnext | hlast
    · rw [checkInt_ok (by omega) hnext]
      exact ih (by omega) (by omega)
    · -- the counter overflows behind the last round
      obtain rfl : rounds = 0 := by omega
      unfold checkInt
      rw [if_neg (by omega)]
      exact ⟨List.prefix_rfl, fun _ => rfl⟩

/-- The search tries the offsets of the window. -/
theorem passdbValidateSplitLogged_tries (entry : PassdbEntry) (totpProvided : CStr)
    (timestamp : Int) (digest : PassdbDigest) (hfits : entry.totpWindowSize.toNat < 2 ^ 31) :
    Tries (passdbValidateTotp ssl entry totpProvided timestamp)
      (passdbValidateSplitLogged ssl entry totpProvided timestamp digest).log
      (windowOffsets entry.totpWindowSize.toNat) :=
  Tries.validateTotp _ (passdbValidateLoopLogged_tries ssl entry totpProvided timestamp _ _
    (le_refl 1) (by omega))

theorem passdbValidateAroundLogged_tries (entry : PassdbEntry)
    (hfits : entry.totpWindowSize.toNat < 2 ^ 31) (passphrase : CStr) (timestamp : Int)
    (digest : PassdbDigest) :
    (passdbValidateAroundLogged ssl entry passphrase timestamp digest).log = [] ∨
      Tries (passdbValidateTotp ssl entry (passdbSplit entry passphrase).1 timestamp)
        (passdbValidateAroundLogged ssl entry passphrase timestamp digest).log
        (windowOffsets entry.totpWindowSize.toNat) := by
  unfold passdbValidateAroundLogged
  dsimp only
  split
  · exact .inl rfl
  · exact .inr (passdbValidateSplitLogged_tries ssl entry _ timestamp _ hfits)

end

/-! ## Exact windows -/

/-- The window is rounded up, and the search computes with the offsets of it as they are: each
product is what it is without a bound, no offset is outside the window, and all of them are tried
if none matches. The log is that of the search itself. -/
structure WindowExact (attached : PassdbEntry) (totp : Rfc6238Config) (w : BitVec 32) :
    Prop where
  size : attached.totpWindowSize.toNat = w.toNat ⌈/⌉ totp.sliceTimeSeconds.toNat
  result : ∀ ssl passphrase timestamp digest,
    (passdbValidateAroundLogged ssl attached passphrase timestamp digest).result =
      passdbValidateAround ssl attached passphrase timestamp digest
  product : ∀ ssl passphrase timestamp digest,
    ∀ offset ∈ (passdbValidateAroundLogged ssl attached passphrase timestamp digest).log,
      checkInt (offset * totp.sliceTimeSeconds.toInt) =
        .ok (offset * totp.sliceTimeSeconds.toNat)
  offsets : ∀ ssl passphrase timestamp digest,
    (passdbValidateAroundLogged ssl attached passphrase timestamp digest).log = [] ∨
      Tries (passdbValidateTotp ssl attached (passdbSplit attached passphrase).1 timestamp)
        (passdbValidateAroundLogged ssl attached passphrase timestamp digest).log
        (windowOffsets (w.toNat ⌈/⌉ totp.sliceTimeSeconds.toNat))

/-- A library that derives keys and has no codes. -/
def CLib.OpenSsl.codeless : OpenSsl :=
  { OpenSsl.silent with
    pkcs5Pbkdf2Hmac := fun _ _ _ _ _ _ => some (Vector.replicate _ 0)
    pkeyCtxNew := some ()
    deriveInit := some
    setPbePass := fun pctx _ _ => some pctx
    setScryptSalt := fun pctx _ => some pctx
    setScryptN := fun pctx _ => some pctx
    setScryptR := fun pctx _ => some pctx
    setScryptP := fun pctx _ => some pctx
    setScryptMaxmemBytes := fun pctx _ => some pctx
    derive := fun _ _ => some (Vector.replicate _ 0) }

theorem codeless_derives (entry : PassdbEntry) (passphrase : CStr) (passphraseLength : BitVec 32)
    (digest : PassdbDigest) :
    ∃ hash, passdbDerive OpenSsl.codeless entry passphrase passphraseLength digest = some hash := by
  unfold passdbDerive
  cases entry.kdf <;> exact ⟨_, rfl⟩

/-- Without codes no offset matches. -/
theorem codeless_validateTotp {entry : PassdbEntry} {totp : Rfc6238Config}
    (htotp : entry.totp = some totp) (hslice : 1 ≤ totp.sliceTimeSeconds.toNat) (provided : CStr)
    {offset : Int} (hproduct : checkInt (offset * totp.sliceTimeSeconds.toInt) =
      .ok (offset * totp.sliceTimeSeconds.toNat)) :
    passdbValidateTotp OpenSsl.codeless entry provided 0 offset = .ok false := by
  obtain ⟨heq, hlow, hhigh⟩ := checkInt_eq_ok.mp hproduct
  have hgenerate : ∀ t, rfc6238GenerateAt OpenSsl.codeless totp t = .ok none := by
    intro t
    unfold rfc6238GenerateAt
    rw [signedDiv_ok _ (by omega), Run.ok_bind, rfc6238Generate_eq]
    rfl
  unfold passdbValidateTotp
  rw [htotp]
  dsimp only
  rw [hproduct, Run.ok_bind, checkLong_ok (by omega) (by omega), Run.ok_bind, hgenerate]
  rfl

/-- ... and there is a search. -/
theorem codeless_log_ne_nil (entry : PassdbEntry) {passphrase : CStr} {timestamp : Int}
    {digest : PassdbDigest} :
    (passdbValidateAroundLogged OpenSsl.codeless entry passphrase timestamp digest).log ≠ [] := by
  obtain ⟨hash, hderive⟩ := codeless_derives entry passphrase
    (BitVec.ofNat 32 (passdbSplit entry passphrase).2) digest
  unfold passdbValidateAroundLogged
  dsimp only
  rw [hderive]
  exact Logged.step_bind_ne_nil _ _ _

/-- A product in the window. -/
theorem checkInt_product {s : BitVec 32} {n : Nat} (hfits : n * s.toNat < 2 ^ 31) {offset : Int}
    (hoffset : |offset| ≤ n) : checkInt (offset * s.toInt) = .ok (offset * s.toNat) := by
  obtain ⟨hlow, hhigh⟩ := abs_le.mp hoffset
  rcases Nat.eq_zero_or_pos n with rfl | hpos
  · obtain rfl : offset = 0 := by omega
    rw [Int.zero_mul, Int.zero_mul]
    rfl
  · have hcast : s.toInt = s.toNat := by
      apply BitVec.toInt_eq_toNat_of_lt
      nlinarith
    have hbound : (n * s.toNat : Int) < 2 ^ 31 := by exact_mod_cast hfits
    have hs : (0 : Int) ≤ s.toNat := Int.natCast_nonneg _
    rw [hcast]
    -- no product is further from zero than that of the last offset
    exact checkInt_ok (by nlinarith) (by nlinarith)

/-- **Windows.** The arithmetic of a window is exact if and only if the window, rounded up to
slices, is so many seconds as an `int` can hold. -/
theorem passdbAttachTotp_windowExact_iff (entry : PassdbEntry) {totp : Rfc6238Config}
    (hslice : 1 ≤ totp.sliceTimeSeconds.toNat) (w : BitVec 32) :
    (∃ attached, passdbAttachTotp entry totp w = .ok attached ∧ WindowExact attached totp w) ↔
      (w.toNat ⌈/⌉ totp.sliceTimeSeconds.toNat) * totp.sliceTimeSeconds.toNat < 2 ^ 31 := by
  have hceil : w.toNat ≤
      (w.toNat ⌈/⌉ totp.sliceTimeSeconds.toNat) * totp.sliceTimeSeconds.toNat := by
    have hle := le_smul_ceilDiv (b := w.toNat) (Nat.lt_of_succ_le hslice)
    rwa [smul_eq_mul, Nat.mul_comm] at hle
  constructor
  · rintro ⟨attached, hattach, hexact⟩
    have hne : totp.sliceTimeSeconds ≠ 0 :=
      (passdbAttachTotp_dividesSafely_iff entry totp w).mp (by rw [hattach]; exact .pure _)
    have htotp : attached.totp = some totp := by
      rw [← Except.ok.inj ((passdbAttachTotp_eq entry hne w).symm.trans hattach)]
    -- without codes the whole window is tried, up to its last offset
    have hproduct := hexact.product OpenSsl.codeless [] 0 (Vector.replicate _ 0)
    obtain ⟨-, hall⟩ := (hexact.offsets OpenSsl.codeless [] 0 (Vector.replicate _ 0)).resolve_left
      (codeless_log_ne_nil attached)
    have hlog := hall fun offset hoffset =>
      codeless_validateTotp htotp hslice _ (hproduct offset hoffset)
    have hlast := hproduct (w.toNat ⌈/⌉ totp.sliceTimeSeconds.toNat : Nat) (by
      rw [hlog, mem_windowOffsets]
      exact (abs_of_nonneg (Int.natCast_nonneg _)).le)
    obtain ⟨heq, -, hlt⟩ := checkInt_eq_ok.mp hlast
    rw [heq] at hlt
    exact_mod_cast hlt
  · intro hfits
    -- the sum that is divided is at most a slice longer than the window
    have hsum : w.toNat + totp.sliceTimeSeconds.toNat ≤ 2 ^ 32 := by
      rcases Nat.eq_zero_or_pos w.toNat with hzero | hpos
      · omega
      · have hone : 1 ≤ w.toNat ⌈/⌉ totp.sliceTimeSeconds.toNat := by
          by_contra hno
          rw [Nat.lt_one_iff.mp (not_le.mp hno)] at hceil
          omega
        nlinarith
    obtain ⟨size, hattach, hsize⟩ := passdbAttachTotp_ok entry hslice hsum
    have htries := fun ssl => passdbValidateAroundLogged_tries ssl
      { entry with totp := some totp, totpWindowSize := size } (by
        show size.toNat < 2 ^ 31
        rw [hsize]
        exact lt_of_le_of_lt (Nat.le_mul_of_pos_right _ hslice) hfits)
    simp only [hsize] at htries
    refine ⟨_, hattach, hsize, fun ssl => passdbValidateAroundLogged_result ssl _, ?_, htries⟩
    intro ssl passphrase timestamp digest offset hoffset
    obtain ⟨hlog, -⟩ := (htries ssl passphrase timestamp digest).resolve_left
      (List.ne_nil_of_mem hoffset)
    exact checkInt_product hfits (mem_windowOffsets.mp (hlog.subset hoffset))

/-- A window of 30 seconds, in slices of 30 seconds. -/
theorem passdbAttachTotp_windowExact_30 :
    ∃ attached, passdbAttachTotp testEntry testConfig 30 = .ok attached ∧
      WindowExact attached testConfig 30 :=
  (passdbAttachTotp_windowExact_iff testEntry
    (by decide : 1 ≤ testConfig.sliceTimeSeconds.toNat) 30).mpr (by decide)

/-- A configuration with slices of `2 ^ 31` seconds. -/
def longSlices : Rfc6238Config := { testConfig with sliceTimeSeconds := 0x80000000 }

/-- The widest window becomes none at all, as the sum wraps around. With slices of `2 ^ 31` seconds
the first product overflows. -/
theorem passdbAttachTotp_wraps :
    (passdbAttachTotp testEntry testConfig 0xffffffff =
        .ok { testEntry with totp := some testConfig, totpWindowSize := 0 } ∧
      (0xffffffff : BitVec 32).toNat ⌈/⌉ testConfig.sliceTimeSeconds.toNat = 143165577) ∧
    ∃ attached, passdbAttachTotp testEntry longSlices 1 = .ok attached ∧
      attached.totpWindowSize = 1 ∧
      -1 ∈ (passdbValidateAroundLogged OpenSsl.codeless attached [] 0 (Vector.replicate _ 0)).log ∧
      checkInt (-1 * longSlices.sliceTimeSeconds.toInt) = .error .signedOverflow := by
  refine ⟨⟨rfl, by decide⟩, _, rfl, rfl, ?_, rfl⟩
  decide

end Umsftpd
