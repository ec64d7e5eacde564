import Umsftpd.Rfc6238.Codes

/-!
# Codes of the present

`rfc6238_generate_now` takes the clock reading itself for the counter, where `rfc6238_generate_at`
takes the number of the slice that it is in. The two ask the HMAC for the same digest just where
these numbers are equal, and a library can tell any two counters apart.
-/

namespace Umsftpd

open CLib

/-! ## Counters -/

/-- The answer of the library to a counter: the code of the HMAC of the counter in eight bytes. -/
def Rfc6238Config.counterCode (config : Rfc6238Config) (ssl : OpenSsl) (counter : Nat) :
    Option CStr :=
  (ssl.hmac config.md config.secret config.secretLength.toInt (bigEndian 8 counter)).map
    fun digest => config.codeOf digest.toList

/-- A library whose HMAC knows one message. -/
def CLib.OpenSsl.knowing (data : List Byte) : OpenSsl :=
  { OpenSsl.silent with
    hmac := fun _ _ _ data' => if data' = data then some (Vector.replicate _ 0) else none }

theorem Rfc6238Config.counterCode_knowing (config : Rfc6238Config) (data : List Byte)
    (counter : Nat) :
    (config.counterCode (OpenSsl.knowing data) counter).isSome = true ↔
      bigEndian 8 counter = data := by
  unfold counterCode OpenSsl.knowing
  dsimp only
  by_cases h : bigEndian 8 counter = data
  · rw [if_pos h]
    exact iff_of_true rfl h
  · rw [if_neg h]
    exact iff_of_false (by simp) h

/-- Counters of eight bytes that have the same code in every library are the same. -/
theorem Rfc6238Config.counterCode_inj (config : Rfc6238Config) {m n : Nat} (hm : m < 2 ^ 64)
    (hn : n < 2 ^ 64) :
    (∀ ssl, config.counterCode ssl m = config.counterCode ssl n) ↔ m = n := by
  refine ⟨fun h => ?_, fun h _ => h ▸ rfl⟩
  have hknown := (config.counterCode_knowing (bigEndian 8 n) n).mpr rfl
  rw [← h, config.counterCode_knowing] at hknown
  have hvalue := congrArg ofBigEndian hknown
  rwa [ofBigEndian_bigEndian_of_lt (by omega), ofBigEndian_bigEndian_of_lt (by omega)] at hvalue

/-- A quotient is the number itself when one divides by one, or zero by anything. -/
theorem ediv_eq_self_iff {m n : Nat} (hn : 1 ≤ n) : m / n = m ↔ n = 1 ∨ m = 0 := by
  constructor
  · intro h
    by_contra hne
    obtain ⟨hn', hm⟩ := not_or.mp hne
    exact absurd h (Nat.div_lt_self (Nat.pos_of_ne_zero hm) (by omega)).ne
  · rintro (rfl | rfl)
    · exact Nat.div_one m
    · exact Nat.zero_div n

/-! ## The two functions -/

theorem rfc6238GenerateNow_eq (ssl : OpenSsl) (config : Rfc6238Config) {t : Nat}
    (ht : t < 2 ^ 64) :
    rfc6238GenerateNow ssl config t = .ok (config.counterCode ssl t) := by
  have hcode : (BitVec.ofInt 64 (t : Int)).toNat = t := by
    rw [BitVec.ofInt_natCast, BitVec.toNat_ofNat, Nat.mod_eq_of_lt ht]
  unfold rfc6238GenerateNow Rfc6238Config.counterCode
  rw [rfc6238Generate_eq, hcode]

theorem rfc6238GenerateAt_counterCode (ssl : OpenSsl) (config : Rfc6238Config)
    (hslice : 1 ≤ config.sliceTimeSeconds.toNat) {t : Nat} (ht : t < 2 ^ 64) :
    rfc6238GenerateAt ssl config t =
      .ok (config.counterCode ssl (t / config.sliceTimeSeconds.toNat)) := by
  have hle : t / config.sliceTimeSeconds.toNat ≤ t := Nat.div_le_self _ _
  rw [rfc6238GenerateAt_eq ssl config hslice (Int.natCast_nonneg t), ← Int.natCast_ediv]
  exact rfc6238GenerateNow_eq ssl config (hle.trans_lt ht)

/-- **Now and at.** The two functions have the same result and the same text with every library
just if a slice is one second or the clock is at zero; and only then the present has the code of
the slice that it is in. -/
theorem rfc6238GenerateNow_eq_generateAt_iff {secret : List Byte} {secretLength : BitVec 32}
    {digest : Rfc6238Digest} {sliceTimeSeconds digits : BitVec 32} {os : Os} {w w' : World}
    {config : Rfc6238Config}
    (hnew : rfc6238New secret secretLength digest sliceTimeSeconds digits os w =
      some (some config, w'))
    (hslice : 1 ≤ sliceTimeSeconds.toNat) {t : Int} (ht : 0 ≤ t) (htime : t < 2 ^ 63) :
    ((∀ ssl, rfc6238GenerateNow ssl config t = rfc6238GenerateAt ssl config t) ↔
      sliceTimeSeconds = 1 ∨ t = 0) ∧
    ((∀ ssl, rfc6238GenerateNow ssl config t =
        .ok (config.counterCode ssl (t.toNat / sliceTimeSeconds.toNat))) ↔
      sliceTimeSeconds = 1 ∨ t = 0) := by
  obtain ⟨-, -, -, rfl, -⟩ := rfc6238New_madeFrom hnew
  obtain ⟨t, rfl⟩ := Int.eq_ofNat_of_zero_le ht
  have hwide : t < 2 ^ 64 := by omega
  have hat := fun ssl => rfc6238GenerateAt_counterCode ssl config hslice hwide
  have hle : t / config.sliceTimeSeconds.toNat ≤ t := Nat.div_le_self _ _
  have hone : config.sliceTimeSeconds = 1 ↔ config.sliceTimeSeconds.toNat = 1 := by
    rw [← BitVec.toNat_inj]
    rfl
  -- the code of the present is asked for with the clock reading itself
  have hcounter : (∀ ssl, rfc6238GenerateNow ssl config t =
      .ok (config.counterCode ssl (t / config.sliceTimeSeconds.toNat))) ↔
        config.sliceTimeSeconds = 1 ∨ (t : Int) = 0 := by
    simp only [rfc6238GenerateNow_eq _ config hwide, Except.ok.injEq]
    rw [config.counterCode_inj hwide (hle.trans_lt hwide), eq_comm, ediv_eq_self_iff hslice, hone,
      Int.natCast_eq_zero]
  refine ⟨?_, hcounter⟩
  simp only [hat]
  exact hcounter

/-- With slices of one second the code of second 59 is the one that is due then. -/
theorem rfc6238GenerateNow_eq_generateAt_iff_second :
    rfc6238GenerateNow vectorSsl { testConfig with sliceTimeSeconds := 1 } 59 =
      rfc6238GenerateAt vectorSsl { testConfig with sliceTimeSeconds := 1 } 59 := by
  have hnew : rfc6238New testSecret 20 .sha1 1 8 Os.empty {} =
    some (some { testConfig with sliceTimeSeconds := 1 }, {}) := rfl
  exact (rfc6238GenerateNow_eq_generateAt_iff hnew (by decide) (by decide : (0 : Int) ≤ 59)
    (by decide)).1.mpr (.inl rfl) vectorSsl

/-- At second 1 the code is that of slice 0, and now that of slice 1. -/
theorem rfc6238GenerateNow_counts_seconds :
    rfc6238New testSecret 20 .sha1 30 8 Os.empty {} = some (some testConfig, {}) ∧
      rfc6238GenerateAt vectorSsl testConfig 1 = .ok (some "84755224".toList) ∧
      rfc6238GenerateNow vectorSsl testConfig 1 = .ok (some "94287082".toList) := by
  refine ⟨rfl, ?_, ?_⟩
  · rw [show (1 : Int) = (1 : Nat) from rfl,
      rfc6238GenerateAt_counterCode vectorSsl testConfig (by decide) (by decide)]
    decide
  · rw [show (1 : Int) = (1 : Nat) from rfl,
      rfc6238GenerateNow_eq vectorSsl testConfig (by decide)]
    decide

end Umsftpd
