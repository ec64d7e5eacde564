import Umsftpd.Rfc4648.Strictness

/-!
# The announced size

`rfc4648_base32_size` strips the padding and returns what is left: the number of symbols, where the
decoder writes five bytes for eight of them. The two agree on strings without symbols, and where the
length is not the `int` that the function takes it for.
-/

namespace Umsftpd

open CLib Base32
open Systems (Logged)

/-- The padding is stripped down to the symbols. -/
theorem rfc4648Base32SizeLoop_eq {symbols : CStr} (hpad : rfc4648PaddingChar ∉ symbols) (k : Nat)
    {length : Nat} (hlength : length ≤ symbols.length + k) :
    rfc4648Base32SizeLoop (symbols ++ List.replicate k rfc4648PaddingChar) length =
      .ok (min length symbols.length) := by
  induction length with
  | zero =>
    rw [Nat.zero_min]
    rfl
  | succ length ih =>
    have hcell : (toBuffer (symbols ++ List.replicate k rfc4648PaddingChar))[length]? =
        some ((symbols ++ List.replicate k rfc4648PaddingChar)[length]?) := by
      rw [getElem?_toBuffer, if_pos (by simp; omega), List.getElem?_eq_getElem (by simp; omega)]
      rfl
    rw [rfc4648Base32SizeLoop, readAt_getElem? hcell, Run.ok_bind]
    by_cases hlt : length < symbols.length
    · have hne : ¬(symbols ++ List.replicate k rfc4648PaddingChar)[length]? =
          some rfc4648PaddingChar := by
        rw [List.getElem?_append_left hlt]
        exact fun h => hpad (List.mem_of_getElem? h)
      rw [if_neg hne, Nat.min_eq_left hlt]
      rfl
    · have hpadding : (symbols ++ List.replicate k rfc4648PaddingChar)[length]? =
          some rfc4648PaddingChar := by
        rw [List.getElem?_append_right (Nat.not_lt.mp hlt), List.getElem?_replicate,
          if_pos (by omega)]
      rw [if_pos hpadding, ih (by omega)]
      congr 1
      omega

/-- The number of symbols, where the length is that of the string as an `int`. -/
theorem rfc4648Base32Size_eq {symbols : CStr} (hpad : rfc4648PaddingChar ∉ symbols) (k : Nat) :
    rfc4648Base32Size (symbols ++ List.replicate k rfc4648PaddingChar) =
      .ok (BitVec.ofNat 32 (if (symbols.length + k) % 2 ^ 32 < 2 ^ 31 then
        min ((symbols.length + k) % 2 ^ 32) symbols.length else symbols.length + k)) := by
  have hlen : (symbols ++ List.replicate k rfc4648PaddingChar).length = symbols.length + k := by
    simp
  unfold rfc4648Base32Size intLength
  rw [hlen]
  dsimp only
  by_cases hsmall : (symbols.length + k) % 2 ^ 32 < 2 ^ 31
  · have hint : (BitVec.ofNat 32 (symbols.length + k)).toInt =
        ((symbols.length + k) % 2 ^ 32 : Nat) := by
      rw [BitVec.toInt_eq_toNat_of_lt, BitVec.toNat_ofNat]
      rw [BitVec.toNat_ofNat]
      omega
    rw [if_pos hsmall, hint]
    by_cases hpos : 0 < (symbols.length + k) % 2 ^ 32
    · rw [if_pos (by omega), Int.toNat_natCast,
        rfc4648Base32SizeLoop_eq hpad k (Nat.mod_le _ _), Run.ok_bind]
      rfl
    · rw [if_neg (by omega), Nat.eq_zero_of_not_pos hpos, Nat.zero_min]
      rfl
  · have hneg : ¬ (BitVec.ofNat 32 (symbols.length + k)).toInt > 0 := by
      rw [BitVec.toInt_eq_toNat_cond, BitVec.toNat_ofNat, if_neg (by omega)]
      omega
    rw [if_neg hsmall, if_neg hneg, BitVec.ofInt_toInt]
    rfl

/-! ## What is written -/

section Padded

variable {alphabet : Alphabet Char} (hpad : rfc4648PaddingChar ∉ alphabet.chars)
include hpad

/-- Symbols and padding are accepted where there is room, unless there are too many of them. -/
theorem rfc4648DecodeBase32MultiLogged_padded {buffer : List Byte} {bufsize : BitVec 32}
    (hsize : bufsize.toNat ≤ buffer.length) (syms : List Symbol) (k : Nat) :
    ∃ log ok output,
      rfc4648DecodeBase32MultiLogged buffer bufsize
        (syms.map alphabet.char ++ List.replicate k rfc4648PaddingChar) alphabet.chars =
          some ⟨log, .ok (ok, output)⟩ ∧
      (ok = true ↔ syms.length < 2 ^ 32 ∧ octetCount syms.length ≤ bufsize.toNat) ∧
      (ok = true → (writesOf log).length = octetCount syms.length) := by
  have hrest : ∀ c, (List.replicate k rfc4648PaddingChar).head? = some c →
      c ∉ alphabet.chars := by
    intro c hc
    rwa [List.eq_of_mem_replicate (List.mem_of_head? hc)]
  have hstops : Stops (List.replicate k rfc4648PaddingChar).head? := by
    cases k with
    | zero => exact .inl rfl
    | succ k => exact .inr rfl
  obtain ⟨log, ok, output, hrun, hok, hwrites⟩ :=
    rfc4648DecodeBase32MultiLogged_symbols hpad hsize syms _ hrest
  exact ⟨log, ok, output, hrun, hok.trans (and_congr_right' (and_iff_right hstops)), hwrites⟩

theorem padded_written {buffer : List Byte} {bufsize : BitVec 32}
    (hsize : bufsize.toNat ≤ buffer.length) {syms : List Symbol} {k : Nat}
    {log : List Rfc4648Access} {output : List Byte}
    (h : rfc4648DecodeBase32MultiLogged buffer bufsize
      (syms.map alphabet.char ++ List.replicate k rfc4648PaddingChar) alphabet.chars =
        some ⟨log, .ok (true, output)⟩) :
    syms.length < 2 ^ 32 ∧ (writesOf log).length = octetCount syms.length := by
  obtain ⟨log', ok, output', hrun, hok, hwrites⟩ :=
    rfc4648DecodeBase32MultiLogged_padded hpad hsize syms k
  rw [h] at hrun
  obtain ⟨rfl, hresult⟩ := (Logged.mk.injEq _ _ _ _).mp (Option.some.inj hrun)
  obtain ⟨rfl, -⟩ := Prod.mk.inj (Except.ok.inj hresult)
  exact ⟨(hok.mp rfl).1, hwrites rfl⟩

/-- A buffer that is just large enough. -/
theorem exists_padded_accepted {syms : List Symbol} (hlength : syms.length < 2 ^ 32) (k : Nat) :
    ∃ (buffer : List Byte) (bufsize : BitVec 32) (log : List Rfc4648Access) (output : List Byte),
      bufsize.toNat ≤ buffer.length ∧
      rfc4648DecodeBase32MultiLogged buffer bufsize
        (syms.map alphabet.char ++ List.replicate k rfc4648PaddingChar) alphabet.chars =
          some ⟨log, .ok (true, output)⟩ := by
  have hfits : (BitVec.ofNat 32 (octetCount syms.length)).toNat = octetCount syms.length := by
    rw [BitVec.toNat_ofNat]
    unfold octetCount
    omega
  have hroom : (BitVec.ofNat 32 (octetCount syms.length)).toNat ≤
      (List.replicate (octetCount syms.length) (0 : Byte)).length := by
    rw [hfits, List.length_replicate]
  obtain ⟨log, ok, output, hrun, hok, -⟩ :=
    rfc4648DecodeBase32MultiLogged_padded hpad hroom syms k
  obtain rfl : ok = true := hok.mpr ⟨hlength, hfits.ge⟩
  exact ⟨_, _, log, output, hroom, hrun⟩

end Padded

/-- What is announced is five bytes for eight symbols where this is what the length comes to. -/
theorem announced_eq_iff {symbols : Nat} (hshort : symbols < 2 ^ 32) (length : Nat) :
    BitVec.ofNat 32 (if length % 2 ^ 32 < 2 ^ 31 then min (length % 2 ^ 32) symbols else length) =
        BitVec.ofNat 32 (octetCount symbols) ↔
      (symbols = 0 ∧ length % 2 ^ 32 < 2 ^ 31) ∨ length % 2 ^ 32 = 5 * symbols / 8 := by
  have hfits : octetCount symbols < 2 ^ 32 := by
    unfold octetCount
    omega
  rw [← BitVec.toNat_inj, BitVec.toNat_ofNat, BitVec.toNat_ofNat, Nat.mod_eq_of_lt hfits]
  unfold octetCount
  split_ifs with hint
  · rw [Nat.mod_eq_of_lt (lt_of_le_of_lt (Nat.min_le_right _ _) hshort)]
    omega
  · omega

/-- **Announced size.** On symbols and padding, the size is the number of bytes that the decoder
writes when it succeeds if and only if there is no symbol to decode. The other cases are lengths
that are no `int`. -/
theorem rfc4648Base32Size_exact_iff {alphabet : CStr}
    (halphabet : alphabet = base32Alphabet ∨ alphabet = base32hexAlphabet) {symbols : CStr}
    (hsymbols : ∀ c ∈ symbols, c ∈ alphabet) (k : Nat) {s : CStr}
    (hs : s = symbols ++ List.replicate k rfc4648PaddingChar) :
    (∀ buffer (bufsize : BitVec 32) log output, bufsize.toNat ≤ buffer.length →
      rfc4648DecodeBase32MultiLogged buffer bufsize s alphabet = some ⟨log, .ok (true, output)⟩ →
      rfc4648Base32Size s = .ok (BitVec.ofNat 32 (writesOf log).length)) ↔
    (symbols.length = 0 ∧ s.length % 2 ^ 32 < 2 ^ 31) ∨
      s.length % 2 ^ 32 = 5 * symbols.length / 8 ∨ 2 ^ 32 ≤ symbols.length := by
  obtain ⟨letters, rfl, hpad⟩ := exists_alphabet halphabet
  have hsize := rfc4648Base32Size_eq (fun hmem => hpad (hsymbols _ hmem)) k
  have hlen : s.length = symbols.length + k := by rw [hs]; simp
  obtain ⟨syms, rfl⟩ := letters.exists_map_char hsymbols
  rw [← hs, ← hlen, List.length_map] at hsize
  rw [List.length_map]
  constructor
  · intro h
    by_cases hlong : 2 ^ 32 ≤ syms.length
    · exact .inr (.inr hlong)
    · have hshort := Nat.lt_of_not_le hlong
      obtain ⟨buffer, bufsize, log, output, hroom, hrun⟩ :=
        exists_padded_accepted hpad hshort k
      have heq := h buffer bufsize log output hroom (by rw [hs, hrun])
      rw [hsize, (padded_written hpad hroom hrun).2] at heq
      rw [← or_assoc]
      exact .inl ((announced_eq_iff hshort s.length).mp (Except.ok.inj heq))
  · intro h buffer bufsize log output hroom hrun
    rw [hs] at hrun
    obtain ⟨hshort, hwrites⟩ := padded_written hpad hroom hrun
    rw [← or_assoc, or_iff_left (Nat.not_le.mpr hshort)] at h
    rw [hsize, hwrites, (announced_eq_iff hshort s.length).mpr h]

/-- Without symbols there is nothing to announce and nothing to write; the two symbols of one byte
are announced as something else. -/
theorem rfc4648Base32Size_exact_iff_oneByte : rfc4648Base32Size "====".toList = .ok 0 ∧
    ¬∀ buffer (bufsize : BitVec 32) log output, bufsize.toNat ≤ buffer.length →
      rfc4648DecodeBase32MultiLogged buffer bufsize "MY======".toList base32Alphabet =
        some ⟨log, .ok (true, output)⟩ →
      rfc4648Base32Size "MY======".toList = .ok (BitVec.ofNat 32 (writesOf log).length) := by
  constructor
  · have hrun : rfc4648DecodeBase32MultiLogged [7] 1 "====".toList base32Alphabet =
      some ⟨[.read 0], .ok (true, [7])⟩ := rfl
    have hnone : ∀ c ∈ ([] : CStr), c ∈ base32Alphabet := by simp
    have hiff := rfc4648Base32Size_exact_iff (.inl rfl) hnone 4 (s := "====".toList) rfl
    exact hiff.mpr (.inl ⟨rfl, by decide⟩) [7] 1 _ _ (by decide) hrun
  · have hM : base32Alphabet[12]? = some 'M' := rfl
    have hY : base32Alphabet[24]? = some 'Y' := rfl
    have hsymbols : ∀ c ∈ ['M', 'Y'], c ∈ base32Alphabet := by
      rw [List.forall_mem_cons, List.forall_mem_singleton]
      exact ⟨List.mem_of_getElem? hM, List.mem_of_getElem? hY⟩
    have hiff := rfc4648Base32Size_exact_iff (.inl rfl) hsymbols 6 (s := "MY======".toList) rfl
    rw [show "MY======".toList.length = 8 from rfl, List.length_cons, List.length_singleton] at hiff
    exact mt hiff.mp (by omega)

/-- The text of the tests for one byte is announced with two. -/
theorem rfc4648Base32Size_counts_symbols :
    rfc4648Base32Size "MY======".toList = .ok 2 ∧
      rfc4648DecodeBase32MultiLogged [0, 0] 2 "MY======".toList base32Alphabet =
        some ⟨[.read 0, .read 1, .read 2, .write 0], .ok (true, [0x66, 0])⟩ :=
  ⟨rfl, rfl⟩

end Umsftpd
