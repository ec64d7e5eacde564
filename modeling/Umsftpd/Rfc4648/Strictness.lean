import Umsftpd.Rfc4648.Safety

/-!
# What the decoder accepts

The decoder looks at the symbols that a string starts with and at the one character after them. If
that is the terminator or padding, and the bytes of the symbols fit, the string is accepted: whether
the last symbols make a byte, and what comes after the first padding character, is not looked at.
-/

namespace Umsftpd

open CLib Base32
open Systems (Logged)

/-! ## Runs -/

section Rounds

variable {alphabet : Alphabet Char} {inputString : CStr} {buffer : List Byte}
  {bufsize : BitVec 32}

/-- From a place among the symbols on: what is written if the string is accepted, and when it is. By
induction on the rounds, each of which passes eight symbols. -/
theorem rfc4648DecodeRoundsLogged_symbols (hpad : rfc4648PaddingChar ∉ alphabet.chars)
    (hsize : bufsize.toNat ≤ buffer.length) (syms : List Symbol) (rest : CStr)
    (hrest : ∀ c, rest.head? = some c → c ∉ alphabet.chars) (hlength : syms.length < 2 ^ 32)
    {g : Nat} (hg : 8 * g ≤ syms.length) (done : List Byte) (hdone : done.length ≤ bufsize.toNat)
    {rounds : Nat} (hrounds : bufsize.toNat < done.length + rounds) :
    ∃ log ok output,
      rfc4648DecodeRoundsLogged bufsize (syms.map alphabet.char ++ rest) alphabet.chars rounds
        (stateAt buffer done (8 * g)) = some ⟨log, .ok (ok, output)⟩ ∧
      (ok = true ↔ Stops rest.head? ∧
        done.length + octetCount (syms.length - 8 * g) ≤ bufsize.toNat) ∧
      (ok = true → (writesOf log).length = octetCount (syms.length - 8 * g)) := by
  induction rounds generalizing g done with
  | zero => omega
  | succ rounds ih =>
    have hmod : 8 * g % 2 ^ 32 = 8 * g := Nat.mod_eq_of_lt (by omega)
    obtain ⟨chunk, hchunk, hcount⟩ : ∃ chunk,
        ChunkAt alphabet (syms.map alphabet.char ++ rest) (8 * g % 2 ^ 32) chunk rest.head? ∧
          chunk.length = min 8 (syms.length - 8 * g) := by
      have hchunk := chunkAt_append ((syms.take (8 * g)).map alphabet.char) (syms.drop (8 * g)) rest
        fun _ => hrest
      rw [← List.map_append, List.take_append_drop, List.length_map,
        List.length_take_of_le hg] at hchunk
      rw [hmod]
      exact ⟨_, hchunk, by rw [List.length_take, List.length_drop]⟩
    have hcases := rfc4648DecodeRoundsLogged_cases hpad hsize (by omega) hchunk hdone rounds rfl
    unfold octetCount at *
    rcases hcases with ⟨hfew, hforeign, hrun⟩ | ⟨-, hfull, output, hrun⟩ |
      ⟨hfew, hstop, hroom, hrun⟩ | ⟨hfull, hroom, hrun⟩
    · exact ⟨_, _, _, hrun, iff_of_false Bool.false_ne_true fun h => hforeign h.1, by simp⟩
    · refine ⟨_, _, _, hrun, iff_of_false Bool.false_ne_true fun h => ?_, by simp⟩
      omega
    · refine ⟨_, _, _, hrun, iff_of_true rfl ⟨hstop, by omega⟩, fun _ => ?_⟩
      rw [writesOf_append, writesOf_readsAt, writesOf_storesAt, List.nil_append,
        List.length_range']
      omega
    · have hbytes : (done ++ chunkBytes chunk).length = done.length + 5 := by
        rw [List.length_append, length_chunkBytes, hfull]
        rfl
      obtain ⟨log, ok, output, hmore, hok, hwrites⟩ := ih (g := g + 1) (by omega)
        (done ++ chunkBytes chunk) (by rwa [hbytes]) (by rw [hbytes]; omega)
      rw [Nat.mul_succ] at hmore hok hwrites
      rw [hmore] at hrun
      rw [hbytes] at hok
      refine ⟨_, ok, output, hrun, hok.trans (and_congr_right fun _ => by omega), fun h => ?_⟩
      rw [writesOf_append, writesOf_append, writesOf_readsAt, writesOf_storesAt, List.nil_append,
        List.length_append, List.length_range', hwrites h]
      omega

end Rounds

/-- What becomes of a string that starts with these symbols and no more. -/
theorem rfc4648DecodeBase32MultiLogged_symbols {alphabet : Alphabet Char}
    (hpad : rfc4648PaddingChar ∉ alphabet.chars) {buffer : List Byte} {bufsize : BitVec 32}
    (hsize : bufsize.toNat ≤ buffer.length) (syms : List Symbol) (rest : CStr)
    (hrest : ∀ c, rest.head? = some c → c ∉ alphabet.chars) :
    ∃ log ok output,
      rfc4648DecodeBase32MultiLogged buffer bufsize (syms.map alphabet.char ++ rest)
        alphabet.chars = some ⟨log, .ok (ok, output)⟩ ∧
      (ok = true ↔ syms.length < 2 ^ 32 ∧ Stops rest.head? ∧
        octetCount syms.length ≤ bufsize.toNat) ∧
      (ok = true → (writesOf log).length = octetCount syms.length) := by
  have hrounds : bufsize.toNat < ([] : List Byte).length + (bufsize.toNat + 1) :=
    Nat.lt_add_left _ (Nat.lt_succ_self _)
  have hdone : ([] : List Byte).length ≤ bufsize.toNat := Nat.zero_le _
  unfold rfc4648DecodeBase32MultiLogged
  rw [← stateAt_start]
  by_cases hlength : syms.length < 2 ^ 32
  · have hstart : 8 * 0 ≤ syms.length := Nat.zero_le _
    obtain ⟨log, ok, output, hrun, hok, hwrites⟩ :=
      rfc4648DecodeRoundsLogged_symbols hpad hsize syms rest hrest hlength hstart [] hdone hrounds
    rw [List.length_nil, Nat.zero_add] at hok
    exact ⟨log, ok, output, hrun, hok.trans (and_iff_right hlength).symm, hwrites⟩
  · have hchunks : ∀ place < 2 ^ 32, 8 ∣ place → ∃ syms' cell,
        ChunkAt alphabet (syms.map alphabet.char ++ rest) place syms' cell ∧
          syms'.length = 8 := by
      intro place hplace hdvd
      have hle : place ≤ syms.length := by omega
      have hchunk := chunkAt_append ((syms.take place).map alphabet.char) (syms.drop place) rest
        fun _ => hrest
      rw [← List.map_append, List.take_append_drop, List.length_map,
        List.length_take_of_le hle] at hchunk
      refine ⟨_, _, hchunk, ?_⟩
      rw [List.length_take, List.length_drop]
      omega
    obtain ⟨log, output, hrun⟩ := rfc4648DecodeRoundsLogged_endless hpad hsize hchunks
      (Nat.dvd_zero 8) [] hdone hrounds
    exact ⟨log, false, output, hrun, iff_of_false Bool.false_ne_true fun h => hlength h.1, by simp⟩

/-! ## Acceptance -/

/-- The symbols that a string starts with. -/
def leadingSymbols (alphabet s : CStr) : CStr := s.takeWhile fun c => c ∈ alphabet

theorem leadingSymbols_append (alphabet : Alphabet Char) (syms : List Symbol) {rest : CStr}
    (hrest : ∀ c, rest.head? = some c → c ∉ alphabet.chars) :
    leadingSymbols alphabet.chars (syms.map alphabet.char ++ rest) = syms.map alphabet.char := by
  have hall : ∀ c ∈ syms.map alphabet.char, decide (c ∈ alphabet.chars) = true := by
    intro c hc
    obtain ⟨s, -, rfl⟩ := List.mem_map.mp hc
    exact decide_eq_true (alphabet.char_mem s)
  have hnone : rest.takeWhile (fun c => decide (c ∈ alphabet.chars)) = [] := by
    cases rest with
    | nil => rfl
    | cons c rest => exact List.takeWhile_cons_of_neg (by simpa using hrest c rfl)
  unfold leadingSymbols
  rw [List.takeWhile_append_of_pos hall, hnone, List.append_nil]

section Acceptance

variable {alphabet : CStr} {buffer : List Byte} {bufsize : BitVec 32}

/-- A string is accepted by the symbols that it starts with and by what comes next. -/
theorem rfc4648DecodeBase32Multi_accepts_iff
    (halphabet : alphabet = base32Alphabet ∨ alphabet = base32hexAlphabet)
    (hsize : bufsize.toNat ≤ buffer.length) (s : CStr) :
    (∃ output, rfc4648DecodeBase32Multi buffer bufsize s alphabet = some (.ok (true, output))) ↔
      (leadingSymbols alphabet s).length < 2 ^ 32 ∧
      Stops s[(leadingSymbols alphabet s).length]? ∧
      octetCount (leadingSymbols alphabet s).length ≤ bufsize.toNat := by
  obtain ⟨symbols, rfl, hpad⟩ := exists_alphabet halphabet
  obtain ⟨syms, rest, rfl, hrest⟩ := symbols.exists_symbols s
  obtain ⟨log, ok, output, hrun, hok, -⟩ :=
    rfc4648DecodeBase32MultiLogged_symbols hpad hsize syms rest hrest
  have hnext : (syms.map symbols.char ++ rest)[syms.length]? = rest.head? := by
    rw [List.getElem?_append_right (by simp), List.length_map, Nat.sub_self, List.head?_eq_getElem?]
  rw [← rfc4648DecodeBase32MultiLogged_result, hrun, leadingSymbols_append symbols syms hrest,
    List.length_map, hnext, ← hok]
  constructor
  · rintro ⟨output', heq⟩
    exact (Prod.mk.inj (Except.ok.inj (Option.some.inj heq))).1
  · rintro rfl
    exact ⟨output, rfl⟩

/-- A string as a strict decoder takes it: symbols, as many as a whole number of octets has, and
then padding to the end. -/
def IsStrict (alphabet s : CStr) : Prop :=
  ∃ (symbols : CStr) (k : Nat), s = symbols ++ List.replicate k rfc4648PaddingChar ∧
    (∀ c ∈ symbols, c ∈ alphabet) ∧ symbols.length % 8 ∈ [0, 2, 4, 5, 7]

/-- Strictness is a property of the symbols at the start and of all that comes after them. -/
theorem isStrict_iff (hpad : rfc4648PaddingChar ∉ alphabet) (s : CStr) :
    IsStrict alphabet s ↔
      (∀ c ∈ s.dropWhile fun c => c ∈ alphabet, c = rfc4648PaddingChar) ∧
        (leadingSymbols alphabet s).length % 8 ∈ [0, 2, 4, 5, 7] := by
  unfold leadingSymbols
  constructor
  · rintro ⟨symbols, k, rfl, hsymbols, hcount⟩
    have hall : ∀ c ∈ symbols, decide (c ∈ alphabet) = true := by simpa using hsymbols
    rw [List.takeWhile_append_of_pos hall, List.dropWhile_append_of_pos hall]
    cases k with
    | zero => exact ⟨by simp, by simpa using hcount⟩
    | succ k => simpa [List.replicate_succ, hpad] using hcount
  · rintro ⟨hpadding, hcount⟩
    refine ⟨_, (s.dropWhile fun c => c ∈ alphabet).length, ?_,
      fun c hc => by simpa using List.mem_takeWhile_imp hc, hcount⟩
    rw [← List.eq_replicate_of_mem hpadding, List.takeWhile_append_dropWhile]

/-- **Strictness.** The decoder takes no string that is not strict, unless a padding character or
the terminator follows the symbols that it starts with, and their bytes fit. -/
theorem rfc4648DecodeBase32Multi_strict_iff
    (halphabet : alphabet = base32Alphabet ∨ alphabet = base32hexAlphabet)
    (hsize : bufsize.toNat ≤ buffer.length) (s : CStr) :
    (∀ output, rfc4648DecodeBase32Multi buffer bufsize s alphabet = some (.ok (true, output)) →
      IsStrict alphabet s) ↔
    IsStrict alphabet s ∨
      (∃ c, s[(leadingSymbols alphabet s).length]? = some c ∧ c ≠ rfc4648PaddingChar) ∨
      bufsize.toNat < octetCount (leadingSymbols alphabet s).length ∨
      2 ^ 32 ≤ (leadingSymbols alphabet s).length := by
  have haccepts := rfc4648DecodeBase32Multi_accepts_iff halphabet hsize s
  have hstops : (∃ c, s[(leadingSymbols alphabet s).length]? = some c ∧ c ≠ rfc4648PaddingChar) ↔
      ¬ Stops s[(leadingSymbols alphabet s).length]? := by
    unfold Stops
    cases s[(leadingSymbols alphabet s).length]? <;> simp
  rw [hstops]
  constructor
  · intro h
    by_contra hlax
    obtain ⟨hstrict, hstop, hroom, hshort⟩ : ¬ IsStrict alphabet s ∧ _ ∧ _ ∧ _ := by
      simpa only [not_or] using hlax
    obtain ⟨output, hrun⟩ :=
      haccepts.mpr ⟨Nat.lt_of_not_le hshort, not_not.mp hstop, Nat.le_of_not_lt hroom⟩
    exact hstrict (h output hrun)
  · rintro (hstrict | hrejected) output hrun
    · exact hstrict
    · obtain ⟨hshort, hstop, hroom⟩ := haccepts.mp ⟨output, hrun⟩
      rcases hrejected with hforeign | hfull | hlong
      · exact absurd hstop hforeign
      · omega
      · omega

end Acceptance

theorem rfc4648DecodeBase32Multi_strict_iff_fo :
    rfc4648DecodeBase32Multi [0, 0] 2 "MZXQ=".toList base32Alphabet =
      some (.ok (true, [0x66, 0x6f])) ∧ IsStrict base32Alphabet "MZXQ=".toList := by
  have hstrict : IsStrict base32Alphabet "MZXQ=".toList :=
    ⟨['M', 'Z', 'X', 'Q'], 1, rfl, by simp [base32Alphabet_eq, base32], by simp⟩
  have hsize : (2 : BitVec 32).toNat ≤ ([0, 0] : List Byte).length := by decide
  have hrun : rfc4648DecodeBase32Multi [0, 0] 2 "MZXQ=".toList base32Alphabet =
      some (.ok (true, [0x66, 0x6f])) := rfl
  exact ⟨hrun, (rfc4648DecodeBase32Multi_strict_iff (.inl rfl) hsize _).mpr (.inl hstrict) _ hrun⟩

/-- A foreign character after the padding, data after the padding and a dangling symbol are
accepted. -/
theorem rfc4648DecodeBase32_lax :
    rfc4648DecodeBase32 [0, 0] 2 "MY=!".toList = some (.ok (true, [0x66, 0])) ∧
      rfc4648DecodeBase32 [0, 0] 2 "MY=MY".toList = some (.ok (true, [0x66, 0])) ∧
      rfc4648DecodeBase32 [0, 0] 2 "MYA".toList = some (.ok (true, [0x66, 0])) ∧
      ∀ s ∈ ["MY=!".toList, "MY=MY".toList, "MYA".toList], ¬ IsStrict base32Alphabet s := by
  refine ⟨rfl, rfl, rfl, fun s hs => ?_⟩
  rw [base32Alphabet_eq, isStrict_iff rfc4648PaddingChar_base32]
  have hlists : s ∈ [['M', 'Y', '=', '!'], ['M', 'Y', '=', 'M', 'Y'], ['M', 'Y', 'A']] := hs
  clear hs
  revert s
  simp [leadingSymbols, base32, rfc4648PaddingChar]

end Umsftpd
