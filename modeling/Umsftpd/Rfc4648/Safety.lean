import Umsftpd.Rfc4648.Groups

/-!
# The decoder stays inside its arrays

A round goes on only after eight characters, so the next one starts at the terminator at the latest;
a byte is written at the offset that the last one left, if there is room. The offset into the input
may wrap around, but only in a string that is longer than that.
-/

namespace Umsftpd

open CLib Base32
open Systems (Logged)

/-- The rounds come to an end. They read the string and its terminator, and write one byte after
the other, from `start` on and below `bufsize`. -/
structure RunsSafely (inputString : CStr) (bufsize start : Nat)
    (run : Option (Logged Undefined Rfc4648Access (Bool × List Byte))) (log : List Rfc4648Access)
    (ok : Bool) (output : List Byte) : Prop where
  returns : run = some ⟨log, .ok (ok, output)⟩
  reads : ∀ i, Rfc4648Access.read i ∈ log → i ≤ inputString.length
  writes : ∃ count, writesOf log = List.range' start count ∧ start + count ≤ bufsize

/-- What a round reads is in the string. -/
theorem le_of_mem_readsAt {place m i length : Nat} (h : Rfc4648Access.read i ∈ readsAt place m)
    (hm : m ≤ 8) (hlength : place + m ≤ length) : i ≤ length := by
  obtain ⟨j, hj, heq⟩ := List.mem_map.mp h
  obtain rfl := Rfc4648Access.read.inj heq
  rw [List.mem_range'_1] at hj
  omega

theorem read_not_mem_storesAt (bufsize start n i : Nat) :
    Rfc4648Access.read i ∉ storesAt bufsize start n := by
  simp [storesAt]

@[simp] theorem writesOf_readsAt (place m : Nat) : writesOf (readsAt place m) = [] :=
  writesOf_reads _

@[simp] theorem writesOf_storesAt (bufsize start n : Nat) :
    writesOf (storesAt bufsize start n) = List.range' start (min n (bufsize - start)) :=
  writesOf_writes _

section Rounds

variable {alphabet : Alphabet Char} {inputString : CStr} {buffer : List Byte}
  {bufsize : BitVec 32}

/-- The next place after a full chunk is in the string again, also where the offset wraps. -/
theorem next_place_le {place length : Nat} (hplace : 8 ∣ place) (h : place % 2 ^ 32 + 8 ≤ length) :
    (place + 8) % 2 ^ 32 ≤ length := by
  omega

/-- By induction on the rounds: each of them stores five bytes, or it is the last. -/
theorem rfc4648DecodeRoundsLogged_safe (hpad : rfc4648PaddingChar ∉ alphabet.chars)
    (hsize : bufsize.toNat ≤ buffer.length) {rounds position : Nat} (hposition : 8 ∣ position)
    (hplace : position % 2 ^ 32 ≤ inputString.length) (done : List Byte)
    (hdone : done.length ≤ bufsize.toNat) (hrounds : bufsize.toNat < done.length + rounds) :
    ∃ log ok output, RunsSafely inputString bufsize.toNat done.length
      (rfc4648DecodeRoundsLogged bufsize inputString alphabet.chars rounds
        (stateAt buffer done position)) log ok output := by
  induction rounds generalizing position done with
  | zero => omega
  | succ rounds ih =>
    obtain ⟨syms, cell, hchunk⟩ := exists_chunkAt alphabet hplace
    have hin : position % 2 ^ 32 + 8 ≤ 2 ^ 32 := by omega
    have hlen := hchunk.length_le
    have hlength := hchunk.le_length hplace
    have hreads : ∀ i, Rfc4648Access.read i ∈ readsAt (position % 2 ^ 32) syms.length →
        i ≤ inputString.length := fun i hi => le_of_mem_readsAt hi hlen hlength
    have hreads' : ∀ n i, Rfc4648Access.read i ∈ readsAt (position % 2 ^ 32) syms.length ++
        storesAt bufsize.toNat done.length n → i ≤ inputString.length := by
      intro n i hi
      exact hreads i ((List.mem_append.mp hi).resolve_right (read_not_mem_storesAt _ _ _ _))
    rcases rfc4648DecodeRoundsLogged_cases hpad hsize hin hchunk hdone rounds rfl with
      ⟨-, -, hrun⟩ | ⟨-, -, output, hrun⟩ | ⟨-, -, -, hrun⟩ | ⟨hfull, hroom, hrun⟩
    · exact ⟨_, _, _, hrun, hreads, 0, by simp, hdone⟩
    · exact ⟨_, _, _, hrun, hreads' _, min (octetCount syms.length) (bufsize.toNat - done.length),
        by simp, by omega⟩
    · exact ⟨_, _, _, hrun, hreads' _, min (octetCount syms.length) (bufsize.toNat - done.length),
        by simp, by omega⟩
    · have hbytes : (done ++ chunkBytes syms).length = done.length + 5 := by
        rw [List.length_append, length_chunkBytes, hfull]
        rfl
      rw [hfull] at hlength hreads'
      obtain ⟨log, ok, output, hreturns, hmore, count, hwrites, hcount⟩ :=
        ih (Nat.dvd_add hposition (Nat.dvd_refl 8)) (next_place_le hposition hlength)
          (done ++ chunkBytes syms) (by rwa [hbytes]) (by rw [hbytes]; omega)
      rw [hreturns] at hrun
      refine ⟨_, ok, output, hrun, fun i hi => ?_, 5 + count, ?_, by omega⟩
      · rcases List.mem_append.mp hi with hi | hi
        · exact hreads' 5 i hi
        · exact hmore i hi
      · have hfive : min 5 (bufsize.toNat - done.length) = 5 := by omega
        rw [writesOf_append, writesOf_append, writesOf_readsAt, writesOf_storesAt, hwrites, hbytes,
          hfive, List.nil_append, ← List.range'_append_1]

end Rounds

theorem base32Alphabet_eq : base32Alphabet = base32.chars := rfl

theorem base32hexAlphabet_eq : base32hexAlphabet = base32hex.chars := rfl

theorem rfc4648PaddingChar_base32 : rfc4648PaddingChar ∉ base32.chars := by decide

theorem rfc4648PaddingChar_base32hex : rfc4648PaddingChar ∉ base32hex.chars := by decide

/-- Each of the two alphabets is an alphabet, without the padding character. -/
theorem exists_alphabet {alphabet : CStr}
    (h : alphabet = base32Alphabet ∨ alphabet = base32hexAlphabet) :
    ∃ symbols : Alphabet Char, symbols.chars = alphabet ∧
      rfc4648PaddingChar ∉ symbols.chars := by
  rcases h with rfl | rfl
  · exact ⟨base32, rfl, rfc4648PaddingChar_base32⟩
  · exact ⟨base32hex, rfl, rfc4648PaddingChar_base32hex⟩

/-- **Safety.** On every string and with either alphabet the decoder returns; it reads no further
than the terminator, and it writes the bytes 0, 1, 2, … of the output, all of them below
`bufsize`. -/
theorem rfc4648DecodeBase32Multi_safe {alphabet : CStr}
    (halphabet : alphabet = base32Alphabet ∨ alphabet = base32hexAlphabet) (inputString : CStr)
    {buffer : List Byte} {bufsize : BitVec 32} (hsize : bufsize.toNat ≤ buffer.length) :
    ∃ log ok output,
      rfc4648DecodeBase32MultiLogged buffer bufsize inputString alphabet =
        some ⟨log, .ok (ok, output)⟩ ∧
      rfc4648DecodeBase32Multi buffer bufsize inputString alphabet = some (.ok (ok, output)) ∧
      (∀ i, Rfc4648Access.read i ∈ log → i ≤ inputString.length) ∧
      ∃ count, writesOf log = List.range count ∧ count ≤ bufsize.toNat := by
  obtain ⟨symbols, rfl, hpad⟩ := exists_alphabet halphabet
  have hstart : 0 % 2 ^ 32 ≤ inputString.length := Nat.zero_le _
  obtain ⟨log, ok, output, hrun, hreads, count, hwrites, hcount⟩ :=
    rfc4648DecodeRoundsLogged_safe hpad hsize (Nat.dvd_zero 8) hstart [] (Nat.zero_le _)
      (Nat.lt_add_left ([] : List Byte).length (Nat.lt_succ_self bufsize.toNat))
  rw [stateAt_start] at hrun
  have hplain := rfc4648DecodeBase32MultiLogged_result buffer bufsize inputString symbols.chars
  refine ⟨log, ok, output, hrun, ?_, hreads, count, ?_, ?_⟩
  · rw [← hplain]
    exact congrArg (Option.map Logged.result) hrun
  · rw [hwrites, List.range_eq_range']
    rfl
  · rwa [List.length_nil, Nat.zero_add] at hcount

/-- Three bytes of which two fit. -/
theorem rfc4648DecodeBase32Multi_safe_short :
    ∃ log ok output,
      rfc4648DecodeBase32MultiLogged [0, 0] 2 "MZXW6===".toList base32Alphabet =
        some ⟨log, .ok (ok, output)⟩ ∧
      (∀ i, Rfc4648Access.read i ∈ log → i ≤ 8) ∧
      ∃ count, writesOf log = List.range count ∧ count ≤ 2 := by
  have hsize : (2 : BitVec 32).toNat ≤ ([0, 0] : List Byte).length := by decide
  obtain ⟨log, ok, output, hrun, -, hreads, hwrites⟩ :=
    rfc4648DecodeBase32Multi_safe (.inl rfl) "MZXW6===".toList hsize
  exact ⟨log, ok, output, hrun, hreads, hwrites⟩

end Umsftpd
