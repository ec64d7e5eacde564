import Umsftpd.Rfc4648.Safety

/-!
# Decoding what was encoded

A round of the decoder stores the bytes of the group it finds (`rfc4648DecodeRounds_group`), and one
that finds a full group leaves everything ready for the next. The offset into the input wraps around
after 2^29 groups, so a string that has so many never comes to an end.
-/

namespace Umsftpd

open CLib Base32

/-! ## Bytes -/

/-- The five formulas, on symbols that are cut out of one quantum. -/
theorem octet_formulas (q : BitVec 40) :
    ((symbol q 0).setWidth 32 <<< 3 ||| (symbol q 1).setWidth 32 >>> 2).setWidth 8 = octet q 0 ∧
      ((symbol q 1).setWidth 32 <<< 6 ||| (symbol q 2).setWidth 32 <<< 1 |||
        (symbol q 3).setWidth 32 >>> 4).setWidth 8 = octet q 1 ∧
      ((symbol q 3).setWidth 32 <<< 4 ||| (symbol q 4).setWidth 32 >>> 1).setWidth 8 = octet q 2 ∧
      ((symbol q 4).setWidth 32 <<< 7 ||| (symbol q 5).setWidth 32 <<< 2 |||
        (symbol q 6).setWidth 32 >>> 3).setWidth 8 = octet q 3 ∧
      ((symbol q 6).setWidth 32 <<< 5 ||| (symbol q 7).setWidth 32 >>> 0).setWidth 8 =
        octet q 4 := by
  unfold symbol octet
  refine ⟨?_, ?_, ?_, ?_, ?_⟩ <;>
  · ext j hj
    interval_cases j <;> simp

/-- A byte can be put together when the symbols are there that its bits are in. -/
theorem rfc4648Byte_symbols (q : BitVec 40) {m i : Nat} (hm : m ≤ 8) (hi : i < 5) :
    rfc4648Byte (mappedOf ((List.range m).map (symbol q))) i =
      if symbolCount (i + 1) ≤ m then some (octet q i) else none := by
  have hchar : ∀ j, (mappedOf ((List.range m).map (symbol q))).getD j (-1) =
      charOf ((List.range m).map (symbol q)) j := getD_mappedOf _
  have hthere : ∀ j, charOf ((List.range m).map (symbol q)) j ≠ -1 ↔ j < m := by
    intro j
    rw [charOf_ne_iff]
    simp
  have hval : ∀ j, j < m → charOf ((List.range m).map (symbol q)) j =
      (symbol q j).setWidth 32 := by
    intro j hj
    simp [charOf, hj]
  unfold rfc4648Byte
  simp only [hchar, hthere]
  obtain ⟨h0, h1, h2, h3, h4⟩ := octet_formulas q
  by_cases hcount : symbolCount (i + 1) ≤ m
  · rw [if_pos hcount]
    unfold symbolCount at hcount
    interval_cases i
    · rw [if_pos (by omega), hval 0 (by omega), hval 1 (by omega), h0]
    · rw [if_neg (by omega), if_pos (by omega), hval 1 (by omega), hval 2 (by omega),
        hval 3 (by omega), h1]
    · rw [if_neg (by omega), if_neg (by omega), if_pos (by omega), hval 3 (by omega),
        hval 4 (by omega), h2]
    · rw [if_neg (by omega), if_neg (by omega), if_neg (by omega), if_pos (by omega),
        hval 4 (by omega), hval 5 (by omega), hval 6 (by omega), h3]
    · rw [if_neg (by omega), if_neg (by omega), if_neg (by omega), if_neg (by omega),
        if_pos (by omega), hval 6 (by omega), hval 7 (by omega), h4]
  · rw [if_neg hcount]
    unfold symbolCount at hcount
    rw [if_neg (by omega), if_neg (by omega), if_neg (by omega), if_neg (by omega),
      if_neg (by omega)]

/-- The bytes of a group are those that were encoded. -/
theorem rfc4648Byte_group {bs : List Octet} (hbs : bs.length ≤ 5) {i : Nat} (hi : i < 5) :
    rfc4648Byte (mappedOf (group bs)) i = bs[i]? := by
  unfold group
  rw [rfc4648Byte_symbols _ (symbolCount_le hbs) hi, octet_quantum bs hi]
  by_cases hlt : i < bs.length
  · rw [if_pos (by unfold symbolCount; omega), List.getElem?_eq_getElem hlt]
    simp [hlt]
  · rw [if_neg (by unfold symbolCount; omega), List.getElem?_eq_none (Nat.not_lt.mp hlt)]

/-! ## Rounds -/

/-- At this place of the input there is a group; one that is not full is the last. -/
def GroupAt (alphabet : Alphabet Char) (inputString : CStr) (place : Nat) (bs : List Byte) :
    Prop :=
  ∃ before rest, inputString = before ++ (group bs).map alphabet.char ++ rest ∧
    before.length = place ∧
    (bs.length < 5 → rest = [] ∨ ∃ more, rest = rfc4648PaddingChar :: more)

section Rounds

variable {alphabet : Alphabet Char} {inputString : CStr} {buffer : List Byte}
  {bufsize : BitVec 32}

/-- The symbols of a group are the chunk there, and one that is not full is ended. -/
theorem GroupAt.chunkAt (hpad : rfc4648PaddingChar ∉ alphabet.chars) {place : Nat} {bs : List Byte}
    (hbs : bs.length ≤ 5) (h : GroupAt alphabet inputString place bs) :
    ∃ cell, ChunkAt alphabet inputString place (group bs) cell ∧
      ((group bs).length = 8 ∨ Stops cell) := by
  obtain ⟨before, rest, rfl, rfl, hrest⟩ := h
  have hlen : (group bs).length ≤ 8 := by
    rw [length_group]
    exact symbolCount_le hbs
  have hfew : (group bs).length < 8 → bs.length < 5 := by
    rw [length_group]
    unfold symbolCount
    omega
  have hforeign : (group bs).length < 8 → ∀ c, rest.head? = some c → c ∉ alphabet.chars := by
    intro hshort c hc
    rcases hrest (hfew hshort) with rfl | ⟨more, rfl⟩
    · exact absurd hc (by simp)
    · obtain rfl := Option.some.inj hc
      exact hpad
  have hchunk := chunkAt_append before (group bs) rest hforeign
  rw [List.take_of_length_le hlen] at hchunk
  refine ⟨rest.head?, hchunk, ?_⟩
  by_cases hfull : (group bs).length = 8
  · exact .inl hfull
  · rcases hrest (hfew (by omega)) with rfl | ⟨more, rfl⟩
    · exact .inr (.inl rfl)
    · exact .inr (.inr rfl)

theorem chunkBytes_group {bs : List Byte} (hbs : bs.length ≤ 5) : chunkBytes (group bs) = bs := by
  have hlen : (group bs).length ≤ 8 := by
    rw [length_group]
    exact symbolCount_le hbs
  have hbytes := bytesFrom_chunkBytes hlen
  apply List.ext_getElem?
  intro j
  by_cases hj : j < 5
  · have hbyte := hbytes.byte j hj
    rw [Nat.zero_add, rfc4648Byte_group hbs hj] at hbyte
    exact hbyte.symm
  · rw [List.getElem?_eq_none (hbytes.length_le.trans (Nat.not_lt.mp hj)),
      List.getElem?_eq_none (hbs.trans (Nat.not_lt.mp hj))]

/-- The last group of an encoding, with padding or without. -/
theorem groupAt_short (before : CStr) {bs : List Byte} (h : bs.length < 5) (k : Nat) :
    GroupAt alphabet (before ++ encode alphabet bs ++ List.replicate k rfc4648PaddingChar)
      before.length bs := by
  refine ⟨before, List.replicate k rfc4648PaddingChar, ?_, rfl, fun _ => ?_⟩
  · rw [encode_short alphabet h]
  · cases k with
    | zero => exact .inl rfl
    | succ k => exact .inr ⟨_, List.replicate_succ⟩

/-- A full group, whatever comes after it. -/
theorem groupAt_full (before : CStr) {five : List Byte} (h : five.length = 5) (rest : List Byte)
    (after : CStr) :
    GroupAt alphabet (before ++ encode alphabet (five ++ rest) ++ after) before.length five := by
  refine ⟨before, encode alphabet rest ++ after, ?_, rfl, fun hfew => absurd h hfew.ne⟩
  rw [encode_full alphabet h]
  simp only [List.append_assoc]

/-- There is a full group at every offset below the end of the last full quantum. -/
theorem groupAt_encode (alphabet : Alphabet Char) (after : CStr) {b : List Byte} {g : Nat}
    (hg : 5 * (g + 1) ≤ b.length) :
    ∃ five, five.length = 5 ∧ GroupAt alphabet (encode alphabet b ++ after) (8 * g) five := by
  have htake : (b.take (5 * g)).length = 5 * g := List.length_take_of_le (by omega)
  have hfive : ((b.drop (5 * g)).take 5).length = 5 := by
    rw [List.length_take, List.length_drop]
    omega
  have hsplit : b.take (5 * g) ++ ((b.drop (5 * g)).take 5 ++ (b.drop (5 * g)).drop 5) = b := by
    rw [List.take_append_drop, List.take_append_drop]
  have hlen : (encode alphabet (b.take (5 * g))).length = 8 * g := by
    rw [length_encode, htake]
    unfold symbolCount
    omega
  have hgroup : GroupAt alphabet _ _ _ := groupAt_full (encode alphabet (b.take (5 * g))) hfive
    ((b.drop (5 * g)).drop 5) after
  rw [← encode_append alphabet (by rw [htake]; exact Nat.dvd_mul_right 5 g), hsplit, hlen] at hgroup
  exact ⟨_, hfive, hgroup⟩

/-! ## Runs -/

/-- What a decoder makes of the encoding of `b`: it succeeds if there is room, and then `b` is at
the start of the buffer and the rest of it is as before. It has no result if it stores
elsewhere. -/
def Decodes (result : Option (Run (Bool × List Byte))) (buffer b : List Byte) : Prop :=
  ∃ ok after, result = some (.ok (ok, after)) ∧ (ok = true ↔ b.length ≤ buffer.length) ∧
    (ok = true → after = b ++ buffer.drop b.length)

/-- One round, where there is a group. -/
theorem rfc4648DecodeRounds_group (hpad : rfc4648PaddingChar ∉ alphabet.chars)
    (hsize : buffer.length = bufsize.toNat) {bs : List Byte} (hbs : bs.length ≤ 5) {position : Nat}
    (hin : position % 2 ^ 32 + 8 ≤ 2 ^ 32)
    (hgroup : GroupAt alphabet inputString (position % 2 ^ 32) bs) {done : List Byte}
    (hdone : done.length ≤ bufsize.toNat) (rounds : Nat) :
    (bufsize.toNat < done.length + bs.length ∧
      ∃ output, rfc4648DecodeRounds bufsize inputString alphabet.chars (rounds + 1)
        (stateAt buffer done position) = some (.ok (false, output))) ∨
    (done.length + bs.length ≤ bufsize.toNat ∧
      rfc4648DecodeRounds bufsize inputString alphabet.chars (rounds + 1)
        (stateAt buffer done position) =
      if bs.length = 5 then rfc4648DecodeRounds bufsize inputString alphabet.chars rounds
        (stateAt buffer (done ++ bs) (position + 8))
      else some (.ok (true, filled (done ++ bs) buffer))) := by
  obtain ⟨cell, hchunk, hends⟩ := hgroup.chunkAt hpad hbs
  have hcount : octetCount (group bs).length = bs.length := by
    rw [← length_chunkBytes, chunkBytes_group hbs]
  rw [← rfc4648DecodeRoundsLogged_result, ← rfc4648DecodeRoundsLogged_result]
  rcases rfc4648DecodeRoundsLogged_cases hpad hsize.ge hin hchunk hdone rounds rfl with
    ⟨hfew, hforeign, -⟩ | ⟨-, hfull, output, hrun⟩ | ⟨hfew, -, hroom, hrun⟩ | ⟨hfull, hroom, hrun⟩
  · exact absurd (hends.resolve_left hfew.ne) hforeign
  · rw [hcount] at hfull
    exact .inl ⟨hfull, output, by rw [hrun]; rfl⟩
  · rw [hcount] at hroom
    have hlast : bs.length ≠ 5 := by
      intro hfive
      rw [← hcount, octetCount_eq_five_iff hfew.le] at hfive
      exact hfew.ne hfive
    refine .inr ⟨hroom, ?_⟩
    rw [hrun, if_neg hlast, chunkBytes_group hbs]
    rfl
  · have hfive : bs.length = 5 := by
      rw [← hcount, hfull]
      rfl
    refine .inr ⟨by omega, ?_⟩
    rw [hrun, if_pos hfive, chunkBytes_group hbs, Option.map_map]
    rfl

theorem Decodes.failure {buffer b output : List Byte} (h : buffer.length < b.length) :
    Decodes (some (.ok (false, output))) buffer b :=
  ⟨false, output, rfl, by simpa using h, fun hfalse => Bool.noConfusion hfalse⟩

/-- While the offset does not wrap around, the string is decoded group by group. -/
theorem rfc4648DecodeRounds_encode (hpad : rfc4648PaddingChar ∉ alphabet.chars)
    (hsize : buffer.length = bufsize.toNat) (k : Nat) {b : List Byte} {before : CStr}
    (hinput : inputString =
      before ++ encode alphabet b ++ List.replicate k rfc4648PaddingChar)
    (hin : before.length + 8 * (b.length / 5 + 1) ≤ 2 ^ 32) {done : List Byte}
    (hdone : done.length ≤ bufsize.toNat) {rounds : Nat}
    (hrounds : bufsize.toNat < done.length + rounds) :
    Decodes (rfc4648DecodeRounds bufsize inputString alphabet.chars rounds
      (stateAt buffer done before.length)) buffer (done ++ b) := by
  induction b using octets_induction generalizing before done rounds with
  | short bs hshort =>
    obtain ⟨rounds, rfl⟩ : ∃ r, rounds = r + 1 := ⟨rounds - 1, by omega⟩
    have hmod : before.length % 2 ^ 32 = before.length := Nat.mod_eq_of_lt (by omega)
    have hgroup : GroupAt alphabet inputString (before.length % 2 ^ 32) bs := by
      rw [hinput, hmod]
      exact groupAt_short before hshort k
    rcases rfc4648DecodeRounds_group hpad hsize hshort.le (by omega) hgroup hdone rounds with
      ⟨hfull, output, hrun⟩ | ⟨hroom, hrun⟩
    · rw [hrun]
      apply Decodes.failure
      rw [List.length_append]
      omega
    · rw [hrun, if_neg hshort.ne]
      refine ⟨true, _, rfl, iff_of_true rfl ?_, fun _ => rfl⟩
      rw [List.length_append]
      omega
  | full five rest hfive ih =>
    obtain ⟨rounds, rfl⟩ : ∃ r, rounds = r + 1 := ⟨rounds - 1, by omega⟩
    rw [List.length_append, hfive] at hin
    have hmod : before.length % 2 ^ 32 = before.length := Nat.mod_eq_of_lt (by omega)
    have hgroup : GroupAt alphabet inputString (before.length % 2 ^ 32) five := by
      rw [hinput, hmod]
      exact groupAt_full before hfive rest _
    rcases rfc4648DecodeRounds_group hpad hsize hfive.le (by omega) hgroup hdone rounds with
      ⟨hfull, output, hrun⟩ | ⟨hroom, hrun⟩
    · rw [hrun]
      apply Decodes.failure
      rw [List.length_append, List.length_append]
      omega
    · have hbefore : (before ++ (group five).map alphabet.char).length = before.length + 8 := by
        rw [List.length_append, List.length_map, length_group, hfive]
        rfl
      have hdone' : (done ++ five).length = done.length + 5 := by
        rw [List.length_append, hfive]
      have hinput' : inputString = before ++ (group five).map alphabet.char ++
          encode alphabet rest ++ List.replicate k rfc4648PaddingChar := by
        rw [hinput, encode_full alphabet hfive]
        simp only [List.append_assoc]
      rw [hrun, if_pos hfive, ← hbefore, ← List.append_assoc]
      apply ih hinput'
      · omega
      · omega
      · omega

end Rounds

/-! ## The decoder -/

section Decoder

variable (alphabet : Alphabet Char) {buffer : List Byte} {bufsize : BitVec 32}

/-- From 2^29 full quanta on, the decoder fails, whatever the room. -/
theorem rfc4648DecodeBase32Multi_long (hpad : rfc4648PaddingChar ∉ alphabet.chars)
    (hsize : buffer.length = bufsize.toNat) (k : Nat) {b : List Byte}
    (hb : 5 * 2 ^ 29 ≤ b.length) :
    ∃ output, rfc4648DecodeBase32Multi buffer bufsize
      (encode alphabet b ++ List.replicate k rfc4648PaddingChar) alphabet.chars =
        some (.ok (false, output)) := by
  have hchunks : ∀ place < 2 ^ 32, 8 ∣ place → ∃ syms cell,
      ChunkAt alphabet (encode alphabet b ++ List.replicate k rfc4648PaddingChar) place syms cell ∧
        syms.length = 8 := by
    rintro place hplace ⟨g, rfl⟩
    obtain ⟨five, hfive, hgroup⟩ := groupAt_encode alphabet
      (List.replicate k rfc4648PaddingChar) (by omega : 5 * (g + 1) ≤ b.length)
    obtain ⟨cell, hchunk, -⟩ := hgroup.chunkAt hpad hfive.le
    refine ⟨_, cell, hchunk, ?_⟩
    rw [length_group, hfive]
    rfl
  obtain ⟨log, output, hrun⟩ := rfc4648DecodeRoundsLogged_endless hpad hsize.ge hchunks
    (dvd_zero 8) [] (Nat.zero_le _) (Nat.lt_add_left _ (Nat.lt_succ_self _))
  refine ⟨output, ?_⟩
  unfold rfc4648DecodeBase32Multi
  rw [← stateAt_start, ← rfc4648DecodeRoundsLogged_result, hrun]
  rfl

theorem rfc4648DecodeBase32Multi_encode (hpad : rfc4648PaddingChar ∉ alphabet.chars)
    (hsize : buffer.length = bufsize.toNat) (k : Nat) (b : List Byte) :
    Decodes (rfc4648DecodeBase32Multi buffer bufsize
      (encode alphabet b ++ List.replicate k rfc4648PaddingChar) alphabet.chars) buffer b ↔
        b.length < 5 * 2 ^ 29 ∨ bufsize.toNat < b.length := by
  by_cases hb : b.length < 5 * 2 ^ 29
  · refine iff_of_true ?_ (.inl hb)
    unfold rfc4648DecodeBase32Multi
    rw [← stateAt_start]
    have hinput : encode alphabet b ++ List.replicate k rfc4648PaddingChar =
        [] ++ encode alphabet b ++ List.replicate k rfc4648PaddingChar := rfl
    have hdone : ([] : List Byte).length ≤ bufsize.toNat := Nat.zero_le _
    apply rfc4648DecodeRounds_encode hpad hsize k hinput
    · rw [List.length_nil]
      omega
    · exact hdone
    · exact Nat.lt_add_left _ (Nat.lt_succ_self _)
  · obtain ⟨output, hrun⟩ :=
      rfc4648DecodeBase32Multi_long alphabet hpad hsize k (Nat.not_lt.mp hb)
    rw [hrun]
    constructor
    · rintro ⟨ok, after, heq, hok, -⟩
      obtain ⟨rfl, -⟩ := Prod.mk.inj (Except.ok.inj (Option.some.inj heq))
      refine .inr (Nat.lt_of_not_le fun hle => ?_)
      exact absurd (hok.mpr (hle.trans hsize.ge)) Bool.false_ne_true
    · rintro (hlt | hlt)
      · exact absurd hlt hb
      · exact Decodes.failure (hsize.trans_lt hlt)

end Decoder

/-- Both decoders undo the encoding, with any number of padding characters, as far as the offset
into the input does not wrap around before the buffer is full. -/
theorem rfc4648Decode_encode_iff (buffer : List Byte) (bufsize : BitVec 32)
    (hsize : buffer.length = bufsize.toNat) (k : Nat) (b : List Byte) :
    (Decodes (rfc4648DecodeBase32 buffer bufsize
        (encode base32 b ++ List.replicate k rfc4648PaddingChar)) buffer b ↔
      b.length < 5 * 2 ^ 29 ∨ bufsize.toNat < b.length) ∧
    (Decodes (rfc4648DecodeBase32hex buffer bufsize
        (encode base32hex b ++ List.replicate k rfc4648PaddingChar)) buffer b ↔
      b.length < 5 * 2 ^ 29 ∨ bufsize.toNat < b.length) := by
  unfold rfc4648DecodeBase32 rfc4648DecodeBase32hex
  rw [base32Alphabet_eq, base32hexAlphabet_eq]
  constructor
  · exact rfc4648DecodeBase32Multi_encode base32 rfc4648PaddingChar_base32 hsize k b
  · exact rfc4648DecodeBase32Multi_encode base32hex rfc4648PaddingChar_base32hex hsize k b

theorem rfc4648Decode_encode_iff_fo :
    Decodes (rfc4648DecodeBase32 [0, 0, 7] 3 "MZXQ====".toList) [0, 0, 7] [0x66, 0x6f] ∧
      Decodes (rfc4648DecodeBase32hex [0, 0, 7] 3 "CPNG====".toList) [0, 0, 7] [0x66, 0x6f] := by
  have h := rfc4648Decode_encode_iff [0, 0, 7] 3 rfl 4 [0x66, 0x6f]
  have hbase32 : encode base32 [0x66, 0x6f] ++ List.replicate 4 rfc4648PaddingChar =
    "MZXQ====".toList := by decide
  have hbase32hex : encode base32hex [0x66, 0x6f] ++ List.replicate 4 rfc4648PaddingChar =
    "CPNG====".toList := by decide
  rw [hbase32, hbase32hex] at h
  exact ⟨h.1.mpr (.inl (by decide)), h.2.mpr (.inl (by decide))⟩

/-- A string of 2^29 quanta has room in a buffer of its size, but is never at its end. -/
theorem rfc4648DecodeBase32_wraps :
    ¬ Decodes (rfc4648DecodeBase32 (List.replicate (5 * 2 ^ 29) 0) (BitVec.ofNat 32 (5 * 2 ^ 29))
      (encode base32 (List.replicate (5 * 2 ^ 29) 0)))
      (List.replicate (5 * 2 ^ 29) 0) (List.replicate (5 * 2 ^ 29) 0) := by
  have hlen : ∀ m : Nat, (List.replicate m (0 : Byte)).length = m := fun m => List.length_replicate
  have hsize : (List.replicate (5 * 2 ^ 29) (0 : Byte)).length =
      (BitVec.ofNat 32 (5 * 2 ^ 29)).toNat := hlen _
  obtain ⟨output, hrun⟩ := rfc4648DecodeBase32Multi_long base32 rfc4648PaddingChar_base32
    hsize 0 (hlen (5 * 2 ^ 29)).ge
  rw [List.replicate_zero, List.append_nil] at hrun
  rintro ⟨ok, after, heq, hok, -⟩
  obtain rfl : ok = true := hok.mpr (Nat.le_refl _)
  unfold rfc4648DecodeBase32 at heq
  rw [base32Alphabet_eq, hrun] at heq
  injection heq with hok'
  injection hok' with hpair
  exact absurd (congrArg Prod.fst hpair) Bool.false_ne_true

end Umsftpd
