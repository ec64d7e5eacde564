import Umsftpd.Encoding.Base32
import Umsftpd.Rfc4648.Accesses

/-!
# One round of the decoder

A round reads the characters of the alphabet that are at its place, eight at most (`ChunkAt`), and
the one that ends them. It stores the bytes that are complete (`chunkBytes`) as far as there is
room, and it is followed by another round only when the chunk is full.
-/

namespace Umsftpd

open CLib Base32
open Systems (Logged)

/-! ## Characters -/

/-- The array of the characters of a group: the symbols, and -1 where there is none. -/
def mappedOf (syms : List Symbol) : List (BitVec 32) :=
  syms.map (·.setWidth 32) ++ List.replicate (8 - syms.length) (-1)

/-- The character `j` of a group. -/
def charOf (syms : List Symbol) (j : Nat) : BitVec 32 := (syms[j]?).elim (-1) (·.setWidth 32)

theorem getD_mappedOf (syms : List Symbol) (j : Nat) :
    (mappedOf syms).getD j (-1) = charOf syms j := by
  unfold mappedOf charOf
  by_cases hj : j < syms.length
  · rw [List.getElem?_eq_getElem hj, List.getD_append _ _ _ _ (by simpa using hj)]
    simp [hj]
  · rw [List.getElem?_eq_none (Nat.not_lt.mp hj),
      List.getD_append_right _ _ _ _ (by simpa using hj)]
    by_cases hj' : j - syms.length < 8 - syms.length <;> simp [hj']

/-- A symbol is not the mark of a missing one. -/
theorem charOf_ne_iff (syms : List Symbol) (j : Nat) : charOf syms j ≠ -1 ↔ j < syms.length := by
  unfold charOf
  by_cases hj : j < syms.length
  · refine iff_of_true ?_ hj
    rw [List.getElem?_eq_getElem hj, Option.elim_some]
    intro h
    have hbit := congrArg (fun x => x.getLsbD 31) h
    simp at hbit
  · rw [List.getElem?_eq_none (Nat.not_lt.mp hj)]
    exact iff_of_false (by simp) hj

theorem set_mappedOf {syms : List Symbol} (h : syms.length < 8) (s : Symbol) :
    (mappedOf syms).set syms.length (s.setWidth 32) = mappedOf (syms ++ [s]) := by
  unfold mappedOf
  obtain ⟨k, hk⟩ : ∃ k, 8 - syms.length = k + 1 := ⟨7 - syms.length, by omega⟩
  have hk' : 8 - (syms ++ [s]).length = k := by simp; omega
  rw [hk, hk', List.set_append_right _ _ (by simp)]
  simp [List.replicate_succ]

/-! ## Chunks -/

/-- At this place of the input there are these symbols, and after them, if they are less than
eight, `cell`: the end of the string, or a character that stands for no symbol. -/
structure ChunkAt (alphabet : Alphabet Char) (inputString : CStr) (place : Nat)
    (syms : List Symbol) (cell : Option Char) : Prop where
  length_le : syms.length ≤ 8
  symbol : ∀ j (h : j < syms.length),
    (toBuffer inputString)[place + j]? = some (some (alphabet.char syms[j]))
  ends : syms.length < 8 → (toBuffer inputString)[place + syms.length]? = some cell ∧
    ∀ c, cell = some c → c ∉ alphabet.chars

/-- The end of the string for the decoder: its terminator or padding. -/
def Stops (cell : Option Char) : Prop := cell = none ∨ cell = some rfc4648PaddingChar

instance (cell : Option Char) : Decidable (Stops cell) := inferInstanceAs (Decidable (_ ∨ _))

section Chunk

variable {alphabet : Alphabet Char} {inputString : CStr} {place : Nat} {syms : List Symbol}
  {cell : Option Char}

/-- The symbols are in the string. -/
theorem ChunkAt.le_length (h : ChunkAt alphabet inputString place syms cell)
    (hplace : place ≤ inputString.length) : place + syms.length ≤ inputString.length := by
  cases hlen : syms.length with
  | zero => exact hplace
  | succ n =>
    have hsymbol := h.symbol n (by omega)
    rw [getElem?_toBuffer] at hsymbol
    split_ifs at hsymbol with hlt hend
    · omega
    · exact absurd (Option.some.inj hsymbol) (by simp)

theorem getElem?_toBuffer_append (before rest : CStr) (i : Nat) :
    (toBuffer (before ++ rest))[before.length + i]? = (toBuffer rest)[i]? := by
  unfold toBuffer
  rw [List.map_append, List.append_assoc, List.getElem?_append_right (by simp)]
  simp

/-- After the first part of a string there is a chunk of the symbols that come next. -/
theorem chunkAt_append (before : CStr) (syms : List Symbol) (rest : CStr)
    (hrest : syms.length < 8 → ∀ c, rest.head? = some c → c ∉ alphabet.chars) :
    ChunkAt alphabet (before ++ syms.map alphabet.char ++ rest) before.length (syms.take 8)
      rest.head? where
  length_le := List.length_take_le 8 syms
  symbol j hj := by
    have hj' : j < syms.length := hj.trans_le (List.length_take_le' 8 syms)
    rw [List.append_assoc, getElem?_toBuffer_append, getElem?_toBuffer, if_pos (by simp; omega),
      List.getElem?_append_left (by simpa using hj'), List.getElem?_map,
      List.getElem?_eq_getElem hj']
    simp
  ends hfew := by
    have hlen : syms.length < 8 := by
      rw [List.length_take] at hfew
      omega
    have hall : syms.take 8 = syms := List.take_of_length_le hlen.le
    have hend := getElem?_toBuffer_append (syms.map alphabet.char) rest 0
    rw [List.length_map, Nat.add_zero] at hend
    refine ⟨?_, hrest hlen⟩
    rw [hall, List.append_assoc, getElem?_toBuffer_append, hend]
    cases rest <;> rfl

/-- There is a chunk at every place. -/
theorem exists_chunkAt (alphabet : Alphabet Char) {inputString : CStr} {place : Nat}
    (hplace : place ≤ inputString.length) :
    ∃ syms cell, ChunkAt alphabet inputString place syms cell := by
  obtain ⟨syms, rest, hsplit, hrest⟩ := alphabet.exists_symbols (inputString.drop place)
  have hchunk := chunkAt_append (inputString.take place) syms rest fun _ => hrest
  rw [List.append_assoc, ← hsplit, List.take_append_drop, List.length_take_of_le hplace] at hchunk
  exact ⟨_, _, hchunk⟩

/-- The characters of a chunk are read, and the one that ends it. -/
theorem ChunkAt.mapChars (h : ChunkAt alphabet inputString place syms cell)
    (hpad : rfc4648PaddingChar ∉ alphabet.chars) {srcOffset : BitVec 32}
    (hplace : srcOffset.toNat = place) (hin : place + 8 ≤ 2 ^ 32) {remaining i : Nat}
    (hi : i ≤ syms.length) (hsum : i + remaining = 8) :
    rfc4648MapCharsLogged inputString alphabet.chars srcOffset remaining i
        (mappedOf (syms.take i)) =
      ⟨(List.range' (place + i) (min 8 (syms.length + 1) - i)).map Rfc4648Access.read,
        .ok (if syms.length = 8 ∨ Stops cell then some (mappedOf syms) else none)⟩ := by
  have hlen := h.length_le
  induction remaining generalizing i with
  | zero =>
    obtain rfl : i = 8 := hsum
    have hfull : syms.length = 8 := Nat.le_antisymm hlen hi
    rw [List.take_of_length_le hfull.le, if_pos (.inl hfull), hfull]
    rfl
  | succ remaining ih =>
    have hindex : (srcOffset + BitVec.ofNat 32 i).toNat = place + i := by
      rw [BitVec.toNat_add, BitVec.toNat_ofNat, hplace]
      omega
    rw [rfc4648MapCharsLogged, hindex]
    by_cases hmore : i < syms.length
    · have hne : alphabet.char syms[i] ≠ rfc4648PaddingChar :=
        fun heq => hpad (heq ▸ alphabet.char_mem _)
      have htake : (syms.take i).length = i := List.length_take_of_le hi
      have hset := set_mappedOf (htake.trans_lt (hmore.trans_le hlen)) syms[i]
      rw [htake, List.take_append_getElem hmore] at hset
      have hwidth : BitVec.ofNat 32 syms[i].toNat = syms[i].setWidth 32 := by simp
      have hcount : min 8 (syms.length + 1) - i = min 8 (syms.length + 1) - (i + 1) + 1 := by omega
      have hnext := ih (i := i + 1) (by omega) (by omega)
      rw [← hset] at hnext
      rw [readAt_getElem? (h.symbol i hmore), Logged.step, Logged.ok_bind]
      dsimp only
      rw [if_neg hne, alphabet.idxOf?_char]
      dsimp only
      rw [hwidth, hnext, hcount, List.range'_succ, List.map_cons, Nat.add_assoc]
      rfl
    · obtain rfl : i = syms.length := Nat.le_antisymm hi (Nat.not_lt.mp hmore)
      obtain ⟨hcell, hforeign⟩ := h.ends (by omega)
      have hcount : min 8 (syms.length + 1) - syms.length = 1 := by omega
      rw [readAt_getElem? hcell, hcount, List.take_length, Logged.step, Logged.ok_bind]
      cases cell with
      | none =>
        rw [if_pos (.inr (.inl rfl))]
        rfl
      | some c =>
        dsimp only
        by_cases hc : c = rfc4648PaddingChar
        · rw [if_pos hc, if_pos (.inr (.inr (congrArg some hc)))]
          rfl
        · have hgo : ¬(syms.length = 8 ∨ Stops (some c)) := by
            rintro (hfull | hend | hend)
            · omega
            · exact absurd hend (by simp)
            · exact hc (Option.some.inj hend)
          rw [if_neg hc, if_neg hgo, List.idxOf?_eq_none_iff.mpr (hforeign c rfl)]
          rfl

end Chunk

/-! ## Bytes -/

/-- The number of octets that `m` symbols hold. -/
def octetCount (m : Nat) : Nat := 5 * m / 8

/-- A byte is complete when the symbols are there that its bits are in. -/
theorem rfc4648Byte_isSome (syms : List Symbol) {i : Nat} (hi : i < 5) :
    (rfc4648Byte (mappedOf syms) i).isSome = true ↔ symbolCount (i + 1) ≤ syms.length := by
  have hchar : ∀ j, (mappedOf syms).getD j (-1) = charOf syms j := getD_mappedOf syms
  unfold rfc4648Byte
  simp only [hchar, charOf_ne_iff]
  by_cases hcount : symbolCount (i + 1) ≤ syms.length
  · refine iff_of_true ?_ hcount
    unfold symbolCount at hcount
    interval_cases i
    · rw [if_pos (by omega), Option.isSome_some]
    · rw [if_neg (by omega), if_pos (by omega), Option.isSome_some]
    · rw [if_neg (by omega), if_neg (by omega), if_pos (by omega), Option.isSome_some]
    · rw [if_neg (by omega), if_neg (by omega), if_neg (by omega), if_pos (by omega),
        Option.isSome_some]
    · rw [if_neg (by omega), if_neg (by omega), if_neg (by omega), if_neg (by omega),
        if_pos (by omega), Option.isSome_some]
  · refine iff_of_false ?_ hcount
    unfold symbolCount at hcount
    rw [if_neg (by omega), if_neg (by omega), if_neg (by omega), if_neg (by omega),
      if_neg (by omega)]
    exact Bool.false_ne_true

/-- The bytes of a chunk. -/
def chunkBytes (syms : List Symbol) : List Byte :=
  (List.range (octetCount syms.length)).map fun i => (rfc4648Byte (mappedOf syms) i).getD 0

@[simp] theorem length_chunkBytes (syms : List Symbol) :
    (chunkBytes syms).length = octetCount syms.length := by
  simp [chunkBytes]

/-- From `i` on, these bytes can be put together, and no more. -/
structure BytesFrom (mappedChars : List (BitVec 32)) (i remaining : Nat) (bs : List Byte) :
    Prop where
  length_le : bs.length ≤ remaining
  byte : ∀ j < remaining, rfc4648Byte mappedChars (i + j) = bs[j]?

theorem bytesFrom_chunkBytes {syms : List Symbol} (hlen : syms.length ≤ 8) :
    BytesFrom (mappedOf syms) 0 5 (chunkBytes syms) where
  length_le := by
    rw [length_chunkBytes]
    unfold octetCount
    omega
  byte j hj := by
    have hsome := rfc4648Byte_isSome syms hj
    rw [Nat.zero_add]
    by_cases hlt : j < octetCount syms.length
    · obtain ⟨b, hb⟩ := Option.isSome_iff_exists.mp (hsome.mpr (by
        unfold octetCount at hlt
        unfold symbolCount
        omega))
      simp [chunkBytes, hlt, hb]
    · have hnone : rfc4648Byte (mappedOf syms) j = none := by
        rw [← Option.not_isSome_iff_eq_none, hsome]
        unfold octetCount at hlt
        unfold symbolCount
        omega
      rw [hnone, List.getElem?_eq_none (by simpa using hlt)]

theorem BytesFrom.cons {mappedChars : List (BitVec 32)} {i remaining : Nat} {b : Byte}
    {bs : List Byte} (h : BytesFrom mappedChars i remaining (b :: bs)) :
    ∃ rest, remaining = rest + 1 ∧ rfc4648Byte mappedChars i = some b ∧
      BytesFrom mappedChars (i + 1) rest bs := by
  have hlen := h.length_le
  rw [List.length_cons] at hlen
  obtain ⟨rest, rfl⟩ : ∃ rest, remaining = rest + 1 := ⟨remaining - 1, by omega⟩
  refine ⟨rest, rfl, h.byte 0 (Nat.succ_pos _), Nat.le_of_succ_le_succ hlen, fun j hj => ?_⟩
  have hbyte := h.byte (j + 1) (Nat.succ_lt_succ hj)
  rw [List.getElem?_cons_succ] at hbyte
  rw [← hbyte, Nat.add_assoc, Nat.add_comm 1 j]

/-! ## The buffer -/

/-- The buffer when the bytes `done` have been stored. -/
def filled (done buffer : List Byte) : List Byte := done ++ buffer.drop done.length

theorem length_filled {done buffer : List Byte} (h : done.length ≤ buffer.length) :
    (filled done buffer).length = buffer.length := by
  unfold filled
  rw [List.length_append, List.length_drop]
  omega

/-- One more byte. -/
theorem set_filled {done buffer : List Byte} (h : done.length < buffer.length) (x : Byte) :
    (filled done buffer).set done.length x = filled (done ++ [x]) buffer := by
  have hdrop := List.drop_eq_getElem_cons h
  unfold filled
  rw [List.set_append_right _ _ (Nat.le_refl _), Nat.sub_self, hdrop, List.set_cons_zero]
  simp

/-- The state when these bytes are stored and the input is read up to here. -/
def stateAt (buffer done : List Byte) (position : Nat) : Rfc4648State :=
  ⟨filled done buffer, BitVec.ofNat 32 position, BitVec.ofNat 32 done.length⟩

theorem stateAt_start (buffer : List Byte) : stateAt buffer [] 0 = ⟨buffer, 0, 0⟩ := rfl

section StoreBytes

variable {buffer : List Byte} {bufsize : BitVec 32} {mappedChars : List (BitVec 32)}

/-- One byte, if there is room. -/
theorem rfc4648StoreBytesLogged_cons (hsize : bufsize.toNat ≤ buffer.length) {i : Nat} {b : Byte}
    (hbyte : rfc4648Byte mappedChars i = some b) {done : List Byte}
    (hdone : done.length ≤ bufsize.toNat) (remaining position : Nat) :
    rfc4648StoreBytesLogged bufsize mappedChars (remaining + 1) i (stateAt buffer done position) =
      if done.length = bufsize.toNat then ⟨[], .ok (.returned false (filled done buffer))⟩
      else Logged.step (.write done.length) (.ok ()) >>= fun _ =>
        rfc4648StoreBytesLogged bufsize mappedChars remaining (i + 1)
          (stateAt buffer (done ++ [b]) position) := by
  have hoffset : (BitVec.ofNat 32 done.length).toNat = done.length :=
    Nat.mod_eq_of_lt (hdone.trans_lt bufsize.isLt)
  rw [rfc4648StoreBytesLogged, hbyte]
  unfold stateAt
  dsimp only
  by_cases hroom : done.length = bufsize.toNat
  · have hfull : BitVec.ofNat 32 done.length ≥ bufsize := by
      rw [ge_iff_le, BitVec.le_def, hoffset]
      exact hroom.ge
    rw [if_pos hroom, if_pos hfull]
    rfl
  · have hlt : done.length < buffer.length := by omega
    have hfree : ¬ BitVec.ofNat 32 done.length ≥ bufsize := by
      rw [ge_iff_le, BitVec.le_def, hoffset]
      omega
    rw [if_neg hroom, if_neg hfree, hoffset, writeAt_ok (by rwa [length_filled hlt.le]),
      set_filled hlt, List.length_append, List.length_singleton, BitVec.ofNat_add]
    rfl

/-- The bytes of a group are stored one after the other, as far as there is room. -/
theorem rfc4648StoreBytesLogged_eq (hsize : bufsize.toNat ≤ buffer.length) {bs : List Byte}
    {remaining i : Nat} (hbytes : BytesFrom mappedChars i remaining bs) {done : List Byte}
    (hdone : done.length ≤ bufsize.toNat) (position : Nat) :
    rfc4648StoreBytesLogged bufsize mappedChars remaining i (stateAt buffer done position) =
      ⟨(List.range' done.length (min bs.length (bufsize.toNat - done.length))).map
          Rfc4648Access.write,
        .ok (if bufsize.toNat < done.length + bs.length then
            .returned false (filled (done ++ bs.take (bufsize.toNat - done.length)) buffer)
          else if bs.length = remaining then .next (stateAt buffer (done ++ bs) (position + 8))
          else .returned true (filled (done ++ bs) buffer))⟩ := by
  induction bs generalizing remaining i done with
  | nil =>
    rw [List.length_nil, Nat.zero_min, if_neg (by omega), List.append_nil]
    cases remaining with
    | zero =>
      unfold stateAt
      rw [BitVec.ofNat_add]
      rfl
    | succ remaining =>
      have hnone := hbytes.byte 0 (Nat.succ_pos _)
      rw [Nat.add_zero] at hnone
      rw [rfc4648StoreBytesLogged, hnone, if_neg (by simp)]
      rfl
  | cons b bs ih =>
    obtain ⟨rest, rfl, hbyte, hrest⟩ := hbytes.cons
    rw [rfc4648StoreBytesLogged_cons hsize hbyte hdone]
    by_cases hfull : done.length = bufsize.toNat
    · rw [if_pos hfull, if_pos (by simp; omega), hfull, Nat.sub_self]
      simp
    · have hmore : (done ++ [b]).length = done.length + 1 := by simp
      have hcount : min (b :: bs).length (bufsize.toNat - done.length) =
          min bs.length (bufsize.toNat - (done.length + 1)) + 1 := by
        rw [List.length_cons]
        omega
      have htake : bufsize.toNat - done.length = bufsize.toNat - (done.length + 1) + 1 := by omega
      rw [if_neg hfull, Logged.step, Logged.ok_bind, ih hrest (by omega), hmore, hcount, htake]
      simp only [List.range'_succ, List.map_cons, List.singleton_append, List.length_cons,
        List.take_succ_cons, List.append_assoc, Nat.add_right_cancel_iff, Nat.add_assoc,
        Nat.add_comm 1]

end StoreBytes

/-! ## Rounds -/

/-- What a round reads where there are `m` symbols: these, and what ends them. -/
def readsAt (place m : Nat) : List Rfc4648Access :=
  (List.range' place (min 8 (m + 1))).map Rfc4648Access.read

/-- What a round writes from `start` on when it has `n` bytes and the buffer has `bufsize`. -/
def storesAt (bufsize start n : Nat) : List Rfc4648Access :=
  (List.range' start (min n (bufsize - start))).map Rfc4648Access.write

section Rounds

variable {alphabet : Alphabet Char} {inputString : CStr} {buffer : List Byte}
  {bufsize : BitVec 32} {syms : List Symbol} {cell : Option Char}

theorem octetCount_eq_five_iff {m : Nat} (h : m ≤ 8) : octetCount m = 5 ↔ m = 8 := by
  unfold octetCount
  omega

/-- A round where there is a chunk. -/
theorem rfc4648DecodeRoundLogged_eq (hpad : rfc4648PaddingChar ∉ alphabet.chars)
    (hsize : bufsize.toNat ≤ buffer.length) {position : Nat}
    (hin : position % 2 ^ 32 + 8 ≤ 2 ^ 32)
    (hchunk : ChunkAt alphabet inputString (position % 2 ^ 32) syms cell) {done : List Byte}
    (hdone : done.length ≤ bufsize.toNat) :
    rfc4648DecodeRoundLogged bufsize inputString alphabet.chars (stateAt buffer done position) =
      if syms.length = 8 ∨ Stops cell then
        ⟨readsAt (position % 2 ^ 32) syms.length ++
            storesAt bufsize.toNat done.length (octetCount syms.length),
          .ok (if bufsize.toNat < done.length + octetCount syms.length then
              .returned false
                (filled (done ++ (chunkBytes syms).take (bufsize.toNat - done.length)) buffer)
            else if syms.length = 8 then
              .next (stateAt buffer (done ++ chunkBytes syms) (position + 8))
            else .returned true (filled (done ++ chunkBytes syms) buffer))⟩
      else ⟨readsAt (position % 2 ^ 32) syms.length,
        .ok (.returned false (filled done buffer))⟩ := by
  have hchars := hchunk.mapChars hpad (BitVec.toNat_ofNat position 32) hin (Nat.zero_le _)
    (Nat.zero_add 8)
  have hbytes := bytesFrom_chunkBytes hchunk.length_le
  have hstore := rfc4648StoreBytesLogged_eq hsize hbytes hdone position
  rw [length_chunkBytes] at hstore
  simp only [octetCount_eq_five_iff hchunk.length_le] at hstore
  unfold rfc4648DecodeRoundLogged
  rw [show (stateAt buffer done position).srcOffset = BitVec.ofNat 32 position from rfl]
  rw [List.take_zero, Nat.sub_zero, Nat.add_zero] at hchars
  rw [show List.replicate 8 (-1) = mappedOf [] from rfl, hchars, Logged.ok_bind]
  by_cases hgo : syms.length = 8 ∨ Stops cell
  · rw [if_pos hgo, if_pos hgo]
    dsimp only
    rw [hstore]
    rfl
  · rw [if_neg hgo, if_neg hgo]
    dsimp only
    rw [Logged.result_pure, Logged.log_pure, List.append_nil]
    rfl

/-- What the rounds come to from a chunk on: a character is foreign, the buffer is full, the chunk
is the last one, or it is full and the rounds go on. -/
theorem rfc4648DecodeRoundsLogged_cases (hpad : rfc4648PaddingChar ∉ alphabet.chars)
    (hsize : bufsize.toNat ≤ buffer.length) {position : Nat}
    (hin : position % 2 ^ 32 + 8 ≤ 2 ^ 32)
    (hchunk : ChunkAt alphabet inputString (position % 2 ^ 32) syms cell) {done : List Byte}
    (hdone : done.length ≤ bufsize.toNat) (rounds : Nat) {run : Option _}
    (hrun : rfc4648DecodeRoundsLogged bufsize inputString alphabet.chars (rounds + 1)
      (stateAt buffer done position) = run) :
    (syms.length < 8 ∧ ¬ Stops cell ∧
      run = some ⟨readsAt (position % 2 ^ 32) syms.length, .ok (false, filled done buffer)⟩) ∨
    ((syms.length = 8 ∨ Stops cell) ∧
      bufsize.toNat < done.length + octetCount syms.length ∧ ∃ output,
        run = some ⟨readsAt (position % 2 ^ 32) syms.length ++
          storesAt bufsize.toNat done.length (octetCount syms.length), .ok (false, output)⟩) ∨
    (syms.length < 8 ∧ Stops cell ∧ done.length + octetCount syms.length ≤ bufsize.toNat ∧
      run = some ⟨readsAt (position % 2 ^ 32) syms.length ++
        storesAt bufsize.toNat done.length (octetCount syms.length),
          .ok (true, filled (done ++ chunkBytes syms) buffer)⟩) ∨
    (syms.length = 8 ∧ done.length + 5 ≤ bufsize.toNat ∧
      run = (rfc4648DecodeRoundsLogged bufsize inputString alphabet.chars rounds
        (stateAt buffer (done ++ chunkBytes syms) (position + 8))).map fun more =>
          ⟨readsAt (position % 2 ^ 32) 8 ++ storesAt bufsize.toNat done.length 5 ++ more.log,
            more.result⟩) := by
  have hlen := hchunk.length_le
  rw [rfc4648DecodeRoundsLogged, rfc4648DecodeRoundLogged_eq hpad hsize hin hchunk hdone] at hrun
  by_cases hgo : syms.length = 8 ∨ Stops cell
  · rw [if_pos hgo] at hrun
    by_cases hroom : bufsize.toNat < done.length + octetCount syms.length
    · rw [if_pos hroom] at hrun
      exact .inr (.inl ⟨hgo, hroom, _, hrun.symm⟩)
    · rw [if_neg hroom] at hrun
      by_cases hfull : syms.length = 8
      · rw [if_pos hfull, hfull] at hrun
        rw [hfull] at hroom
        refine .inr (.inr (.inr ⟨hfull, Nat.le_of_not_lt hroom, hrun.symm⟩))
      · rw [if_neg hfull] at hrun
        exact .inr (.inr (.inl ⟨by omega, hgo.resolve_left hfull, by omega, hrun.symm⟩))
  · rw [if_neg hgo] at hrun
    obtain ⟨hfew, hforeign⟩ := not_or.mp hgo
    exact .inl ⟨by omega, hforeign, hrun.symm⟩

/-- Where there is always another full chunk, the buffer is full in the end. -/
theorem rfc4648DecodeRoundsLogged_endless (hpad : rfc4648PaddingChar ∉ alphabet.chars)
    (hsize : bufsize.toNat ≤ buffer.length)
    (hchunks : ∀ place < 2 ^ 32, 8 ∣ place → ∃ syms cell,
      ChunkAt alphabet inputString place syms cell ∧ syms.length = 8)
    {position : Nat} (hposition : 8 ∣ position) (done : List Byte)
    (hdone : done.length ≤ bufsize.toNat) {rounds : Nat}
    (hrounds : bufsize.toNat < done.length + rounds) :
    ∃ log output, rfc4648DecodeRoundsLogged bufsize inputString alphabet.chars rounds
      (stateAt buffer done position) = some ⟨log, .ok (false, output)⟩ := by
  induction rounds generalizing position done with
  | zero => omega
  | succ rounds ih =>
    have hplace : 8 ∣ position % 2 ^ 32 := (Nat.dvd_mod_iff (by norm_num)).mpr hposition
    obtain ⟨syms, cell, hchunk, hfull⟩ := hchunks _ (Nat.mod_lt _ (by norm_num)) hplace
    rcases rfc4648DecodeRoundsLogged_cases hpad hsize (by omega) hchunk hdone rounds rfl with
      ⟨hfew, -, -⟩ | ⟨-, -, output, hrun⟩ | ⟨hfew, -, -, -⟩ | ⟨-, hroom, hrun⟩
    · exact absurd hfull hfew.ne
    · exact ⟨_, output, hrun⟩
    · exact absurd hfull hfew.ne
    · have hbytes : (done ++ chunkBytes syms).length = done.length + 5 := by
        rw [List.length_append, length_chunkBytes, hfull]
        rfl
      obtain ⟨log, output, hmore⟩ := ih (Nat.dvd_add hposition (Nat.dvd_refl 8))
        (done ++ chunkBytes syms) (by rwa [hbytes]) (by rw [hbytes]; omega)
      rw [hmore] at hrun
      exact ⟨_, output, hrun⟩

end Rounds

end Umsftpd
