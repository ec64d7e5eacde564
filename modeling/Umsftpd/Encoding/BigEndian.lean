import Umsftpd.CLib.Ints

/-!
# Numbers as bytes and as text

Bytes and decimal digits stand for a number with the most significant one first. So many of them
hold the numbers below that power of the base.
-/

namespace Umsftpd.CLib

/-! ## Bytes -/

/-- The number that bytes stand for. -/
def ofBigEndian (bytes : List Byte) : Nat := Nat.ofDigits 256 (bytes.reverse.map BitVec.toNat)

theorem ofBigEndian_concat (bytes : List Byte) (b : Byte) :
    ofBigEndian (bytes ++ [b]) = b.toNat + 256 * ofBigEndian bytes := by
  unfold ofBigEndian
  rw [List.reverse_concat, List.map_cons, Nat.ofDigits_cons]

/-- The last `k` bytes of a number. -/
def bigEndian (k n : Nat) : List Byte :=
  ((List.range k).map fun i => BitVec.ofNat 8 (n / 256 ^ i)).reverse

theorem length_bigEndian (k n : Nat) : (bigEndian k n).length = k := by
  simp [bigEndian]

theorem ofBigEndian_bigEndian (k n : Nat) : ofBigEndian (bigEndian k n) = n % 256 ^ k := by
  unfold ofBigEndian bigEndian
  rw [List.reverse_reverse, List.map_map]
  induction k with
  | zero => simp [Nat.mod_one]
  | succ k ih =>
    rw [List.range_succ, List.map_append, Nat.ofDigits_append, ih, List.length_map,
      List.length_range, Nat.mod_pow_succ]
    simp

/-- What fits into the bytes is what they stand for. -/
theorem ofBigEndian_bigEndian_of_lt {k n : Nat} (h : n < 256 ^ k) :
    ofBigEndian (bigEndian k n) = n := by
  rw [ofBigEndian_bigEndian, Nat.mod_eq_of_lt h]

theorem byte_lt (bytes : List Byte) : ∀ d ∈ bytes.reverse.map BitVec.toNat, d < 256 := by
  intro d hd
  obtain ⟨b, -, rfl⟩ := List.mem_map.mp hd
  exact b.isLt

theorem ofBigEndian_lt (bytes : List Byte) : ofBigEndian bytes < 256 ^ bytes.length := by
  have hlt := Nat.ofDigits_lt_base_pow_length (by decide : 1 < 256) (byte_lt bytes)
  rwa [List.length_map, List.length_reverse] at hlt

/-- So many bytes that stand for the same number are the same. -/
theorem ofBigEndian_inj {bytes bytes' : List Byte} (hlen : bytes.length = bytes'.length)
    (h : ofBigEndian bytes = ofBigEndian bytes') : bytes = bytes' := by
  have hdigits : bytes.reverse.map BitVec.toNat = bytes'.reverse.map BitVec.toNat :=
    Nat.ofDigits_inj_of_len_eq (by decide) (by simp [hlen]) (byte_lt _) (byte_lt _) h
  exact List.reverse_injective
    (List.map_injective_iff.mpr (fun _ _ => BitVec.eq_of_toNat_eq) hdigits)

theorem bigEndian_ofBigEndian (bytes : List Byte) :
    bigEndian bytes.length (ofBigEndian bytes) = bytes :=
  ofBigEndian_inj (length_bigEndian _ _) (ofBigEndian_bigEndian_of_lt (ofBigEndian_lt bytes))

theorem toNat_append_byte {w : Nat} (x : BitVec w) (b : Byte) :
    (x ++ b).toNat = x.toNat * 256 + b.toNat := by
  rw [BitVec.toNat_append, ← Nat.shiftLeft_add_eq_or_of_lt b.isLt, Nat.shiftLeft_eq]

theorem bytesOf_eq (x : BitVec 64) : bytesOf x = (bigEndian 8 x.toNat).reverse := by
  have hbyte : ∀ i, x.extractLsb' (8 * i) 8 = BitVec.ofNat 8 (x.toNat / 256 ^ i) := by
    intro i
    show BitVec.ofNat 8 (x.toNat >>> (8 * i)) = _
    rw [Nat.shiftRight_eq_div_pow, Nat.pow_mul]
  unfold bigEndian
  rw [List.reverse_reverse]
  show [x.extractLsb' (8 * 0) 8, x.extractLsb' (8 * 1) 8, x.extractLsb' (8 * 2) 8,
    x.extractLsb' (8 * 3) 8, x.extractLsb' (8 * 4) 8, x.extractLsb' (8 * 5) 8,
    x.extractLsb' (8 * 6) 8, x.extractLsb' (8 * 7) 8] = _
  simp only [hbyte]
  rfl

theorem toNat_bswap64 (x : BitVec 64) : (bswap64 x).toNat = ofBigEndian (bytesOf x) := by
  have hjoin : ∀ a b c d e f g h : Byte, (a ++ b ++ c ++ d ++ e ++ f ++ g ++ h).toNat =
      ofBigEndian [a, b, c, d, e, f, g, h] := by
    intro a b c d e f g h
    simp only [toNat_append_byte]
    simp [ofBigEndian, Nat.ofDigits]
    ring
  exact hjoin _ _ _ _ _ _ _ _

theorem bytesOf_bswap64 (x : BitVec 64) : bytesOf (bswap64 x) = (bytesOf x).reverse := by
  rw [bytesOf_eq, toNat_bswap64]
  exact congrArg List.reverse (bigEndian_ofBigEndian (bytesOf x))

/-- Stored in network order, a word is its bytes with the most significant one first. -/
theorem ByteOrder.store_bswap64 (order : ByteOrder) (x : BitVec 64) :
    order.store (if order = .littleEndian then bswap64 x else x) =
      CLib.bigEndian 8 x.toNat := by
  cases order with
  | littleEndian =>
    show bytesOf (bswap64 x) = _
    rw [bytesOf_bswap64, bytesOf_eq, List.reverse_reverse]
  | bigEndian =>
    show (bytesOf x).reverse = _
    rw [bytesOf_eq, List.reverse_reverse]

/-- Four bytes as they are put together to a word. -/
theorem toNat_joined (a b c d : Byte) :
    ((a.setWidth 32 <<< 24) ||| (b.setWidth 32 <<< 16) ||| (c.setWidth 32 <<< 8) |||
      (d.setWidth 32 <<< 0) : BitVec 32).toNat = ofBigEndian [a, b, c, d] := by
  have happend : ((a.setWidth 32 <<< 24) ||| (b.setWidth 32 <<< 16) ||| (c.setWidth 32 <<< 8) |||
      (d.setWidth 32 <<< 0) : BitVec 32) = a ++ b ++ c ++ d := by
    ext i hi
    grind
  rw [happend]
  simp only [toNat_append_byte]
  simp [ofBigEndian, Nat.ofDigits]
  ring

/-! ## Decimal text -/

theorem isDigit_of_mem_zeroPadded {width n : Nat} {c : Char} (h : c ∈ zeroPadded width n) :
    c.isDigit = true := by
  unfold zeroPadded at h
  rw [if_neg (Int.not_lt.mpr (Int.natCast_nonneg n)), List.leftpad, List.mem_append] at h
  rcases h with h | h
  · obtain rfl := List.eq_of_mem_replicate h
    rfl
  · exact Nat.isDigit_of_mem_toDigits (by decide) (by decide) h

theorem ofDigitChars_zeroPadded (width n : Nat) :
    Nat.ofDigitChars 10 (zeroPadded width n) 0 = n := by
  unfold zeroPadded
  rw [if_neg (Int.not_lt.mpr (Int.natCast_nonneg n)), List.leftpad, Nat.ofDigitChars_append,
    Nat.ofDigitChars_replicate_zero, Nat.mul_zero]
  exact Nat.ofDigitChars_ten_toDigits

/-- So many decimal digits that stand for the same number are the same. -/
theorem ofDigitChars_inj {cs ds : CStr} (hlen : cs.length = ds.length)
    (hcs : ∀ c ∈ cs, c.isDigit = true) (hds : ∀ d ∈ ds, d.isDigit = true)
    (h : Nat.ofDigitChars 10 cs 0 = Nat.ofDigitChars 10 ds 0) : cs = ds := by
  induction cs using List.reverseRecOn generalizing ds with
  | nil => exact (List.eq_nil_of_length_eq_zero hlen.symm).symm
  | append_singleton cs c ih =>
    obtain ⟨ds, d, rfl⟩ := (List.eq_nil_or_concat' ds).resolve_left
      (List.ne_nil_of_length_pos (by rw [← hlen, List.length_append]; simp))
    rw [List.forall_mem_append, List.forall_mem_singleton] at hcs hds
    simp only [Nat.ofDigitChars_append, Nat.ofDigitChars_cons, Nat.ofDigitChars_nil] at h
    have hdigit : ∀ {c : Char}, c.isDigit = true →
        '0'.toNat ≤ c.toNat ∧ c.toNat < '0'.toNat + 10 := by
      intro c hc
      have hrange := Char.isDigit_iff_toNat.mp hc
      exact ⟨hrange.1, Nat.lt_succ_of_le hrange.2⟩
    have hc := hdigit hcs.2
    have hd := hdigit hds.2
    have hlast : c.toNat = d.toNat := by omega
    have hrest : Nat.ofDigitChars 10 cs 0 = Nat.ofDigitChars 10 ds 0 := by omega
    rw [ih (by simpa using hlen) hcs.1 hds.1 hrest, Char.toNat_inj.mp hlast]

theorem ofDigitChars_lt {cs : CStr} (h : ∀ c ∈ cs, c.isDigit = true) :
    Nat.ofDigitChars 10 cs 0 < 10 ^ cs.length := by
  induction cs using List.reverseRecOn with
  | nil => simp
  | append_singleton cs c ih =>
    rw [List.forall_mem_append, List.forall_mem_singleton] at h
    have hrest := ih h.1
    have hrange := Char.isDigit_iff_toNat.mp h.2
    have hnine : '9'.toNat = '0'.toNat + 9 := rfl
    simp only [Nat.ofDigitChars_append, Nat.ofDigitChars_cons, Nat.ofDigitChars_nil,
      List.length_append, List.length_singleton, Nat.pow_succ]
    omega

end Umsftpd.CLib
