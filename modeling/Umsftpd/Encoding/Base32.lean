import Mathlib

/-!
# Base 32

The encoding of RFC 4648. Five octets are a quantum of 40 bits, read off five bits at a time; a
shorter last quantum is filled with zero bits, and of its symbols those are kept that have bits of
an octet in them.
-/

namespace Umsftpd.Base32

abbrev Octet := BitVec 8
abbrev Symbol := BitVec 5

/-! ## One quantum -/

/-- Five octets as 40 bits, the first one on top. -/
def concat5 (b0 b1 b2 b3 b4 : Octet) : BitVec (8 + 8 + 8 + 8 + 8) := b0 ++ b1 ++ b2 ++ b3 ++ b4

theorem getLsbD_concat5 (b0 b1 b2 b3 b4 : Octet) (j : Nat) :
    (concat5 b0 b1 b2 b3 b4).getLsbD j =
      if j < 8 then b4.getLsbD j
      else if j < 16 then b3.getLsbD (j - 8)
      else if j < 24 then b2.getLsbD (j - 16)
      else if j < 32 then b1.getLsbD (j - 24)
      else b0.getLsbD (j - 32) := by
  unfold concat5
  simp only [BitVec.getLsbD_append]
  grind

/-- At most five octets, filled with zero bits. -/
def quantum (bs : List Octet) : BitVec 40 :=
  concat5 (bs.getD 0 0) (bs.getD 1 0) (bs.getD 2 0) (bs.getD 3 0) (bs.getD 4 0)

def symbol (q : BitVec 40) (i : Nat) : Symbol := q.extractLsb' (35 - 5 * i) 5

def octet (q : BitVec 40) (i : Nat) : Octet := q.extractLsb' (32 - 8 * i) 8

/-- The number of symbols that `n` octets have bits in. -/
def symbolCount (n : Nat) : Nat := (8 * n + 4) / 5

/-- The symbols of at most five octets. -/
def group (bs : List Octet) : List Symbol :=
  (List.range (symbolCount bs.length)).map (symbol (quantum bs))

/-- The octets are in the quantum. -/
theorem octet_quantum (bs : List Octet) {i : Nat} (hi : i < 5) :
    octet (quantum bs) i = bs.getD i 0 := by
  unfold octet quantum
  ext j hj
  rw [BitVec.getElem_extractLsb', getLsbD_concat5]
  interval_cases i <;> grind

@[simp] theorem length_group (bs : List Octet) : (group bs).length = symbolCount bs.length := by
  simp [group]

/-- A full quantum has eight symbols. -/
theorem symbolCount_le {n : Nat} (h : n ≤ 5) : symbolCount n ≤ 8 := by
  unfold symbolCount
  omega

/-! ## Strings of octets -/

/-- The symbols of a string, quantum by quantum. -/
def symbols : List Octet → List Symbol
  | b0 :: b1 :: b2 :: b3 :: b4 :: rest => group [b0, b1, b2, b3, b4] ++ symbols rest
  | bs => group bs

/-- A string is a last quantum that is not full, or a full one and a string. -/
theorem octets_induction {P : List Octet → Prop} (short : ∀ bs, bs.length < 5 → P bs)
    (full : ∀ five rest, five.length = 5 → P rest → P (five ++ rest)) (bs : List Octet) : P bs := by
  fun_induction symbols bs with
  | case1 b0 b1 b2 b3 b4 rest ih => exact full [b0, b1, b2, b3, b4] rest rfl ih
  | case2 bs hshort =>
    apply short
    by_contra hlen
    match bs with
    | b0 :: b1 :: b2 :: b3 :: b4 :: rest => exact hshort b0 b1 b2 b3 b4 rest rfl
    | [] | [_] | [_, _] | [_, _, _] | [_, _, _, _] => exact hlen (by simp)

theorem symbols_short {bs : List Octet} (h : bs.length < 5) : symbols bs = group bs := by
  match bs, h with
  | [], _ => rfl
  | [_], _ => rfl
  | [_, _], _ => rfl
  | [_, _, _], _ => rfl
  | [_, _, _, _], _ => rfl

theorem symbols_full {five : List Octet} (h : five.length = 5) (rest : List Octet) :
    symbols (five ++ rest) = group five ++ symbols rest := by
  match five, h with
  | [_, _, _, _, _], _ => rfl

/-- Full quanta are encoded on their own. -/
theorem symbols_append {bs : List Octet} (h : 5 ∣ bs.length) (rest : List Octet) :
    symbols (bs ++ rest) = symbols bs ++ symbols rest := by
  induction bs using octets_induction with
  | short bs hlen =>
    obtain rfl : bs = [] := List.eq_nil_of_length_eq_zero (Nat.eq_zero_of_dvd_of_lt h hlen)
    rfl
  | full five more hfive ih =>
    rw [List.length_append, hfive] at h
    rw [List.append_assoc, symbols_full hfive, symbols_full hfive,
      ih ((Nat.dvd_add_right (dvd_refl 5)).mp h), List.append_assoc]

@[simp] theorem length_symbols (bs : List Octet) :
    (symbols bs).length = symbolCount bs.length := by
  induction bs using octets_induction with
  | short bs hlen => rw [symbols_short hlen, length_group]
  | full five rest hfive ih =>
    rw [symbols_full hfive, List.length_append, length_group, ih, List.length_append, hfive]
    unfold symbolCount
    omega

/-! ## Characters -/

/-- What the symbols are written with: 32 different characters. -/
structure Alphabet (α : Type*) where
  chars : List α
  length_eq : chars.length = 32
  nodup : chars.Nodup

section Alphabet

variable {α : Type*} (alphabet : Alphabet α)

def Alphabet.char (s : Symbol) : α :=
  alphabet.chars.get ⟨s.toNat, by rw [alphabet.length_eq]; exact s.isLt⟩

theorem Alphabet.char_mem (s : Symbol) : alphabet.char s ∈ alphabet.chars := List.get_mem _ _

/-- A symbol is the place of its character. -/
theorem Alphabet.idxOf?_char [DecidableEq α] (s : Symbol) :
    alphabet.chars.idxOf? (alphabet.char s) = some s.toNat := by
  rw [List.idxOf?_eq_some_iff]
  refine ⟨by rw [alphabet.length_eq]; exact s.isLt, rfl, fun j hj heq => ?_⟩
  have hsame := (List.Nodup.getElem_inj_iff alphabet.nodup).mp heq
  exact absurd hsame (Nat.ne_of_lt hj)

theorem Alphabet.exists_char {c : α} (h : c ∈ alphabet.chars) : ∃ s, alphabet.char s = c := by
  obtain ⟨i, hi, rfl⟩ := List.getElem_of_mem h
  rw [alphabet.length_eq] at hi
  refine ⟨BitVec.ofNat 5 i, ?_⟩
  unfold Alphabet.char
  simp only [BitVec.toNat_ofNat, Nat.mod_eq_of_lt hi]
  rfl

/-- A string starts with symbols, as many as there are. -/
theorem Alphabet.exists_symbols (l : List α) :
    ∃ syms rest, l = List.map alphabet.char syms ++ rest ∧
      ∀ c, rest.head? = some c → c ∉ alphabet.chars := by
  induction l with
  | nil => exact ⟨[], [], rfl, by simp⟩
  | cons c l ih =>
    by_cases hc : c ∈ alphabet.chars
    · obtain ⟨syms, rest, rfl, hrest⟩ := ih
      obtain ⟨s, rfl⟩ := alphabet.exists_char hc
      exact ⟨s :: syms, rest, rfl, hrest⟩
    · refine ⟨[], c :: l, rfl, fun c' hc' => ?_⟩
      obtain rfl := Option.some.inj hc'
      exact hc

theorem Alphabet.exists_map_char {l : List α} (h : ∀ c ∈ l, c ∈ alphabet.chars) :
    ∃ syms, l = List.map alphabet.char syms := by
  obtain ⟨syms, rest, rfl, hrest⟩ := alphabet.exists_symbols l
  cases rest with
  | nil => exact ⟨syms, List.append_nil _⟩
  | cons c rest => exact absurd (h c (by simp)) (hrest c rfl)

/-- The encoding without padding. -/
def encode (bs : List Octet) : List α := (symbols bs).map alphabet.char

theorem encode_short {bs : List Octet} (h : bs.length < 5) :
    encode alphabet bs = (group bs).map alphabet.char := by
  unfold encode
  rw [symbols_short h]

theorem encode_full {five : List Octet} (h : five.length = 5) (rest : List Octet) :
    encode alphabet (five ++ rest) = (group five).map alphabet.char ++ encode alphabet rest := by
  unfold encode
  rw [symbols_full h, List.map_append]

theorem encode_append {bs : List Octet} (h : 5 ∣ bs.length) (rest : List Octet) :
    encode alphabet (bs ++ rest) = encode alphabet bs ++ encode alphabet rest := by
  unfold encode
  rw [symbols_append h, List.map_append]

@[simp] theorem length_encode (bs : List Octet) :
    (encode alphabet bs).length = symbolCount bs.length := by
  unfold encode
  rw [List.length_map, length_symbols]

end Alphabet

/-- The alphabet of table 3 of the RFC. -/
def base32 : Alphabet Char where
  chars := ['A', 'B', 'C', 'D', 'E', 'F', 'G', 'H', 'I', 'J', 'K', 'L', 'M', 'N', 'O', 'P', 'Q',
    'R', 'S', 'T', 'U', 'V', 'W', 'X', 'Y', 'Z', '2', '3', '4', '5', '6', '7']
  length_eq := by decide
  nodup := by decide

/-- The alphabet with extended hex digits, of table 4. -/
def base32hex : Alphabet Char where
  chars := ['0', '1', '2', '3', '4', '5', '6', '7', '8', '9', 'A', 'B', 'C', 'D', 'E', 'F', 'G',
    'H', 'I', 'J', 'K', 'L', 'M', 'N', 'O', 'P', 'Q', 'R', 'S', 'T', 'U', 'V']
  length_eq := by decide
  nodup := by decide

end Umsftpd.Base32
