import Mathlib.Tactic

/-!
# Codecs

A `Codec α` is an encoder of `α` into bytes with a decoder that reads one value off the front of a
byte list and returns what is left.  The two laws are the ones a stream format needs: decoding an
encoding gives the value back whatever follows (`decode_encode`), and a successful decode consumes
at least one byte (`decode_lt`).

`Codec.readAll` reads values until the decoder fails.  `readAll_encodeAll` is the round trip of a
whole stream: the values of a list of encodings written one after another are exactly that list.
-/

namespace General

/-- An encoder and a decoder of `α`, with the two laws of a self-delimiting stream format. -/
structure Codec (α : Type) where
  /-- The bytes written for a value. -/
  encode : α → List UInt8
  /-- Reads one value off the front; `none` when the bytes are not an encoding. -/
  decode : List UInt8 → Option (α × List UInt8)
  /-- Decoding undoes encoding, whatever follows. -/
  decode_encode : ∀ a rest, decode (encode a ++ rest) = some (a, rest)
  /-- A successful decode consumes at least one byte. -/
  decode_lt : ∀ bs a rest, decode bs = some (a, rest) → rest.length < bs.length

namespace Codec

variable {α β : Type}

/-- No value is encoded in zero bytes. -/
theorem encode_length_pos (c : Codec α) (a : α) : 0 < (c.encode a).length := by
  have h := c.decode_lt (c.encode a ++ []) a [] (c.decode_encode a [])
  simpa using h

/-- Nothing can be read from the empty stream. -/
@[simp] theorem decode_nil (c : Codec α) : c.decode [] = none := by
  cases h : c.decode [] with
  | none => rfl
  | some p =>
    obtain ⟨a, rest⟩ := p
    exact absurd (c.decode_lt [] a rest h) (Nat.not_lt_zero _)

/-- Transport along an injection with a partial inverse. -/
def map (c : Codec α) (f : β → α) (g : α → β) (hgf : ∀ b, g (f b) = b) : Codec β where
  encode b := c.encode (f b)
  decode bs := (c.decode bs).map fun p => (g p.1, p.2)
  decode_encode := by
    intro b rest
    simp [c.decode_encode, hgf]
  decode_lt := by
    intro bs b rest h
    simp only [Option.map_eq_some_iff, Prod.mk.injEq, Prod.exists] at h
    obtain ⟨a, r, ha, -, rfl⟩ := h
    exact c.decode_lt _ _ _ ha

/-! ### Numbers and length-prefixed strings -/

/-- `n` in `k` bytes, most significant byte first. -/
def bytesBE : Nat → Nat → List UInt8
  | 0, _ => []
  | k + 1, n => bytesBE k (n / 256) ++ [UInt8.ofNat (n % 256)]

/-- The number a byte list denotes, most significant byte first. -/
def ofBytesBE (bs : List UInt8) : Nat := bs.foldl (fun n b => n * 256 + b.toNat) 0

@[simp] theorem length_bytesBE (k n : Nat) : (bytesBE k n).length = k := by
  induction k generalizing n with
  | zero => rfl
  | succ k ih => simp [bytesBE, ih]

theorem ofBytesBE_concat (bs : List UInt8) (b : UInt8) :
    ofBytesBE (bs ++ [b]) = ofBytesBE bs * 256 + b.toNat := by
  simp [ofBytesBE]

theorem ofBytesBE_bytesBE (k n : Nat) (h : n < 256 ^ k) : ofBytesBE (bytesBE k n) = n := by
  induction k generalizing n with
  | zero => simp_all [bytesBE, ofBytesBE]
  | succ k ih =>
    have hq : n / 256 < 256 ^ k := by
      rw [Nat.div_lt_iff_lt_mul (by norm_num)]
      rwa [pow_succ] at h
    rw [bytesBE, ofBytesBE_concat, ih _ hq, UInt8.toNat_ofNat']
    omega

theorem ofBytesBE_lt (bs : List UInt8) : ofBytesBE bs < 256 ^ bs.length := by
  induction bs using List.reverseRecOn with
  | nil => simp [ofBytesBE]
  | append_singleton bs b ih =>
    have hb : b.toNat < 256 := b.toNat_lt
    rw [ofBytesBE_concat, List.length_append, List.length_singleton, pow_succ]
    omega

/-- A number below `256 ^ k` in exactly `k` bytes, most significant first. -/
def bigEndian (k : Nat) (hk : 0 < k) : Codec {n : Nat // n < 256 ^ k} where
  encode n := bytesBE k n.val
  decode bs :=
    if h : k ≤ bs.length then
      some (⟨ofBytesBE (bs.take k), by
        simpa [List.length_take, Nat.min_eq_left h] using ofBytesBE_lt (bs.take k)⟩, bs.drop k)
    else
      none
  decode_encode := by
    rintro ⟨n, hn⟩ rest
    have hk' : k ≤ (bytesBE k n ++ rest).length := by simp
    have htake : (bytesBE k n ++ rest).take k = bytesBE k n :=
      List.take_left' (length_bytesBE k n)
    have hdrop : (bytesBE k n ++ rest).drop k = rest := List.drop_left' (length_bytesBE k n)
    simp only [dif_pos hk', htake, hdrop, ofBytesBE_bytesBE k n hn]
  decode_lt := by
    intro bs a rest h
    split_ifs at h with hk'
    simp only [Option.some.injEq, Prod.mk.injEq] at h
    rw [← h.2, List.length_drop]
    omega

/-- A string of at most `N` bytes after its length in `k` bytes. -/
def lengthPrefixed (k N : Nat) (hk : 0 < k) (hN : N < 256 ^ k) :
    Codec {bs : List UInt8 // bs.length ≤ N} where
  encode s := (bigEndian k hk).encode ⟨s.val.length, lt_of_le_of_lt s.property hN⟩ ++ s.val
  decode bs := do
    let (n, rest) ← (bigEndian k hk).decode bs
    if h : n.val ≤ N ∧ n.val ≤ rest.length then
      some (⟨rest.take n.val, by simp [h.1]⟩, rest.drop n.val)
    else
      none
  decode_encode := by
    rintro ⟨s, hs⟩ rest
    simp [List.append_assoc, (bigEndian k hk).decode_encode, hs]
  decode_lt := by
    intro bs a rest h
    simp only [Option.bind_eq_bind, Option.bind_eq_some_iff, Prod.exists] at h
    obtain ⟨n, rest', hn, h⟩ := h
    have hlt := (bigEndian k hk).decode_lt _ _ _ hn
    split_ifs at h with hcond
    simp only [Option.some.injEq, Prod.mk.injEq] at h
    rw [← h.2, List.length_drop]
    omega

/-! ### Streams -/

/-- Values written one after another with the encoder `enc`. -/
def encodeAll (enc : α → List UInt8) (as : List α) : List UInt8 := as.flatMap enc

@[simp] theorem encodeAll_nil (enc : α → List UInt8) : encodeAll enc [] = [] := rfl

@[simp] theorem encodeAll_cons (enc : α → List UInt8) (a : α) (as : List α) :
    encodeAll enc (a :: as) = enc a ++ encodeAll enc as := rfl

@[simp] theorem encodeAll_append (enc : α → List UInt8) (as bs : List α) :
    encodeAll enc (as ++ bs) = encodeAll enc as ++ encodeAll enc bs := by
  simp [encodeAll]

/-- Reads at most `fuel` values with the reader `dec`, stopping at the first failure. -/
def readUpTo (dec : List UInt8 → Option (α × List UInt8)) : Nat → List UInt8 → List α
  | 0, _ => []
  | fuel + 1, bs =>
    match dec bs with
    | none => []
    | some (a, rest) => a :: readUpTo dec fuel rest

/-- Reads values with the reader `dec` until it fails.  Every successful read of a reader that
    consumes a byte shortens the stream, so its length is fuel enough. -/
def readAll (dec : List UInt8 → Option (α × List UInt8)) (bs : List UInt8) : List α :=
  readUpTo dec bs.length bs

/-- Fuel beyond the stream's length changes nothing, for a reader that consumes. -/
theorem readUpTo_of_le (dec : List UInt8 → Option (α × List UInt8))
    (hlt : ∀ bs a rest, dec bs = some (a, rest) → rest.length < bs.length) :
    ∀ (fuel : Nat) (bs : List UInt8), bs.length ≤ fuel →
      readUpTo dec fuel bs = readAll dec bs := by
  -- Both sides take the same step; strong induction on the length of the stream.
  have key : ∀ (n : Nat) (bs : List UInt8), bs.length ≤ n → ∀ (f g : Nat),
      bs.length ≤ f → bs.length ≤ g → readUpTo dec f bs = readUpTo dec g bs := by
    intro n
    induction n with
    | zero =>
      intro bs hbs f g _ _
      have hnil : bs = [] := List.length_eq_zero_iff.mp (by omega)
      subst hnil
      have hnone : dec [] = none := by
        cases h : dec [] with
        | none => rfl
        | some p => exact absurd (hlt [] p.1 p.2 h) (Nat.not_lt_zero _)
      cases f <;> cases g <;> simp [readUpTo, hnone]
    | succ n ih =>
      intro bs hbs f g hf hg
      cases hd : dec bs with
      | none => cases f <;> cases g <;> simp [readUpTo, hd]
      | some p =>
        obtain ⟨a, rest⟩ := p
        have hr := hlt bs a rest hd
        obtain ⟨f, rfl⟩ : ∃ k, f = k + 1 := ⟨f - 1, by omega⟩
        obtain ⟨g, rfl⟩ : ∃ k, g = k + 1 := ⟨g - 1, by omega⟩
        simp only [readUpTo, hd]
        rw [ih rest (by omega) f g (by omega) (by omega)]
  intro fuel bs h
  exact key fuel bs h fuel bs.length h le_rfl

/-- One step of the read loop: a value that decodes is delivered first. -/
theorem readAll_of_decode (dec : List UInt8 → Option (α × List UInt8))
    (hlt : ∀ bs a rest, dec bs = some (a, rest) → rest.length < bs.length)
    {bs rest : List UInt8} {a : α} (h : dec bs = some (a, rest)) :
    readAll dec bs = a :: readAll dec rest := by
  have hl := hlt bs a rest h
  obtain ⟨n, hn⟩ : ∃ n, bs.length = n + 1 := ⟨bs.length - 1, by omega⟩
  rw [readAll, hn, readUpTo, h]
  simp only [List.cons.injEq, true_and]
  exact readUpTo_of_le dec hlt n rest (by omega)

/-- The read loop stops at bytes that do not decode. -/
theorem readAll_of_none (dec : List UInt8 → Option (α × List UInt8)) {bs : List UInt8}
    (h : dec bs = none) : readAll dec bs = [] := by
  rw [readAll]
  cases bs.length with
  | zero => rfl
  | succ n => simp [readUpTo, h]

/-- **Round trip of a stream.**  If the reader undoes the writer on every value of the list,
    reading until failure what was written one after another gives the list back. -/
theorem readAll_encodeAll (enc : α → List UInt8) (dec : List UInt8 → Option (α × List UInt8))
    (hlt : ∀ bs a rest, dec bs = some (a, rest) → rest.length < bs.length)
    (as : List α) (h : ∀ a ∈ as, ∀ rest, dec (enc a ++ rest) = some (a, rest)) :
    readAll dec (encodeAll enc as) = as := by
  induction as with
  | nil => rfl
  | cons a as ih =>
    rw [encodeAll_cons, readAll_of_decode dec hlt (h a (by simp) (encodeAll enc as)),
      ih fun b hb => h b (by simp [hb])]

end Codec

end General
