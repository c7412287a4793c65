import Mclog.General.Codec

/-!
# Readers that fill an object

Two ways in which a reader can fill an object from bytes and signal failure.  A `CountReader`
returns a count that is positive on success; a `StreamReader` sets the fail bit of its stream.
Either may leave anything in the object when it fails.  `Reads` relates both to a `Decoder`: where
that decodes, the reader succeeds with its value and its rest, and where it does not, the reader
signals failure.

The decoders of composite values are built with `Decoder.seq` and `Decoder.check`.  A check commutes
with what is decoded around it (`Decoder.check_seq`, `Decoder.seq_check`), so a reader that checks a
field at once and one that checks it at the end read the same decoder.  The two read loops deliver
what `Codec.readAll` does, in one step more than there are bytes (`CountReader.loop_eq`,
`StreamReader.loop_eq`).  A decoder that `Extends` reads of a truncated stream the values that are
complete (`Extends.readAll_take`).
-/

namespace General

variable {α β : Type}

/-! ### Decoders -/

/-- Reads one value off the front, or fails. -/
abbrev Decoder (α : Type) := List UInt8 → Option (α × List UInt8)

namespace Decoder

/-- Two values, one after the other. -/
def seq (d : Decoder α) (e : Decoder β) : Decoder (α × β) := fun bs => do
  let (a, bs) ← d bs
  let (b, bs) ← e bs
  pure ((a, b), bs)

/-- A value that passes a check. -/
def check (ok : α → Bool) (d : Decoder α) : Decoder α := fun bs => do
  let (a, bs) ← d bs
  if ok a then pure (a, bs) else none

/-- A value made of the value read. -/
def map (f : α → β) (d : Decoder α) : Decoder β := fun bs => (d bs).map fun p => (f p.1, p.2)

/-- Once the first value has been read, the second decides. -/
theorem seq_of_some {d : Decoder α} (e : Decoder β) {bs bs₁ : List UInt8} {a : α}
    (h : d bs = some (a, bs₁)) : d.seq e bs = (e bs₁).map fun p => ((a, p.1), p.2) := by
  simp only [seq, h, Option.bind_eq_bind, Option.bind_some]
  cases e bs₁ <;> rfl

@[simp] theorem map_eq_some_iff {f : α → β} {d : Decoder α} {bs rest : List UInt8} {b : β} :
    d.map f bs = some (b, rest) ↔ ∃ a, d bs = some (a, rest) ∧ f a = b := by
  simp only [map, Option.map_eq_some_iff, Prod.exists, Prod.mk.injEq]
  constructor
  · rintro ⟨a, bs₁, ha, hb, rfl⟩
    exact ⟨a, ha, hb⟩
  · rintro ⟨a, ha, hb⟩
    exact ⟨a, rest, ha, hb, rfl⟩

@[simp] theorem seq_eq_some_iff {d : Decoder α} {e : Decoder β} {bs rest : List UInt8} {a : α} {b : β} :
    d.seq e bs = some ((a, b), rest) ↔
      ∃ bs₁, d bs = some (a, bs₁) ∧ e bs₁ = some (b, rest) := by
  simp only [seq, Option.bind_eq_bind, Option.bind_eq_some_iff, Prod.exists, Option.pure_def,
    Option.some.injEq, Prod.mk.injEq]
  constructor
  · rintro ⟨a', bs₁, ha, b', bs₂, hb, ⟨rfl, rfl⟩, rfl⟩
    exact ⟨bs₁, ha, hb⟩
  · rintro ⟨bs₁, ha, hb⟩
    exact ⟨a, bs₁, ha, b, rest, hb, ⟨rfl, rfl⟩, rfl⟩

@[simp] theorem check_eq_some_iff {ok : α → Bool} {d : Decoder α} {bs rest : List UInt8} {a : α} :
    d.check ok bs = some (a, rest) ↔ d bs = some (a, rest) ∧ ok a = true := by
  simp only [check, Option.bind_eq_bind, Option.bind_eq_some_iff, Prod.exists,
    Option.ite_none_right_eq_some, Option.pure_def, Option.some.injEq, Prod.mk.injEq]
  constructor
  · rintro ⟨a', bs₁, ha, hok, rfl, rfl⟩
    exact ⟨ha, hok⟩
  · rintro ⟨ha, hok⟩
    exact ⟨a, rest, ha, hok, rfl, rfl⟩

/-- Two decoders with the same successes are the same. -/
theorem ext_some {d e : Decoder α}
    (h : ∀ bs a rest, d bs = some (a, rest) ↔ e bs = some (a, rest)) : d = e := by
  funext bs
  ext ⟨a, rest⟩
  exact h bs a rest

/-- **A check of the first value** can wait for the second. -/
theorem check_seq (ok : α → Bool) (d : Decoder α) (e : Decoder β) :
    (d.check ok).seq e = (d.seq e).check fun p => ok p.1 := by
  apply ext_some
  rintro bs ⟨a, b⟩ rest
  rw [seq_eq_some_iff, check_eq_some_iff, seq_eq_some_iff]
  constructor
  · rintro ⟨bs₁, ha, hb⟩
    obtain ⟨ha, hok⟩ := check_eq_some_iff.mp ha
    exact ⟨⟨bs₁, ha, hb⟩, hok⟩
  · rintro ⟨⟨bs₁, ha, hb⟩, hok⟩
    exact ⟨bs₁, check_eq_some_iff.mpr ⟨ha, hok⟩, hb⟩

/-- **A check of the second value** is a check of the pair. -/
theorem seq_check (ok : β → Bool) (d : Decoder α) (e : Decoder β) :
    d.seq (e.check ok) = (d.seq e).check fun p => ok p.2 := by
  apply ext_some
  rintro bs ⟨a, b⟩ rest
  rw [seq_eq_some_iff, check_eq_some_iff, seq_eq_some_iff]
  constructor
  · rintro ⟨bs₁, ha, hb⟩
    obtain ⟨hb, hok⟩ := check_eq_some_iff.mp hb
    exact ⟨⟨bs₁, ha, hb⟩, hok⟩
  · rintro ⟨⟨bs₁, ha, hb⟩, hok⟩
    exact ⟨bs₁, ha, check_eq_some_iff.mpr ⟨hb, hok⟩⟩

/-- Two checks are one. -/
theorem check_check (ok ok' : α → Bool) (d : Decoder α) :
    (d.check ok).check ok' = d.check fun a => ok a && ok' a := by
  apply ext_some
  intro bs a rest
  simp only [check_eq_some_iff, Bool.and_eq_true, and_assoc]

/-! #### Truncated input -/

/-- More bytes behind those read change nothing. -/
def Extends (d : Decoder α) : Prop :=
  ∀ bs a rest more, d bs = some (a, rest) → d (bs ++ more) = some (a, rest ++ more)

theorem Extends.seq {d : Decoder α} {e : Decoder β} (hd : d.Extends) (he : e.Extends) :
    (d.seq e).Extends := by
  rintro bs ⟨a, b⟩ rest more h
  obtain ⟨bs₁, ha, hb⟩ := seq_eq_some_iff.mp h
  exact seq_eq_some_iff.mpr ⟨bs₁ ++ more, hd _ _ _ more ha, he _ _ _ more hb⟩

theorem Extends.check {d : Decoder α} (hd : d.Extends) (ok : α → Bool) : (d.check ok).Extends := by
  intro bs a rest more h
  obtain ⟨ha, hok⟩ := check_eq_some_iff.mp h
  exact check_eq_some_iff.mpr ⟨hd _ _ _ more ha, hok⟩

theorem Extends.map {d : Decoder α} (hd : d.Extends) (f : α → β) : (d.map f).Extends := by
  intro bs b rest more h
  obtain ⟨a, ha, hb⟩ := map_eq_some_iff.mp h
  exact map_eq_some_iff.mpr ⟨a, hd _ _ _ more ha, hb⟩

/-- A part of an encoding decodes to nothing. -/
theorem Extends.eq_none_of_cut {d : Decoder α} (hd : d.Extends) {a : α} {bs : List UInt8} {k : Nat}
    (h : d bs = some (a, [])) (hk : k < bs.length) : d (bs.take k) = none := by
  cases hcut : d (bs.take k) with
  | none => rfl
  | some p =>
    obtain ⟨b, rest⟩ := p
    have hall := hd _ _ _ (bs.drop k) hcut
    rw [List.take_append_drop, h] at hall
    obtain ⟨-, hrest⟩ := Prod.mk.inj (Option.some.inj hall)
    have hlength := congrArg List.length hrest
    rw [List.length_append, List.length_drop, List.length_nil] at hlength
    omega

/-- The values whose encodings are complete in the first `k` bytes. -/
def complete (enc : α → List UInt8) : Nat → List α → List α
  | _, [] => []
  | k, a :: as => if (enc a).length ≤ k then a :: complete enc (k - (enc a).length) as else []

/-- **What is read of a truncated stream** are the values that are complete. -/
theorem Extends.readAll_take {d : Decoder α} (hd : d.Extends) {enc : α → List UInt8}
    (hlt : ∀ bs a rest, d bs = some (a, rest) → rest.length < bs.length) (as : List α)
    (henc : ∀ a ∈ as, ∀ rest, d (enc a ++ rest) = some (a, rest)) (k : Nat) :
    Codec.readAll d ((Codec.encodeAll enc as).take k) = complete enc k as := by
  induction as generalizing k with
  | nil =>
    rw [Codec.encodeAll_nil, List.take_nil]
    rfl
  | cons a as ih =>
    rw [Codec.encodeAll_cons, complete]
    split_ifs with hle
    · rw [List.take_append, List.take_of_length_le hle,
        Codec.readAll_of_decode d hlt (henc a (by simp) _),
        ih (fun b hb => henc b (List.mem_cons_of_mem a hb))]
    · have hone : d (enc a) = some (a, []) := by
        have := henc a (by simp) []
        rwa [List.append_nil] at this
      rw [List.take_append_of_le_length (by omega),
        Codec.readAll_of_none d (hd.eq_none_of_cut hone (by omega))]

end Decoder

/-! ### Codecs on truncated input -/

theorem Codec.extends_bigEndian (k : Nat) (hk : 0 < k) :
    Decoder.Extends (Codec.bigEndian k hk).decode := by
  intro bs a rest more h
  simp only [Codec.bigEndian] at h ⊢
  split_ifs at h with hlength
  obtain ⟨rfl, rfl⟩ := Prod.mk.inj (Option.some.inj h)
  have hmore : k ≤ (bs ++ more).length := by
    rw [List.length_append]
    omega
  rw [dif_pos hmore]
  simp only [List.take_append_of_le_length hlength, List.drop_append_of_le_length hlength]

theorem Codec.extends_lengthPrefixed (k N : Nat) (hk : 0 < k) (hN : N < 256 ^ k) :
    Decoder.Extends (Codec.lengthPrefixed k N hk hN).decode := by
  intro bs a rest more h
  simp only [Codec.lengthPrefixed, Option.bind_eq_bind, Option.bind_eq_some_iff, Prod.exists] at h ⊢
  obtain ⟨n, bs₁, hn, h⟩ := h
  split_ifs at h with hfits
  obtain ⟨rfl, rfl⟩ := Prod.mk.inj (Option.some.inj h)
  refine ⟨n, bs₁ ++ more, Codec.extends_bigEndian k hk _ _ _ more hn, ?_⟩
  have hmore : n.val ≤ N ∧ n.val ≤ (bs₁ ++ more).length := by
    rw [List.length_append]
    omega
  rw [dif_pos hmore]
  simp only [List.take_append_of_le_length hfits.2, List.drop_append_of_le_length hfits.2]

theorem Codec.extends_map (c : Codec α) (f : β → α) (g : α → β) (hgf : ∀ b, g (f b) = b)
    (hc : Decoder.Extends c.decode) : Decoder.Extends (c.map f g hgf).decode := by
  intro bs b rest more h
  obtain ⟨⟨a, rest'⟩, ha, hp⟩ := Option.map_eq_some_iff.mp h
  obtain ⟨rfl, rfl⟩ := Prod.mk.inj hp
  exact Option.map_eq_some_iff.mpr ⟨(a, rest' ++ more), hc _ _ _ more ha, rfl⟩

/-! ### Readers that return a count -/

/-- Fills an object from the bytes left.  The result is a count, positive on success, with the object
    and the bytes left after it. -/
abbrev CountReader (α : Type) := α → List UInt8 → Int × α × List UInt8

namespace CountReader

/-- The reader succeeds where the decoder does, with the same value and the same rest, whatever was
    in the object before. -/
structure Reads (r : CountReader α) (d : Decoder α) : Prop where
  success : ∀ a₀ {bs a rest}, d bs = some (a, rest) → ∃ n : Int, 0 < n ∧ r a₀ bs = (n, a, rest)
  failure : ∀ a₀ {bs}, d bs = none → (r a₀ bs).1 ≤ 0

/-- Two objects, one after the other: the first failure is the result. -/
def seq (r : CountReader α) (s : CountReader β) : CountReader (α × β) := fun (a, b) bs =>
  let (n, a, bs) := r a bs
  if 0 < n then
    let (m, b, bs) := s b bs
    if 0 < m then (n + m, (a, b), bs) else (m, (a, b), bs)
  else
    (n, (a, b), bs)

theorem Reads.seq {r : CountReader α} {s : CountReader β} {d : Decoder α} {e : Decoder β}
    (hr : r.Reads d) (hs : s.Reads e) : (r.seq s).Reads (d.seq e) where
  success := by
    rintro ⟨a₀, b₀⟩ bs ⟨a, b⟩ rest h
    obtain ⟨bs₁, ha, hb⟩ := Decoder.seq_eq_some_iff.mp h
    obtain ⟨n, hn, hra⟩ := hr.success a₀ ha
    obtain ⟨m, hm, hsb⟩ := hs.success b₀ hb
    refine ⟨n + m, by omega, ?_⟩
    simp only [CountReader.seq, hra, if_pos hn, hsb, if_pos hm]
  failure := by
    rintro ⟨a₀, b₀⟩ bs h
    cases hd : d bs with
    | none =>
      have hn := hr.failure a₀ hd
      simp only [CountReader.seq, if_neg (not_lt.mpr hn)]
      exact hn
    | some p =>
      obtain ⟨a, bs₁⟩ := p
      obtain ⟨n, hn, hra⟩ := hr.success a₀ hd
      have he : e bs₁ = none := by
        rw [Decoder.seq_of_some e hd, Option.map_eq_none_iff] at h
        exact h
      have hm := hs.failure b₀ he
      simp only [CountReader.seq, hra, if_pos hn, if_neg (not_lt.mpr hm)]
      exact hm

/-- A reader that goes on with the fields of an object. -/
theorem Reads.map {r : CountReader α} {d : Decoder α} (hr : r.Reads d) (f : α → β) (g : β → α) :
    Reads (fun b bs => ((r (g b) bs).1, f (r (g b) bs).2.1, (r (g b) bs).2.2)) (d.map f) where
  success := by
    intro b₀ bs b rest h
    obtain ⟨⟨a, bs₁⟩, ha, hp⟩ := Option.map_eq_some_iff.mp h
    obtain ⟨n, hn, hra⟩ := hr.success (g b₀) ha
    refine ⟨n, hn, ?_⟩
    simp only [hra]
    rw [← hp]
  failure := by
    intro b₀ bs h
    exact hr.failure (g b₀) (Option.map_eq_none_iff.mp h)

/-- **A reader that checks its object at the end**: its count is positive when the object was read
    and passes the check. -/
theorem Reads.check {r r' : CountReader α} {d : Decoder α} (hr : r.Reads d) (ok : α → Bool)
    (hobject : ∀ a₀ bs, (r' a₀ bs).2 = (r a₀ bs).2)
    (hcount : ∀ a₀ bs, 0 < (r' a₀ bs).1 ↔ 0 < (r a₀ bs).1 ∧ ok (r a₀ bs).2.1 = true) :
    r'.Reads (d.check ok) where
  success := by
    intro a₀ bs a rest h
    obtain ⟨ha, hok⟩ := Decoder.check_eq_some_iff.mp h
    obtain ⟨n, hn, hra⟩ := hr.success a₀ ha
    have hpos : 0 < (r' a₀ bs).1 := (hcount a₀ bs).mpr (by rw [hra]; exact ⟨hn, hok⟩)
    have hrest : (r' a₀ bs).2 = (a, rest) := by rw [hobject, hra]
    exact ⟨_, hpos, Prod.ext rfl hrest⟩
  failure := by
    intro a₀ bs h
    by_contra hpos
    obtain ⟨hn, hok⟩ := (hcount a₀ bs).mp (not_le.mp hpos)
    cases hd : d bs with
    | none => exact absurd (hr.failure a₀ hd) (not_le.mpr hn)
    | some p =>
      obtain ⟨a, rest⟩ := p
      obtain ⟨n, -, hra⟩ := hr.success a₀ hd
      rw [hra] at hok
      rw [Decoder.check_eq_some_iff.mpr ⟨hd, hok⟩] at h
      exact absurd h (by simp)

/-- The loop that reads into one object while the count is positive, and delivers the values that
    `deliver` lets through.  `none` when the steps do not suffice. -/
def loop (r : CountReader α) (deliver : α → Bool) : Nat → α → List UInt8 → Option (List α)
  | 0, _, _ => none
  | steps + 1, a, bs =>
    let (n, a, bs) := r a bs
    if 0 < n then
      (loop r deliver steps a bs).map fun as => if deliver a then a :: as else as
    else
      some []

/-- **The loop ends**, and delivers what the decoder gives until it fails. -/
theorem loop_eq {r : CountReader α} {d : Decoder α} (hr : r.Reads d)
    (hlt : ∀ bs a rest, d bs = some (a, rest) → rest.length < bs.length) (deliver : α → Bool)
    (steps : Nat) (a₀ : α) (bs : List UInt8) (hsteps : bs.length < steps) :
    r.loop deliver steps a₀ bs = some ((Codec.readAll d bs).filter deliver) := by
  induction steps generalizing a₀ bs with
  | zero => exact absurd hsteps (Nat.not_lt_zero _)
  | succ steps ih =>
    cases hd : d bs with
    | none =>
      have hn := hr.failure a₀ hd
      simp only [loop, if_neg (not_lt.mpr hn), Codec.readAll_of_none d hd, List.filter_nil]
    | some p =>
      obtain ⟨a, rest⟩ := p
      obtain ⟨n, hn, hra⟩ := hr.success a₀ hd
      have hshort := hlt _ _ _ hd
      simp only [loop, hra, if_pos hn, ih a rest (by omega), Option.map_some,
        Codec.readAll_of_decode d hlt hd, List.filter_cons]

end CountReader

/-! ### Readers that set a fail bit -/

/-- The bytes left of an input stream, and its fail bit. -/
structure InputStream where
  bytes : List UInt8
  failed : Bool := false
deriving DecidableEq

/-- Fills an object from a stream. -/
abbrev StreamReader (α : Type) := α → InputStream → α × InputStream

namespace StreamReader

/-- On a good stream, the reader succeeds where the decoder does, with the same value and the same
    rest, and sets the fail bit where it does not. -/
structure Reads (r : StreamReader α) (d : Decoder α) : Prop where
  success : ∀ a₀ {bs a rest}, d bs = some (a, rest) → r a₀ ⟨bs, false⟩ = (a, ⟨rest, false⟩)
  failure : ∀ a₀ {bs}, d bs = none → (r a₀ ⟨bs, false⟩).2.failed = true

/-- Two objects, one after the other, while the stream is good. -/
def seq (r : StreamReader α) (s : StreamReader β) : StreamReader (α × β) := fun (a, b) is =>
  let (a, is) := r a is
  if is.failed then
    ((a, b), is)
  else
    let (b, is) := s b is
    ((a, b), is)

/-- A check of the object that was read, which sets the fail bit. -/
def check (ok : α → Bool) (r : StreamReader α) : StreamReader α := fun a is =>
  let (a, is) := r a is
  if is.failed ∨ ok a then (a, is) else (a, { is with failed := true })

theorem Reads.seq {r : StreamReader α} {s : StreamReader β} {d : Decoder α} {e : Decoder β}
    (hr : r.Reads d) (hs : s.Reads e) : (r.seq s).Reads (d.seq e) where
  success := by
    rintro ⟨a₀, b₀⟩ bs ⟨a, b⟩ rest h
    obtain ⟨bs₁, ha, hb⟩ := Decoder.seq_eq_some_iff.mp h
    simp only [StreamReader.seq, hr.success a₀ ha, hs.success b₀ hb, Bool.false_eq_true, if_false]
  failure := by
    rintro ⟨a₀, b₀⟩ bs h
    cases hd : d bs with
    | none =>
      have hfail := hr.failure a₀ hd
      simp only [StreamReader.seq, hfail, if_true]
    | some p =>
      obtain ⟨a, bs₁⟩ := p
      have he : e bs₁ = none := by
        rw [Decoder.seq_of_some e hd, Option.map_eq_none_iff] at h
        exact h
      simp only [StreamReader.seq, hr.success a₀ hd, Bool.false_eq_true, if_false]
      exact hs.failure b₀ he

theorem Reads.check {r : StreamReader α} {d : Decoder α} (hr : r.Reads d) (ok : α → Bool) :
    (r.check ok).Reads (d.check ok) where
  success := by
    intro a₀ bs a rest h
    obtain ⟨ha, hok⟩ := Decoder.check_eq_some_iff.mp h
    simp only [StreamReader.check, hr.success a₀ ha, hok, or_true, if_true]
  failure := by
    intro a₀ bs h
    cases hd : d bs with
    | none =>
      have hfail := hr.failure a₀ hd
      simp only [StreamReader.check, hfail, true_or, if_true]
    | some p =>
      obtain ⟨a, rest⟩ := p
      have hok : ok a = false := by simpa [Decoder.check, hd] using h
      simp [StreamReader.check, hr.success a₀ hd, hok]

/-- A reader that goes on with the fields of an object. -/
theorem Reads.map {r : StreamReader α} {d : Decoder α} (hr : r.Reads d) (f : α → β) (g : β → α) :
    Reads (fun b is => (f (r (g b) is).1, (r (g b) is).2)) (d.map f) where
  success := by
    intro b₀ bs b rest h
    obtain ⟨⟨a, bs₁⟩, ha, hp⟩ := Option.map_eq_some_iff.mp h
    rw [Prod.mk.injEq] at hp
    obtain ⟨rfl, rfl⟩ := hp
    simp only [hr.success (g b₀) ha]
  failure := by
    intro b₀ bs h
    exact hr.failure (g b₀) (Option.map_eq_none_iff.mp h)

/-- The loop that reads into one object while the stream is good, and delivers the values that
    `deliver` lets through.  `none` when the steps do not suffice. -/
def loop (r : StreamReader α) (deliver : α → Bool) : Nat → α → InputStream → Option (List α)
  | 0, _, _ => none
  | steps + 1, a, is =>
    let (a, is) := r a is
    if is.failed then
      some []
    else
      (loop r deliver steps a is).map fun as => if deliver a then a :: as else as

/-- **The loop ends**, and delivers what the decoder gives until it fails. -/
theorem loop_eq {r : StreamReader α} {d : Decoder α} (hr : r.Reads d)
    (hlt : ∀ bs a rest, d bs = some (a, rest) → rest.length < bs.length) (deliver : α → Bool)
    (steps : Nat) (a₀ : α) (bs : List UInt8) (hsteps : bs.length < steps) :
    r.loop deliver steps a₀ ⟨bs, false⟩ = some ((Codec.readAll d bs).filter deliver) := by
  induction steps generalizing a₀ bs with
  | zero => exact absurd hsteps (Nat.not_lt_zero _)
  | succ steps ih =>
    cases hd : d bs with
    | none =>
      have hfail := hr.failure a₀ hd
      simp only [loop, hfail, if_true, Codec.readAll_of_none d hd, List.filter_nil]
    | some p =>
      obtain ⟨a, rest⟩ := p
      have hshort := hlt _ _ _ hd
      simp only [loop, hr.success a₀ hd, Bool.false_eq_true, if_false, ih a rest (by omega),
        Option.map_some, Codec.readAll_of_decode d hlt hd, List.filter_cons]

end StreamReader

end General
