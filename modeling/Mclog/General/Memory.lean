import Mathlib.Tactic

/-!
# Memory and streams over spans of it

A `Memory` has a cell at every address.  `read` and `write` are the accesses of a program that has a
pointer and a length; nothing keeps them inside an allocation.  That a computation stays inside one
is `TouchesOnly`: it changes no cell outside, and neither its result nor the cells inside depend on
the cells outside.

`SpanStream` is an output stream over a span: a write that does not fit stores what does and makes
the stream fail, and a failed stream writes nothing and has no position until it is cleared.
`writeAll_eq` says what a value written in pieces leaves.
-/

namespace General

/-- Memory, as the contents of every address. -/
def Memory (α : Type) : Type := ℕ → α

namespace Memory

variable {α β γ : Type}

/-- The `n` cells from address `a` on. -/
def read (m : Memory α) (a n : ℕ) : List α := (List.range n).map fun i => m (a + i)

/-- Memory after `bs` has been stored from address `a` on. -/
def write (m : Memory α) (a : ℕ) (bs : List α) : Memory α := fun x =>
  if a ≤ x then (bs[x - a]?).getD (m x) else m x

/-! ### Reading and writing -/

@[simp] theorem length_read (m : Memory α) (a n : ℕ) : (m.read a n).length = n := by
  simp [read]

@[simp] theorem read_zero (m : Memory α) (a : ℕ) : m.read a 0 = [] := rfl

theorem getElem?_read (m : Memory α) (a n i : ℕ) :
    (m.read a n)[i]? = if i < n then some (m (a + i)) else none := by
  rw [read, List.getElem?_map]
  split_ifs with h
  · rw [List.getElem?_range h]
    rfl
  · rw [List.getElem?_eq_none (by simpa using h)]
    rfl

/-- A part of what is read. -/
theorem take_drop_read (m : Memory α) {a n i k : ℕ} (h : i + k ≤ n) :
    ((m.read a n).drop i).take k = m.read (a + i) k := by
  apply List.ext_getElem?
  intro j
  rw [List.getElem?_take, List.getElem?_drop, getElem?_read, getElem?_read]
  by_cases hj : j < k
  · rw [if_pos hj, if_pos hj, if_pos (by omega), Nat.add_assoc]
  · rw [if_neg hj, if_neg hj]

/-- Memory keeps what it has outside the cells written. -/
theorem write_of_outside (m : Memory α) {a x : ℕ} {bs : List α}
    (h : x < a ∨ a + bs.length ≤ x) : m.write a bs x = m x := by
  unfold write
  split_ifs with hle
  · rw [List.getElem?_eq_none (by omega)]
    rfl
  · rfl

/-- Memory has in the cells written what was written. -/
theorem write_of_inside (m : Memory α) {a x : ℕ} {bs : List α} (h : a ≤ x)
    (hlt : x < a + bs.length) : some (m.write a bs x) = bs[x - a]? := by
  have hx : x - a < bs.length := by omega
  show some (if a ≤ x then (bs[x - a]?).getD (m x) else m x) = _
  rw [if_pos h, List.getElem?_eq_getElem hx]
  rfl

@[simp] theorem write_nil (m : Memory α) (a : ℕ) : m.write a [] = m := by
  funext x
  apply write_of_outside
  simp only [List.length_nil]
  omega

/-- Pieces written one behind the other are written as one. -/
theorem write_append (m : Memory α) (a : ℕ) (bs cs : List α) :
    m.write a (bs ++ cs) = (m.write a bs).write (a + bs.length) cs := by
  funext x
  rcases lt_or_ge x (a + bs.length) with hlt | hge
  · rw [write_of_outside (m.write a bs) (Or.inl hlt)]
    show (if a ≤ x then ((bs ++ cs)[x - a]?).getD (m x) else m x) =
      if a ≤ x then (bs[x - a]?).getD (m x) else m x
    split_ifs with hle
    · rw [List.getElem?_append_left (by omega)]
    · rfl
  · show (if a ≤ x then ((bs ++ cs)[x - a]?).getD (m x) else m x) =
      if a + bs.length ≤ x then (cs[x - (a + bs.length)]?).getD (m.write a bs x) else _
    rw [if_pos (by omega), if_pos hge, List.getElem?_append_right (by omega),
      write_of_outside m (Or.inr hge), Nat.sub_sub]

/-! ### Regions -/

/-- Two memories that have the same in the `n` cells from `a` on. -/
def AgreeInside (a n : ℕ) (m m' : Memory α) : Prop := ∀ x, a ≤ x → x < a + n → m x = m' x

/-- Two memories that have the same everywhere else. -/
def AgreeOutside (a n : ℕ) (m m' : Memory α) : Prop := ∀ x, x < a ∨ a + n ≤ x → m x = m' x

theorem AgreeOutside.refl (a n : ℕ) (m : Memory α) : AgreeOutside a n m m := fun _ _ => rfl

theorem AgreeOutside.trans {a n : ℕ} {m m' m'' : Memory α} (h : AgreeOutside a n m m')
    (h' : AgreeOutside a n m' m'') : AgreeOutside a n m m'' := fun x hx =>
  (h x hx).trans (h' x hx)

/-- A write inside a region leaves what is outside it. -/
theorem agreeOutside_write (m : Memory α) {a n i : ℕ} {bs : List α} (h : i + bs.length ≤ n) :
    AgreeOutside a n m (m.write (a + i) bs) := by
  intro x hx
  symm
  apply write_of_outside
  omega

/-- A read inside a region depends on the region only. -/
theorem AgreeInside.read_eq {a n i k : ℕ} {m m' : Memory α} (h : AgreeInside a n m m')
    (hik : i + k ≤ n) : m.read (a + i) k = m'.read (a + i) k := by
  refine List.map_congr_left fun j hj => ?_
  have hlt : j < k := List.mem_range.mp hj
  exact h (a + i + j) (by omega) (by omega)

/-- So does what a write leaves in the region. -/
theorem AgreeInside.write {a n : ℕ} {m m' : Memory α} (h : AgreeInside a n m m') (b : ℕ)
    (bs : List α) : AgreeInside a n (m.write b bs) (m'.write b bs) := by
  intro x hx hlt
  show (if b ≤ x then (bs[x - b]?).getD (m x) else m x) =
    if b ≤ x then (bs[x - b]?).getD (m' x) else m' x
  rw [h x hx hlt]

/-- A computation that neither writes outside the `n` cells from `a` on nor depends on what is
    there. -/
structure TouchesOnly (a n : ℕ) (f : Memory α → β × Memory α) : Prop where
  writes : ∀ m, AgreeOutside a n m (f m).2
  reads : ∀ m m', AgreeInside a n m m' → (f m).1 = (f m').1 ∧ AgreeInside a n (f m).2 (f m').2

/-- Reading a part of the region. -/
theorem touchesOnly_read {a n i k : ℕ} (h : i + k ≤ n) :
    TouchesOnly a n fun m : Memory α => (m.read (a + i) k, m) where
  writes m := .refl a n m
  reads _ _ hm := ⟨hm.read_eq h, hm⟩

/-- One computation after another. -/
theorem TouchesOnly.bind {a n : ℕ} {f : Memory α → β × Memory α} {g : β → Memory α → γ × Memory α}
    (hf : TouchesOnly a n f) (hg : ∀ m, TouchesOnly a n (g (f m).1)) :
    TouchesOnly a n fun m => g (f m).1 (f m).2 where
  writes m := (hf.writes m).trans ((hg m).writes _)
  reads m m' hm := by
    obtain ⟨hres, hmem⟩ := hf.reads m m' hm
    have hnext := (hg m).reads _ _ hmem
    rwa [hres] at hnext ⊢

/-! ### Cells as a list -/

/-- What a write leaves in a region that it starts in. -/
theorem read_write (m : Memory α) {a n i : ℕ} (bs : List α) (h : i ≤ n) :
    (m.write (a + i) bs).read a n =
      (m.read a n).take i ++ bs.take (n - i) ++ (m.read a n).drop (i + bs.length) := by
  apply List.ext_getElem?
  intro j
  have htake : ((m.read a n).take i).length = i := by
    rw [List.length_take, length_read]
    omega
  rw [getElem?_read]
  by_cases hj : j < n
  · rw [if_pos hj]
    rcases lt_or_ge j i with hlt | hge
    · -- Before the cells written.
      rw [write_of_outside m (Or.inl (by omega)), List.append_assoc,
        List.getElem?_append_left (by omega), List.getElem?_take_of_lt hlt, getElem?_read,
        if_pos hj]
    · rw [List.append_assoc, List.getElem?_append_right (by omega), htake]
      rcases lt_or_ge j (i + bs.length) with hin | hout
      · rw [List.getElem?_append_left (by rw [List.length_take]; omega),
          List.getElem?_take_of_lt (by omega), write_of_inside m (by omega) (by omega)]
        congr 1
        omega
      · -- Behind them.
        have hlen : (bs.take (n - i)).length = bs.length := by
          rw [List.length_take]
          omega
        rw [List.getElem?_append_right (by omega), hlen, List.getElem?_drop, getElem?_read,
          if_pos (by omega), write_of_outside m (Or.inr (by omega))]
        congr 2
        omega
  · rw [if_neg hj]
    symm
    apply List.getElem?_eq_none
    simp only [List.length_append, List.length_take, List.length_drop, length_read]
    omega

/-- A part of what was written is found where it was written. -/
theorem read_write_inside (m : Memory α) {a i k : ℕ} {bs : List α} (h : i + k ≤ bs.length) :
    (m.write a bs).read (a + i) k = (bs.drop i).take k := by
  apply List.ext_getElem?
  intro j
  rw [getElem?_read, List.getElem?_take, List.getElem?_drop]
  by_cases hj : j < k
  · rw [if_pos hj, if_pos hj, write_of_inside m (by omega) (by omega)]
    congr 1
    omega
  · rw [if_neg hj, if_neg hj]

theorem read_write_self (m : Memory α) (a : ℕ) (bs : List α) :
    (m.write a bs).read a bs.length = bs := by
  have hread : (m.write a bs).read (a + 0) bs.length = (bs.drop 0).take bs.length :=
    m.read_write_inside (by omega)
  rwa [List.drop_zero, List.take_length] at hread

end Memory

/-! ### Streams -/

/-- An output stream over the `size` cells from `first` on. -/
structure SpanStream where
  first : ℕ
  size : ℕ
  /-- Where the next cell is written. -/
  pos : ℕ
  good : Bool

namespace SpanStream

variable {α : Type} (s : SpanStream) (m : Memory α)

/-- A stream at the beginning of a span. -/
def ofSpan (first size : ℕ) : SpanStream := ⟨first, size, 0, true⟩

/-- The cells that are left. -/
def room : ℕ := s.size - s.pos

/-- `write`: nothing once the stream has failed; else as much as fits, and the stream fails when
    that is not all. -/
def write (bs : List α) : SpanStream × Memory α :=
  if s.good then
    let stored := bs.take s.room
    ({ s with pos := s.pos + stored.length, good := stored.length = bs.length },
      m.write (s.first + s.pos) stored)
  else
    (s, m)

/-- A value that is written in pieces. -/
def writeAll : SpanStream → Memory α → List (List α) → SpanStream × Memory α
  | s, m, [] => (s, m)
  | s, m, bs :: pieces =>
    let (s, m) := s.write m bs
    writeAll s m pieces

/-- `tellp`: the position, -1 when the stream has failed. -/
def tellp : Int := if s.good then s.pos else -1

/-- `clear`. -/
def clear : SpanStream := { s with good := true }

/-- `seekp`: nothing when the stream has failed, and a position outside the span makes it fail. -/
def seekp (pos : Int) : SpanStream :=
  if s.good then
    if 0 ≤ pos ∧ pos ≤ s.size then { s with pos := pos.toNat } else { s with good := false }
  else
    s

/-- A failed stream stays as it is. -/
theorem writeAll_of_not_good {s : SpanStream} (h : s.good = false) (m : Memory α)
    (pieces : List (List α)) : s.writeAll m pieces = (s, m) := by
  induction pieces with
  | nil => rfl
  | cons bs pieces ih => simp [writeAll, write, h, ih]

/-- **What a value written in pieces leaves**: as much of the whole as fits, and a failed stream
    unless that is all. -/
theorem writeAll_eq {s : SpanStream} (hgood : s.good = true) (m : Memory α)
    (pieces : List (List α)) :
    s.writeAll m pieces =
      ({ s with pos := s.pos + min pieces.flatten.length s.room,
                good := pieces.flatten.length ≤ s.room },
        m.write (s.first + s.pos) (pieces.flatten.take s.room)) := by
  induction pieces generalizing s m with
  | nil =>
    obtain ⟨first, size, pos, good⟩ := s
    obtain rfl : good = true := hgood
    simp [writeAll]
  | cons bs pieces ih =>
    have hlen : (bs :: pieces).flatten.length = bs.length + pieces.flatten.length := by simp
    rw [writeAll]
    rcases le_or_gt bs.length s.room with hfit | hfull
    · -- The piece fits, and the rest goes behind it.
      have hwrite : s.write m bs = ({ s with pos := s.pos + bs.length, good := true },
          m.write (s.first + s.pos) bs) := by
        simp [write, hgood, List.take_of_length_le hfit]
      have hroom : ({ s with pos := s.pos + bs.length, good := true } : SpanStream).room =
          s.room - bs.length := by
        simp only [room]
        omega
      have htake : (bs :: pieces).flatten.take s.room =
          bs ++ pieces.flatten.take (s.room - bs.length) := by
        rw [List.flatten_cons, List.take_append, List.take_of_length_le hfit]
      rw [hwrite]
      simp only
      rw [ih rfl, hroom, htake, Memory.write_append, hlen]
      have hmin : s.pos + bs.length + min pieces.flatten.length (s.room - bs.length) =
          s.pos + min (bs.length + pieces.flatten.length) s.room := by omega
      have hle : (pieces.flatten.length ≤ s.room - bs.length) =
          (bs.length + pieces.flatten.length ≤ s.room) := by
        apply propext
        omega
      simp only [hmin, hle, Nat.add_assoc]
    · -- The piece does not fit, and nothing comes behind it.
      have hwrite : s.write m bs = ({ s with pos := s.pos + s.room, good := false },
          m.write (s.first + s.pos) (bs.take s.room)) := by
        have hstored : (bs.take s.room).length = s.room := by
          rw [List.length_take]
          omega
        simp [write, hgood, hstored, hfull.ne]
      have htake : (bs :: pieces).flatten.take s.room = bs.take s.room := by
        rw [List.flatten_cons, List.take_append_of_le_length hfull.le]
      rw [hwrite]
      simp only
      rw [writeAll_of_not_good rfl, htake, hlen]
      have hmin : min (bs.length + pieces.flatten.length) s.room = s.room := by omega
      have hno : ¬ bs.length + pieces.flatten.length ≤ s.room := by omega
      rw [hmin, decide_eq_false hno]

/-- Going back to a position in the span that the stream has had. -/
theorem seekp_clear {s : SpanStream} {pos : ℕ} (h : pos ≤ s.size) :
    s.clear.seekp pos = { s with pos := pos, good := true } := by
  simp [seekp, clear, h]

end SpanStream

end General
