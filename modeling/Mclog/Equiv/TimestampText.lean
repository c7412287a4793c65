import Mclog.Equiv.Basic
import Mclog.TextFormat

/-!
# The text of timestamps

A timestamp is printed as ten numerals of fixed widths with punctuation between them, the
`TimestampParts`.  Of such a text `sscanf` reads back the numbers (`scanTimestamp_text`), and the
civil time of them is the local time that was printed, so that `operator>>` gives back the timestamp
(`extract_text`).

`operator>>` takes much else: blanks and signs in the place of digits, days that the month does not
have, and times before the epoch, which wrap.  `print_extract_iff` says which texts it takes are
printed again as they were.
-/

namespace Mclog

open General Extractor

/-! ### Numerals of fixed width -/

theorem foldl_numeral (digits : Str) (num : Nat) :
    digits.foldl (fun num c => 10 * num + (c.toNat - 48)) num =
      num * 10 ^ digits.length + numeral digits := by
  unfold numeral
  induction digits generalizing num with
  | nil => simp
  | cons c digits ih =>
    rw [List.foldl_cons, List.foldl_cons, ih, ih (10 * 0 + _), List.length_cons, pow_succ]
    ring

theorem numeral_append (d e : Str) : numeral (d ++ e) = numeral d * 10 ^ e.length + numeral e := by
  show (d ++ e).foldl _ 0 = _
  rw [List.foldl_append, foldl_numeral]
  rfl

theorem numeral_cons (c : UInt8) (d : Str) :
    numeral (c :: d) = (c.toNat - 48) * 10 ^ d.length + numeral d := by
  have hone : numeral [c] = c.toNat - 48 := by simp [numeral]
  rw [← hone, ← numeral_append]
  rfl

theorem isdigit_iff {c : UInt8} : isdigit c = true ↔ 48 ≤ c.toNat ∧ c.toNat ≤ 57 := by
  unfold isdigit
  rw [Bool.and_eq_true, decide_eq_true_eq, decide_eq_true_eq, UInt8.le_iff_toNat_le,
    UInt8.le_iff_toNat_le]
  rfl

theorem numeral_lt {d : Str} (hd : ∀ c ∈ d, isdigit c = true) : numeral d < 10 ^ d.length := by
  induction d with
  | nil => simp [numeral]
  | cons c d ih =>
    have hc := isdigit_iff.mp (hd c List.mem_cons_self)
    have hlt := ih fun c' hc' => hd c' (List.mem_cons_of_mem _ hc')
    have hle : (c.toNat - 48) * 10 ^ d.length ≤ 9 * 10 ^ d.length :=
      Nat.mul_le_mul_right _ (by omega)
    rw [numeral_cons, List.length_cons, pow_succ]
    omega

/-- Digits of one width that stand for one number are the same. -/
theorem eq_of_numeral_eq {d e : Str} (hd : ∀ c ∈ d, isdigit c = true)
    (he : ∀ c ∈ e, isdigit c = true) (hlen : d.length = e.length) (h : numeral d = numeral e) :
    d = e := by
  induction d generalizing e with
  | nil => exact (List.eq_nil_of_length_eq_zero hlen.symm).symm
  | cons c d ih =>
    cases e with
    | nil => cases hlen
    | cons c' e =>
      have hlen' : d.length = e.length := Nat.succ_injective hlen
      rw [List.forall_mem_cons] at hd he
      have hc := isdigit_iff.mp hd.1
      have hc' := isdigit_iff.mp he.1
      have hlt := numeral_lt hd.2
      have hlt' := numeral_lt he.2
      rw [numeral_cons, numeral_cons, ← hlen'] at h
      rw [← hlen'] at hlt'
      have hpos : 0 < 10 ^ d.length := by positivity
      have hquot : c.toNat - 48 = c'.toNat - 48 := by
        have hdiv := congrArg (· / 10 ^ d.length) h
        rwa [Nat.mul_comm, Nat.mul_add_div hpos, Nat.div_eq_of_lt hlt, Nat.mul_comm (c'.toNat - 48),
          Nat.mul_add_div hpos, Nat.div_eq_of_lt hlt', add_zero, add_zero] at hdiv
      have hcc : c = c' := UInt8.toNat_inj.mp (by omega)
      subst hcc
      rw [ih hd.2 he.2 hlen' (by omega)]

theorem isdigit_padded {width n : Nat} {c : UInt8} (h : c ∈ padded width n) :
    isdigit c = true := by
  unfold padded at h
  rcases List.mem_append.mp h with hzero | hdigit
  · rw [List.eq_of_mem_replicate hzero]
    rfl
  · exact isdigit_decimal hdigit

theorem numeral_padded (width n : Nat) : numeral (padded width n) = n := by
  have hzeros : ∀ k, numeral (List.replicate k 48) = 0 := by
    intro k
    induction k with
    | zero => rfl
    | succ k ih =>
      rw [List.replicate_succ, numeral_cons, ih]
      simp
  unfold padded
  rw [numeral_append, hzeros, zero_mul, zero_add]
  exact foldl_decimal n

theorem length_decimal_le_iff {n width : Nat} (hwidth : 0 < width) :
    (decimal n).length ≤ width ↔ n < 10 ^ width := by
  unfold decimal
  split_ifs with hn
  · subst hn
    exact iff_of_true hwidth (by positivity)
  · rw [List.length_map, List.length_reverse, Nat.digits_length_le_iff (by norm_num)]

theorem length_padded {width n : Nat} (hwidth : 0 < width) (hn : n < 10 ^ width) :
    (padded width n).length = width := by
  have hle := (length_decimal_le_iff hwidth).mpr hn
  unfold padded
  rw [List.length_append, List.length_replicate]
  omega

/-- Digits are what their number is printed as. -/
theorem padded_numeral {d : Str} (hd : ∀ c ∈ d, isdigit c = true) (hlen : 0 < d.length) :
    padded d.length (numeral d) = d :=
  eq_of_numeral_eq (fun _ hc => isdigit_padded hc) hd (length_padded hlen (numeral_lt hd))
    (numeral_padded _ _)

theorem padded_append {w w' m n : Nat} (hw' : 0 < w') (hw : 0 < w) (hm : m < 10 ^ w)
    (hn : n < 10 ^ w') : padded w m ++ padded w' n = padded (w + w') (m * 10 ^ w' + n) := by
  have hlt : m * 10 ^ w' + n < 10 ^ (w + w') := by
    rw [pow_add]
    nlinarith
  apply eq_of_numeral_eq
  · intro c hc
    rcases List.mem_append.mp hc with h | h
    · exact isdigit_padded h
    · exact isdigit_padded h
  · exact fun c hc => isdigit_padded hc
  · rw [List.length_append, length_padded hw hm, length_padded hw' hn,
      length_padded (by omega) hlt]
  · rw [numeral_append, numeral_padded, numeral_padded, numeral_padded, length_padded hw' hn]

/-! ### Reading numerals -/

theorem isspace_of_isdigit {c : UInt8} (h : isdigit c = true) : isspace c = false := by
  rw [isdigit_iff] at h
  unfold isspace
  rw [Bool.or_eq_false_iff, beq_eq_false_iff_ne]
  refine ⟨?_, ?_⟩
  · rintro rfl
    exact absurd h.1 (by decide)
  · rw [Bool.and_eq_false_iff, decide_eq_false_iff_not, decide_eq_false_iff_not,
      UInt8.le_iff_toNat_le, UInt8.le_iff_toNat_le]
    have hthirteen : (13 : UInt8).toNat = 13 := rfl
    omega

/-- `%d` reads as many digits as are there for it. -/
theorem scanInt_digits {width : Nat} {d : Str} (hd : ∀ c ∈ d, isdigit c = true)
    (hlen : d.length = width) (hwidth : 0 < width) (rest : Str) :
    scanInt width (d ++ rest) = some ((numeral d : Int), rest) := by
  subst hlen
  cases d with
  | nil => exact absurd hwidth (by simp)
  | cons c d =>
    have hc := hd c List.mem_cons_self
    have hdrop : (c :: d ++ rest).dropWhile isspace = c :: d ++ rest := by
      apply dropWhile_of_head
      intro c' hc'
      obtain rfl : c = c' := Option.some.inj hc'
      exact isspace_of_isdigit hc
    have hne : ∀ s : UInt8, isdigit s = false → (c :: d ++ rest).head? ≠ some s := by
      intro s hs heq
      obtain rfl : c = s := Option.some.inj heq
      rw [hc] at hs
      cases hs
    have hminus := hne hyphen rfl
    have hplus := hne plus rfl
    have htake : (c :: d).takeWhile isdigit = c :: d := List.takeWhile_eq_self_iff.mpr hd
    unfold scanInt
    simp only [hdrop, hminus, hplus, or_self, if_false, List.take_left, htake]
    rw [if_neg (by simp), List.drop_left]

@[simp] theorem scanLiteral_cons (c : UInt8) (s : Str) : scanLiteral c (c :: s) = some s := by
  unfold scanLiteral
  exact if_pos rfl

/-! ### The parts of a timestamp -/

/-- Digits of a width. -/
def IsNumeral (width : Nat) (d : Str) : Prop := d.length = width ∧ ∀ c ∈ d, isdigit c = true

theorem isNumeral_padded {width n : Nat} (hwidth : 0 < width) (hn : n < 10 ^ width) :
    IsNumeral width (padded width n) :=
  ⟨length_padded hwidth hn, fun _ hc => isdigit_padded hc⟩

theorem IsNumeral.lt {width : Nat} {d : Str} (h : IsNumeral width d) :
    numeral d < 10 ^ width := by
  rw [← h.1]
  exact numeral_lt h.2

/-- Reading a numeral, and what is printed for its number. -/
theorem IsNumeral.padded_eq {width : Nat} {d : Str} (h : IsNumeral width d) (hwidth : 0 < width) :
    padded width (numeral d) = d := by
  obtain ⟨rfl, hd⟩ := h
  exact padded_numeral hd hwidth

/-- The numerals of a timestamp, and the sign of its offset. -/
structure TimestampParts where
  year : Str
  mon : Str
  mday : Str
  hour : Str
  min : Str
  sec : Str
  usecs : Str
  offsign : UInt8
  offhours : Str
  offmins : Str

namespace TimestampParts

variable (p : TimestampParts)

def text : Str :=
  p.year ++ hyphen :: (p.mon ++ hyphen :: (p.mday ++ 32 :: (p.hour ++ colon ::
    (p.min ++ colon :: (p.sec ++ dot :: (p.usecs ++ p.offsign :: (p.offhours ++ p.offmins)))))))

/-- The numerals have the widths of the format. -/
structure Shaped : Prop where
  year : IsNumeral 4 p.year
  mon : IsNumeral 2 p.mon
  mday : IsNumeral 2 p.mday
  hour : IsNumeral 2 p.hour
  min : IsNumeral 2 p.min
  sec : IsNumeral 2 p.sec
  usecs : IsNumeral 6 p.usecs
  offsign : p.offsign = hyphen ∨ p.offsign = plus
  offhours : IsNumeral 2 p.offhours
  offmins : IsNumeral 2 p.offmins

/-- The numbers that the numerals stand for. -/
def fields : TimestampFields where
  tms := ⟨numeral p.sec, numeral p.min, numeral p.hour, numeral p.mday, numeral p.mon,
    numeral p.year, 0⟩
  usecs := .ofInt (numeral p.usecs)
  offsign := p.offsign
  offhours := .ofInt (numeral p.offhours)
  offmins := .ofInt (numeral p.offmins)

variable {p}

theorem Shaped.length_text (h : p.Shaped) : p.text.length = 31 := by
  simp only [text, List.length_append, List.length_cons, h.year.1, h.mon.1, h.mday.1, h.hour.1,
    h.min.1, h.sec.1, h.usecs.1, h.offhours.1, h.offmins.1]

/-- The text ends no C string. -/
theorem Shaped.takeWhile_text (h : p.Shaped) : p.text.takeWhile (fun c => c ≠ 0) = p.text := by
  rw [List.takeWhile_eq_self_iff]
  intro c hc
  rw [decide_eq_true_eq]
  rintro rfl
  have hdigit : ∀ {w : Nat} {d : Str}, IsNumeral w d → (0 : UInt8) ∉ d :=
    fun hd hmem => absurd (hd.2 0 hmem) (by decide)
  have hsign : (0 : UInt8) ≠ p.offsign := by
    rcases h.offsign with hs | hs <;> rw [hs] <;> decide
  simp only [text, List.mem_append, List.mem_cons, hdigit h.year, hdigit h.mon, hdigit h.mday,
    hdigit h.hour, hdigit h.min, hdigit h.sec, hdigit h.usecs, hdigit h.offhours,
    hdigit h.offmins, hsign, false_or, or_false] at hc
  revert hc
  decide

/-- **`sscanf` reads the numerals.** -/
theorem Shaped.scanTimestamp_text (h : p.Shaped) : scanTimestamp p.text = some p.fields := by
  have hblank : ∀ rest : Str, (32 :: (p.hour ++ rest)).dropWhile isspace = p.hour ++ rest := by
    intro rest
    rw [List.dropWhile_cons_of_pos (by decide)]
    apply dropWhile_of_head
    intro c hc
    cases hhour : p.hour with
    | nil =>
      have hlen := h.hour.1
      rw [hhour] at hlen
      cases hlen
    | cons c' hour =>
      rw [hhour] at hc
      obtain rfl : c' = c := Option.some.inj hc
      exact isspace_of_isdigit (h.hour.2 c' (by rw [hhour]; exact List.mem_cons_self))
  have hlast : scanInt 2 p.offmins = some ((numeral p.offmins : Int), []) := by
    have happend := scanInt_digits h.offmins.2 h.offmins.1 (by norm_num) []
    rwa [List.append_nil] at happend
  have hread : ∀ {w : Nat} {d : Str}, IsNumeral w d → 0 < w → ∀ rest,
      scanInt w (d ++ rest) = some ((numeral d : Int), rest) :=
    fun hd hw rest => scanInt_digits hd.2 hd.1 hw rest
  unfold scanTimestamp text
  refine Option.bind_eq_some_iff.mpr ⟨_, hread h.year (by norm_num) _, ?_⟩
  refine Option.bind_eq_some_iff.mpr ⟨_, scanLiteral_cons _ _, ?_⟩
  refine Option.bind_eq_some_iff.mpr ⟨_, hread h.mon (by norm_num) _, ?_⟩
  refine Option.bind_eq_some_iff.mpr ⟨_, scanLiteral_cons _ _, ?_⟩
  refine Option.bind_eq_some_iff.mpr ⟨_, hread h.mday (by norm_num) _, ?_⟩
  refine Option.bind_eq_some_iff.mpr
    ⟨_, (congrArg (scanInt 2) (hblank _)).trans (hread h.hour (by norm_num) _), ?_⟩
  refine Option.bind_eq_some_iff.mpr ⟨_, scanLiteral_cons _ _, ?_⟩
  refine Option.bind_eq_some_iff.mpr ⟨_, hread h.min (by norm_num) _, ?_⟩
  refine Option.bind_eq_some_iff.mpr ⟨_, scanLiteral_cons _ _, ?_⟩
  refine Option.bind_eq_some_iff.mpr ⟨_, hread h.sec (by norm_num) _, ?_⟩
  refine Option.bind_eq_some_iff.mpr ⟨_, scanLiteral_cons _ _, ?_⟩
  refine Option.bind_eq_some_iff.mpr ⟨_, hread h.usecs (by norm_num) _, ?_⟩
  refine Option.bind_eq_some_iff.mpr ⟨_, List.head?_cons, ?_⟩
  refine Option.bind_eq_some_iff.mpr ⟨_, hread h.offhours (by norm_num) _, ?_⟩
  exact Option.bind_eq_some_iff.mpr ⟨_, hlast, rfl⟩

/-- The instant of the fields. -/
def instant (p : TimestampParts) : Int := p.fields.civil.timegm - p.fields.offsecs

theorem toNat_ofInt_numeral {w : Nat} {d : Str} (h : IsNumeral w d) (hw : 10 ^ w ≤ 2 ^ 32) :
    (UInt32.ofInt (numeral d)).toNat = numeral d := by
  have hlt : numeral d < 2 ^ 32 := h.lt.trans_le hw
  unfold UInt32.ofInt
  rw [UInt32.toNat_ofNat']
  omega

/-- What `ToMicroseconds` makes of numerals, as an unsigned number. -/
theorem Shaped.toMicroseconds_text (h : p.Shaped)
    (hnormal : isNormal p.fields.civil p.fields.offhours p.fields.offmins = true) :
    toMicroseconds p.text =
      .ofInt p.instant * 1000000 + (UInt32.ofInt (numeral p.usecs)).toUInt64 := by
  unfold toMicroseconds
  rw [h.scanTimestamp_text]
  show (if isNormal p.fields.civil p.fields.offhours p.fields.offmins = true then
    if p.offsign = hyphen ∨ p.offsign = plus then _ else _ else _) = _
  rw [if_pos hnormal, if_pos h.offsign]
  rfl

/-- An instant after the epoch does not wrap. -/
theorem Shaped.toNat_toMicroseconds (h : p.Shaped)
    (hnormal : isNormal p.fields.civil p.fields.offhours p.fields.offmins = true)
    (hpos : 0 ≤ p.instant) (hlt : p.instant * 1000000 + numeral p.usecs < 2 ^ 64) :
    ((toMicroseconds p.text).toNat : Int) = p.instant * 1000000 + numeral p.usecs := by
  have husecs := toNat_ofInt_numeral h.usecs (by norm_num)
  rw [h.toMicroseconds_text hnormal, UInt64.toNat_add, UInt64.toNat_mul, UInt32.toNat_toUInt64,
    husecs]
  have hinstant : ((UInt64.ofInt p.instant).toNat : Int) = p.instant := by
    unfold UInt64.ofInt
    rw [UInt64.toNat_ofNat']
    omega
  have hmillion : (1000000 : UInt64).toNat = 1000000 := rfl
  rw [hmillion]
  omega

/-! ### The parts that are printed -/

/-- The numerals of a timestamp, printed. -/
def printed (gmtoff : Int) (ts : Timestamp) : TimestampParts :=
  let ltm := Tm.gmtime (ts.secs + gmtoff)
  let mins := gmtoff.natAbs / 60
  { year := decimal (ltm.tm_year + 1900).toNat
    mon := padded 2 (ltm.tm_mon + 1).toNat
    mday := padded 2 ltm.tm_mday.toNat
    hour := padded 2 ltm.tm_hour.toNat
    min := padded 2 ltm.tm_min.toNat
    sec := padded 2 ltm.tm_sec.toNat
    usecs := padded 6 ts.fraction
    offsign := if gmtoff < 0 then hyphen else plus
    offhours := padded 2 (mins / 60)
    offmins := padded 2 (mins % 60) }

/-- An offset of the local time that can be printed: whole minutes, less than a day. -/
def IsOffset (gmtoff : Int) : Prop := gmtoff % 60 = 0 ∧ -86400 < gmtoff ∧ gmtoff < 86400

variable {gmtoff : Int} {ts : Timestamp}

theorem text_printed (h : IsOffset gmtoff) : (printed gmtoff ts).text = ts.text gmtoff := by
  have hzone : padded 2 (gmtoff.natAbs / 60 / 60) ++ padded 2 (gmtoff.natAbs / 60 % 60) =
      padded 4 (gmtoff.natAbs / 60 / 60 * 100 + gmtoff.natAbs / 60 % 60) := by
    obtain ⟨-, hlo, hhi⟩ := h
    exact padded_append (by norm_num) (by norm_num) (by omega) (by omega)
  unfold text Timestamp.text zoneText
  show _ = _ ++ hyphen :: (_ ++ hyphen :: (_ ++ 32 :: (_ ++ colon :: (_ ++ colon :: (_ ++ dot ::
    (_ ++ _ :: padded 4 (gmtoff.natAbs / 60 / 60 * 100 + gmtoff.natAbs / 60 % 60)))))))
  rw [← hzone]
  rfl

/-- The local year of a timestamp is not before 1969. -/
theorem year_ge (h : IsOffset gmtoff) (ts : Timestamp) :
    1969 ≤ (Tm.gmtime (ts.secs + gmtoff)).tm_year + 1900 := by
  have hday : (-1 : Int) ≤ (ts.secs + gmtoff) / 86400 := by
    obtain ⟨-, hlo, -⟩ := h
    omega
  have hmonth := Gregorian.monthOf_mono hday
  have heve : Gregorian.monthOf (-1) = 12 * 1969 + 11 := by decide
  show 1969 ≤ Gregorian.monthOf ((ts.secs + gmtoff) / 86400) / 12 - 1900 + 1900
  omega

theorem isNumeral_decimal {n : Nat} (hlo : 1000 ≤ n) (hhi : n < 10000) :
    IsNumeral 4 (decimal n) := by
  have hle := (length_decimal_le_iff (n := n) (show 0 < 4 by norm_num)).mpr (by omega)
  have hge := mt (length_decimal_le_iff (n := n) (show 0 < 3 by norm_num)).mp (by omega)
  exact ⟨by omega, fun _ hc => isdigit_decimal hc⟩

/-- What is printed has the widths of the format, unless the year is too large. -/
theorem shaped_printed (h : IsOffset gmtoff)
    (hyear : (Tm.gmtime (ts.secs + gmtoff)).tm_year + 1900 < 10000) :
    (printed gmtoff ts).Shaped := by
  have hge := year_ge h ts
  obtain ⟨-, hlo, hhi⟩ := h
  obtain ⟨hsec, hmin, hhour, hmday, hmon⟩ := Tm.civil_gmtime (ts.secs + gmtoff)
  have hlength := (Gregorian.monthLength_bounds (Tm.gmtime (ts.secs + gmtoff)).month).2
  have hfraction : ts.fraction < 1000000 := Nat.mod_lt _ (by norm_num)
  have htwo : ∀ {n : Nat}, n < 100 → IsNumeral 2 (padded 2 n) :=
    fun hn => isNumeral_padded (by norm_num) hn
  refine ⟨isNumeral_decimal (by omega) (by omega), htwo (by omega), htwo (by omega),
    htwo (by omega), htwo (by omega), htwo (by omega), isNumeral_padded (by norm_num) hfraction,
    ?_, htwo (by omega), htwo (by omega)⟩
  by_cases hneg : gmtoff < 0
  · exact Or.inl (if_pos hneg)
  · exact Or.inr (if_neg hneg)

/-- The numbers that are printed are those of the local time. -/
theorem civil_printed (h : IsOffset gmtoff) (ts : Timestamp) :
    (printed gmtoff ts).fields.civil =
      { Tm.gmtime (ts.secs + gmtoff) with tm_isdst := -1 } := by
  have hge := year_ge h ts
  obtain ⟨hsec, hmin, hhour, hmday, hmon⟩ := Tm.civil_gmtime (ts.secs + gmtoff)
  have hyear : numeral (decimal ((Tm.gmtime (ts.secs + gmtoff)).tm_year + 1900).toNat) =
      ((Tm.gmtime (ts.secs + gmtoff)).tm_year + 1900).toNat := foldl_decimal _
  unfold TimestampFields.civil fields printed
  simp only [numeral_padded, hyear]
  rw [Tm.mk.injEq]
  refine ⟨?_, ?_, ?_, ?_, ?_, ?_, rfl⟩ <;> omega

theorem toNat_offset_printed (h : IsOffset gmtoff) (ts : Timestamp) :
    (printed gmtoff ts).fields.offhours.toNat = gmtoff.natAbs / 60 / 60 ∧
      (printed gmtoff ts).fields.offmins.toNat = gmtoff.natAbs / 60 % 60 := by
  obtain ⟨-, hlo, hhi⟩ := h
  have hread : ∀ {n : Nat}, n < 100 → (UInt32.ofInt (numeral (padded 2 n))).toNat = n := by
    intro n hn
    rw [toNat_ofInt_numeral (isNumeral_padded (show 0 < 2 by norm_num) hn) (by norm_num),
      numeral_padded]
  exact ⟨hread (by omega), hread (by omega)⟩

theorem offsecs_printed (h : IsOffset gmtoff) (ts : Timestamp) :
    (printed gmtoff ts).fields.offsecs = gmtoff := by
  obtain ⟨hhours, hoffmins⟩ := toNat_offset_printed h ts
  obtain ⟨hmins, hlo, hhi⟩ := h
  have hsign : (printed gmtoff ts).fields.offsign = if gmtoff < 0 then hyphen else plus := rfl
  unfold TimestampFields.offsecs
  rw [hhours, hoffmins, hsign]
  by_cases hneg : gmtoff < 0
  · rw [if_pos hneg, if_pos rfl]
    omega
  · rw [if_neg hneg, if_neg (by decide)]
    omega

theorem isNormal_iff {tm : Tm} {offhours offmins : UInt32} :
    isNormal tm offhours offmins = true ↔
      (0 ≤ tm.tm_mon ∧ tm.tm_mon < 12) ∧ (0 < tm.tm_mday ∧ tm.tm_mday < 32) ∧
        (0 ≤ tm.tm_hour ∧ tm.tm_hour < 24) ∧ (0 ≤ tm.tm_min ∧ tm.tm_min < 60) ∧
        (0 ≤ tm.tm_sec ∧ tm.tm_sec < 60) ∧ offhours.toNat < 24 ∧ offmins.toNat < 60 := by
  have hhours : offhours < 24 ↔ offhours.toNat < 24 := UInt32.lt_iff_toNat_lt
  have hmins : offmins < 60 ↔ offmins.toNat < 60 := UInt32.lt_iff_toNat_lt
  unfold isNormal
  simp only [Bool.and_eq_true, decide_eq_true_eq, hhours, hmins, ge_iff_le, gt_iff_lt, and_assoc]

theorem isNormal_printed (h : IsOffset gmtoff) (ts : Timestamp) :
    isNormal (printed gmtoff ts).fields.civil (printed gmtoff ts).fields.offhours
      (printed gmtoff ts).fields.offmins = true := by
  obtain ⟨hsec, hmin, hhour, hmday, hmon⟩ := Tm.civil_gmtime (ts.secs + gmtoff)
  have hlength := (Gregorian.monthLength_bounds (Tm.gmtime (ts.secs + gmtoff)).month).2
  obtain ⟨hhours, hoffmins⟩ := toNat_offset_printed h ts
  rw [isNormal_iff, civil_printed h, hhours, hoffmins]
  obtain ⟨-, hlo, hhi⟩ := h
  have hday : 0 < (Tm.gmtime (ts.secs + gmtoff)).tm_mday ∧
      (Tm.gmtime (ts.secs + gmtoff)).tm_mday < 32 := by omega
  exact ⟨hmon, hday, hhour, hmin, hsec, by omega, by omega⟩

/-- The instant that is printed. -/
theorem instant_printed (h : IsOffset gmtoff) (ts : Timestamp) :
    (printed gmtoff ts).instant = ts.secs := by
  have hcivil : (printed gmtoff ts).fields.civil.timegm = ts.secs + gmtoff := by
    rw [civil_printed h]
    exact Tm.timegm_gmtime _
  unfold instant
  rw [hcivil, offsecs_printed h]
  omega

end TimestampParts

open TimestampParts

/-- **`ToMicroseconds` of what `operator<<` prints.** -/
theorem toMicroseconds_text {gmtoff : Int} (h : IsOffset gmtoff) {ts : Timestamp}
    (hyear : (Tm.gmtime (ts.secs + gmtoff)).tm_year + 1900 < 10000) :
    toMicroseconds (ts.text gmtoff) = ts.usecs := by
  have hshaped := shaped_printed h hyear
  have hlt := ts.usecs.toNat_lt
  have hfraction : numeral (printed gmtoff ts).usecs = ts.usecs.toNat % 1000000 :=
    numeral_padded _ _
  have hsecs : ((ts.secs : Nat) : Int) = ts.usecs.toNat / 1000000 := by
    unfold Timestamp.secs
    omega
  rw [← text_printed h]
  apply UInt64.toNat_inj.mp
  have hread := hshaped.toNat_toMicroseconds (isNormal_printed h ts)
    (by rw [instant_printed h]; omega) (by rw [instant_printed h, hfraction]; omega)
  rw [instant_printed h, hfraction] at hread
  omega

/-- `operator>>` of what `operator<<` prints. -/
theorem extract_printed {gmtoff : Int} (h : IsOffset gmtoff) {ts : Timestamp}
    (hpos : 0 < ts.usecs.toNat) (hyear : (Tm.gmtime (ts.secs + gmtoff)).tm_year + 1900 < 10000)
    (rest : Str) : Timestamp.extract (ts.text gmtoff ++ rest) = .ok (ts, rest) := by
  have hshaped := shaped_printed h hyear
  have hlength := hshaped.length_text
  have hcstring := hshaped.takeWhile_text
  rw [text_printed h] at hlength hcstring
  have hne : ts.usecs ≠ 0 := by
    rintro hzero
    rw [hzero] at hpos
    exact absurd hpos (by decide)
  unfold Timestamp.extract
  rw [bind_of_ok (exactly_append hlength rest)]
  simp only [hcstring, toMicroseconds_text h hyear, if_neg hne]
  rfl

/-- **The text of a timestamp** has 31 characters, and `operator>>` reads it back, whatever follows
    it.  The local time is any whole number of minutes ahead of UTC or behind it, less than a day. -/
theorem extract_text (gmtoff : Int) (ts : Timestamp) (rest : Str)
    (hmins : gmtoff % 60 = 0) (hday : -86400 < gmtoff ∧ gmtoff < 86400) (hpos : 0 < ts.usecs.toNat)
    (hyear : ((Calendar.fixedOffset gmtoff).localtime ts.secs).tm_year + 1900 < 10000) :
    (ts.text gmtoff).length = 31 ∧
      Timestamp.extract (ts.text gmtoff ++ rest) = .ok (ts, rest) := by
  have hoffset : IsOffset gmtoff := ⟨hmins, hday⟩
  refine ⟨?_, extract_printed hoffset hpos hyear rest⟩
  rw [← text_printed hoffset]
  exact (shaped_printed hoffset hyear).length_text

/-- A minute before 1970 in a time zone half an hour behind. -/
theorem extract_text_behind :
    ((⟨1740000001⟩ : Timestamp).text (-1800)).length = 31 ∧
      Timestamp.extract ((⟨1740000001⟩ : Timestamp).text (-1800) ++ str " user") =
        .ok (⟨1740000001⟩, str " user") :=
  extract_text (-1800) ⟨1740000001⟩ (str " user") (by decide) (by decide) (by decide) (by decide)

/-! ### Printing what was read -/

namespace TimestampParts

/-- The offset of the numerals. -/
def offset (p : TimestampParts) : Int :=
  let offsecs : Int := numeral p.offhours * 3600 + numeral p.offmins * 60
  if p.offsign = hyphen then -offsecs else offsecs

/-- The month of the numerals. -/
def month (p : TimestampParts) : Int := 12 * numeral p.year + (numeral p.mon - 1)

/-- The numerals are those of some timestamp: the month has that day, the time is not before the
    epoch, and no offset is said to be zero hours behind UTC. -/
structure Printable (p : TimestampParts) : Prop extends p.Shaped where
  mday_le : numeral p.mday ≤ Gregorian.monthLength p.month
  epoch : p.offset ≤ 86400 * (Gregorian.monthStart p.month + (numeral p.mday - 1)) +
    3600 * numeral p.hour + 60 * numeral p.min + numeral p.sec
  ahead : p.offsign = hyphen → 0 < numeral p.offhours + numeral p.offmins

variable {p : TimestampParts} {gmtoff : Int} {ts : Timestamp}

theorem month_civil (p : TimestampParts) : p.fields.civil.month = p.month := by
  show (12 * ((numeral p.year : Int) - 1900 + 1900) + (numeral p.mon - 1)) = p.month
  unfold month
  omega

theorem timegm_civil (p : TimestampParts) :
    p.fields.civil.timegm = 86400 * (Gregorian.monthStart p.month + (numeral p.mday - 1)) +
      3600 * numeral p.hour + 60 * numeral p.min + numeral p.sec := by
  rw [← month_civil]
  rfl

theorem Shaped.toNat_offset (h : p.Shaped) :
    p.fields.offhours.toNat = numeral p.offhours ∧ p.fields.offmins.toNat = numeral p.offmins :=
  ⟨toNat_ofInt_numeral h.offhours (by norm_num), toNat_ofInt_numeral h.offmins (by norm_num)⟩

theorem Shaped.offsecs_fields (h : p.Shaped) : p.fields.offsecs = p.offset := by
  unfold TimestampFields.offsecs offset
  rw [h.toNat_offset.1, h.toNat_offset.2]
  rfl

theorem Printable.instant_nonneg (h : p.Printable) : 0 ≤ p.instant := by
  have hepoch := h.epoch
  unfold instant
  rw [timegm_civil, h.offsecs_fields]
  omega

/-- Four digits of a year keep the microseconds below 2^64. -/
theorem Shaped.instant_lt (h : p.Shaped) : p.instant < 2 ^ 40 := by
  have hyear := h.year.lt
  have hmon := h.mon.lt
  have hmday := h.mday.lt
  have hhour := h.hour.lt
  have hmin := h.min.lt
  have hsec := h.sec.lt
  have hoffhours := h.offhours.lt
  have hoffmins := h.offmins.lt
  have hmonth : p.month ≤ 12 * 10010 := by
    unfold month
    omega
  have hstart : Gregorian.monthStart p.month ≤ Gregorian.monthStart (12 * 10010) :=
    Gregorian.monthStart_strictMono.monotone hmonth
  have hend : Gregorian.monthStart (12 * 10010) ≤ 3000000 := by decide
  unfold instant
  rw [timegm_civil, h.offsecs_fields]
  unfold offset
  dsimp only
  split_ifs <;> omega

theorem Shaped.isOffset_offset (h : p.Shaped)
    (hnormal : isNormal p.fields.civil p.fields.offhours p.fields.offmins = true) :
    IsOffset p.offset := by
  obtain ⟨-, -, -, -, -, hhours, hmins⟩ := isNormal_iff.mp hnormal
  rw [h.toNat_offset.1] at hhours
  rw [h.toNat_offset.2] at hmins
  unfold IsOffset offset
  dsimp only
  split_ifs <;> omega

theorem Printable.civil (h : p.Printable)
    (hnormal : isNormal p.fields.civil p.fields.offhours p.fields.offmins = true) :
    p.fields.civil.Civil := by
  obtain ⟨hmon, hmday, hhour, hmin, hsec, -, -⟩ := isNormal_iff.mp hnormal
  refine ⟨hsec, hmin, hhour, ⟨?_, ?_⟩, hmon⟩
  · show 1 ≤ p.fields.civil.tm_mday
    omega
  · rw [month_civil]
    exact h.mday_le

theorem length_text_printed (h : IsOffset gmtoff) (ts : Timestamp) :
    (printed gmtoff ts).text.length = (printed gmtoff ts).year.length + 27 := by
  obtain ⟨hsec, hmin, hhour, hmday, hmon⟩ := Tm.civil_gmtime (ts.secs + gmtoff)
  have hlength := (Gregorian.monthLength_bounds (Tm.gmtime (ts.secs + gmtoff)).month).2
  have hfraction : ts.fraction < 10 ^ 6 := Nat.mod_lt _ (by norm_num)
  have htwo : ∀ {n : Nat}, n < 100 → (padded 2 n).length = 2 :=
    fun hn => length_padded (by norm_num) hn
  obtain ⟨-, hlo, hhi⟩ := h
  simp only [text, printed, List.length_append, List.length_cons,
    length_padded (show 0 < 6 by norm_num) hfraction]
  rw [htwo (by omega), htwo (by omega), htwo (by omega), htwo (by omega), htwo (by omega),
    htwo (by omega), htwo (by omega)]

theorem printable_printed (h : IsOffset gmtoff)
    (hyear : (Tm.gmtime (ts.secs + gmtoff)).tm_year + 1900 < 10000) :
    (printed gmtoff ts).Printable := by
  have hshaped := shaped_printed h hyear
  have hcivil := civil_printed h ts
  have hmonth : (printed gmtoff ts).month = (Tm.gmtime (ts.secs + gmtoff)).month := by
    rw [← month_civil, hcivil]
    rfl
  refine ⟨hshaped, ?_, ?_, ?_⟩
  · have hmday := (Tm.civil_gmtime (ts.secs + gmtoff)).mday.2
    have heq : (numeral (printed gmtoff ts).mday : Int) = (Tm.gmtime (ts.secs + gmtoff)).tm_mday :=
      congrArg Tm.tm_mday hcivil
    rw [heq, hmonth]
    exact hmday
  · have hinstant := instant_printed h ts
    unfold instant at hinstant
    rw [timegm_civil, hshaped.offsecs_fields] at hinstant
    omega
  · intro hsign
    have hneg : gmtoff < 0 := by
      by_contra hpos
      have hplus : (printed gmtoff ts).offsign = plus := if_neg hpos
      rw [hplus] at hsign
      exact absurd hsign (by decide)
    have hoff := hshaped.offsecs_fields
    rw [offsecs_printed h] at hoff
    unfold offset at hoff
    dsimp only at hoff
    rw [if_pos hsign] at hoff
    omega

/-- **The numerals that are read are printed again.** -/
theorem Printable.printed_eq (h : p.Printable)
    (hnormal : isNormal p.fields.civil p.fields.offhours p.fields.offmins = true) :
    printed p.offset ⟨toMicroseconds p.text⟩ = p := by
  -- The instant read is that of the numerals, so that its local time is the civil time they say.
  have hoffset := h.isOffset_offset hnormal
  have hinstant := h.instant_nonneg
  have hfraction : numeral p.usecs < 10 ^ 6 := h.usecs.lt
  have husecs := h.toNat_toMicroseconds hnormal hinstant (by have := h.instant_lt; omega)
  have hsecs : (((⟨toMicroseconds p.text⟩ : Timestamp).secs : Nat) : Int) = p.instant := by
    unfold Timestamp.secs
    dsimp only
    omega
  have htime : ((⟨toMicroseconds p.text⟩ : Timestamp).secs : Int) + p.offset =
      p.fields.civil.timegm := by
    rw [hsecs, instant, h.offsecs_fields]
    omega
  have hgmtime := Tm.gmtime_timegm (h.civil hnormal)
  have hyear := year_ge hoffset ⟨toMicroseconds p.text⟩
  rw [htime, hgmtime] at hyear
  have hyear' : ((numeral p.year : Int) - 1900 + 1900).toNat = numeral p.year := by omega
  have hmon : ((numeral p.mon : Int) - 1 + 1).toNat = numeral p.mon := by omega
  -- A year is printed without zeros in front; the years of timestamps have none.
  have hdecimal : decimal (numeral p.year) = p.year := by
    have hlt := h.year.lt
    have hge : 1000 ≤ numeral p.year := by
      have hge : (1969 : Int) ≤ (numeral p.year : Int) - 1900 + 1900 := hyear
      omega
    have hnumeral := isNumeral_decimal hge hlt
    exact eq_of_numeral_eq hnumeral.2 h.year.2 (hnumeral.1.trans h.year.1.symm) (foldl_decimal _)
  have htwo : ∀ {d : Str}, IsNumeral 2 d → padded 2 (numeral d) = d :=
    fun hd => hd.padded_eq (by norm_num)
  have hlast : (⟨toMicroseconds p.text⟩ : Timestamp).fraction = numeral p.usecs := by
    unfold Timestamp.fraction
    dsimp only
    omega
  have habs : p.offset.natAbs = numeral p.offhours * 3600 + numeral p.offmins * 60 := by
    unfold offset
    dsimp only
    split_ifs <;> omega
  have hmins : numeral p.offmins < 60 := by
    rw [← h.toNat_offset.2]
    exact (isNormal_iff.mp hnormal).2.2.2.2.2.2
  -- The sign of the offset: one of zero has a plus.
  have hsign : (if p.offset < 0 then hyphen else plus) = p.offsign := by
    have hahead := h.ahead
    rcases h.offsign with hs | hs
    · rw [if_pos, hs]
      unfold offset
      dsimp only
      rw [if_pos hs]
      have := hahead hs
      omega
    · rw [if_neg, hs]
      unfold offset
      dsimp only
      rw [if_neg (by rw [hs]; decide)]
      omega
  unfold printed
  rw [htime, hgmtime, mk.injEq]
  refine ⟨?_, ?_, htwo h.mday, htwo h.hour, htwo h.min, htwo h.sec, ?_, hsign, ?_, ?_⟩
  · show decimal ((numeral p.year : Int) - 1900 + 1900).toNat = p.year
    rw [hyear', hdecimal]
  · show padded 2 ((numeral p.mon : Int) - 1 + 1).toNat = p.mon
    rw [hmon, htwo h.mon]
  · rw [hlast, h.usecs.padded_eq (by norm_num)]
  · rw [habs]
    have hdiv : (numeral p.offhours * 3600 + numeral p.offmins * 60) / 60 / 60 =
        numeral p.offhours := by omega
    rw [hdiv, htwo h.offhours]
  · rw [habs]
    have hmod : (numeral p.offhours * 3600 + numeral p.offmins * 60) / 60 % 60 =
        numeral p.offmins := by omega
    rw [hmod, htwo h.offmins]

end TimestampParts

/-- A year of five digits is not read: the fifth stands where a hyphen has to. -/
theorem extract_of_late {gmtoff : Int} {ts : Timestamp}
    (hyear : 10000 ≤ (Tm.gmtime (ts.secs + gmtoff)).tm_year + 1900) (rest : Str) :
    Timestamp.extract (ts.text gmtoff ++ rest) = .error .failbit := by
  obtain ⟨t, ht⟩ : ∃ t, ts.text gmtoff =
      decimal ((Tm.gmtime (ts.secs + gmtoff)).tm_year + 1900).toNat ++ t := ⟨_, rfl⟩
  have hdigits : ∀ c ∈ decimal ((Tm.gmtime (ts.secs + gmtoff)).tm_year + 1900).toNat,
      isdigit c = true := fun _ hc => isdigit_decimal hc
  have hlong : 4 < (decimal ((Tm.gmtime (ts.secs + gmtoff)).tm_year + 1900).toNat).length := by
    by_contra hle
    have hlt := (length_decimal_le_iff (show 0 < 4 by norm_num)).mp (Nat.not_lt.mp hle)
    omega
  generalize decimal ((Tm.gmtime (ts.secs + gmtoff)).tm_year + 1900).toNat = d at ht hdigits hlong
  obtain ⟨year, c, d', rfl, hyear4⟩ : ∃ year c d', d = year ++ c :: d' ∧ year.length = 4 :=
    ⟨d.take 4, d[4], d.drop 5, by rw [← List.drop_eq_getElem_cons hlong, List.take_append_drop],
      by rw [List.length_take]; omega⟩
  have hc : isdigit c = true := hdigits c (by simp)
  have hyeardigits : ∀ a ∈ year, isdigit a = true :=
    fun a ha => hdigits a (List.mem_append_left _ ha)
  -- What the buffer holds, as a C string.
  have hcstring : ∃ y, ((year ++ c :: (d' ++ t ++ rest)).take 31).takeWhile (fun a => a ≠ 0) =
      year ++ c :: y := by
    refine ⟨((d' ++ t ++ rest).take 26).takeWhile fun a => a ≠ 0, ?_⟩
    have hnonzero : ∀ {a : UInt8}, isdigit a = true → decide (a ≠ 0) = true := by
      intro a ha
      rw [decide_eq_true_eq]
      rintro rfl
      cases ha
    rw [List.take_append, hyear4, List.take_of_length_le (by omega),
      List.takeWhile_append_of_pos fun a ha => hnonzero (hyeardigits a ha)]
    have hhead := List.takeWhile_cons_of_pos (p := fun a => decide (a ≠ 0))
      (l := (d' ++ t ++ rest).take 26) (hnonzero hc)
    rw [← hhead]
    rfl
  obtain ⟨y, hy⟩ := hcstring
  have hscan : scanTimestamp (year ++ c :: y) = none := by
    have hne : c ≠ hyphen := by
      rintro rfl
      cases hc
    have hliteral : scanLiteral hyphen (c :: y) = none := if_neg (by simpa using hne)
    cases hscan : scanTimestamp (year ++ c :: y) with
    | none => rfl
    | some f =>
      unfold scanTimestamp at hscan
      obtain ⟨p, hp, hscan⟩ := Option.bind_eq_some_iff.mp hscan
      rw [scanInt_digits hyeardigits hyear4 (by norm_num)] at hp
      obtain rfl := Option.some.inj hp
      obtain ⟨s, hs, -⟩ := Option.bind_eq_some_iff.mp hscan
      rw [hliteral] at hs
      cases hs
  have hzero : toMicroseconds (year ++ c :: y) = 0 := by
    unfold toMicroseconds
    rw [hscan]
  unfold Timestamp.extract
  cases hbuf : exactly 31 (ts.text gmtoff ++ rest) with
  | error e =>
    rw [bind_of_error hbuf]
    unfold exactly at hbuf
    split_ifs at hbuf
    cases hbuf
    rfl
  | ok p =>
    unfold exactly at hbuf
    split_ifs at hbuf with hlen
    rw [bind_of_ok (if_pos hlen), ht]
    have hassoc : year ++ c :: d' ++ t ++ rest = year ++ c :: (d' ++ t ++ rest) := by simp
    simp only [hassoc, hy, hzero, if_pos]
    rfl

/-- What `ToMicroseconds` takes. -/
theorem toMicroseconds_ne_zero {s : Str} (h : toMicroseconds s ≠ 0) :
    ∃ f, scanTimestamp s = some f ∧ isNormal f.civil f.offhours f.offmins = true ∧
      (f.offsign = hyphen ∨ f.offsign = plus) := by
  unfold toMicroseconds at h
  cases hscan : scanTimestamp s with
  | none =>
    rw [hscan] at h
    exact absurd rfl h
  | some f =>
    rw [hscan] at h
    by_cases hnormal : isNormal f.civil f.offhours f.offmins = true
    · by_cases hsign : f.offsign = hyphen ∨ f.offsign = plus
      · exact ⟨f, rfl, hnormal, hsign⟩
      · dsimp only at h
        rw [if_pos hnormal, if_neg hsign] at h
        exact absurd rfl h
    · dsimp only at h
      rw [if_neg hnormal] at h
      exact absurd rfl h

theorem Timestamp.extract_eq_ok_iff {s rest : Str} {ts : Timestamp} :
    Timestamp.extract s = .ok (ts, rest) ↔
      31 ≤ s.length ∧ rest = s.drop 31 ∧ ts.usecs ≠ 0 ∧
        ts.usecs = toMicroseconds ((s.take 31).takeWhile fun c => c ≠ 0) := by
  unfold Timestamp.extract
  rw [bind_eq_ok_iff]
  constructor
  · rintro ⟨buf, mid, hbuf, h⟩
    unfold exactly at hbuf
    split_ifs at hbuf with hlen
    obtain ⟨rfl, rfl⟩ := Prod.mk.inj (Except.ok.inj hbuf)
    split_ifs at h with hzero
    · cases h
    · obtain ⟨rfl, rfl⟩ := Prod.mk.inj (Except.ok.inj h)
      exact ⟨hlen, rfl, hzero, rfl⟩
  · rintro ⟨hlen, rfl, hzero, husecs⟩
    refine ⟨s.take 31, s.drop 31, if_pos hlen, ?_⟩
    rw [← husecs, if_neg hzero]
    rfl

/-- The offset that a text says, in seconds. -/
def writtenOffset (s : Str) : Option Int :=
  (scanTimestamp (s.takeWhile fun c => c ≠ 0)).map TimestampFields.offsecs

/-- **Which texts that `operator>>` takes are printed again as they were**, at the offset that they
    say: those made of the numerals of a timestamp. -/
theorem print_extract_iff {s : Str} {ts : Timestamp} {gmtoff : Int}
    (h : Timestamp.extract s = .ok (ts, [])) (hoffset : writtenOffset s = some gmtoff) :
    ts.text gmtoff = s ↔ ∃ p : TimestampParts, p.Printable ∧ p.text = s := by
  obtain ⟨hlen, hrest, hne, husecs⟩ := Timestamp.extract_eq_ok_iff.mp h
  have hlength : s.length = 31 := by
    have hdrop := congrArg List.length hrest
    rw [List.length_drop, List.length_nil] at hdrop
    omega
  rw [List.take_of_length_le hlength.le] at husecs
  rw [husecs] at hne
  obtain ⟨f, hscan, hnormal, -⟩ := toMicroseconds_ne_zero hne
  have hgmtoff : f.offsecs = gmtoff := by
    unfold writtenOffset at hoffset
    rw [hscan] at hoffset
    exact Option.some.inj hoffset
  constructor
  · -- The parts are those that are printed.
    intro hprint
    have hmins : IsOffset gmtoff := by
      obtain ⟨-, -, -, -, -, hhours, hmins⟩ := isNormal_iff.mp hnormal
      rw [← hgmtoff]
      unfold IsOffset TimestampFields.offsecs
      dsimp only
      split_ifs <;> omega
    have htext : (printed gmtoff ts).text = s := (text_printed hmins).trans hprint
    have hyear : (Tm.gmtime (ts.secs + gmtoff)).tm_year + 1900 < 10000 := by
      -- The other parts take 27 of the 31 characters.
      have hfour := length_text_printed hmins ts
      rw [htext, hlength] at hfour
      have hlt : ((Tm.gmtime (ts.secs + gmtoff)).tm_year + 1900).toNat < 10 ^ 4 := by
        apply (length_decimal_le_iff (by norm_num)).mp
        show (printed gmtoff ts).year.length ≤ 4
        omega
      omega
    exact ⟨printed gmtoff ts, printable_printed hmins hyear, htext⟩
  · rintro ⟨p, hp, rfl⟩
    rw [hp.takeWhile_text] at husecs hscan
    have hfields : f = p.fields := Option.some.inj (hscan.symm.trans hp.scanTimestamp_text)
    subst hfields
    have hoff : p.offset = gmtoff := by rw [← hp.offsecs_fields, hgmtoff]
    have hts : ts = ⟨toMicroseconds p.text⟩ := by rw [← husecs]
    rw [← text_printed (hoff ▸ hp.isOffset_offset hnormal), hts, ← hoff, hp.printed_eq hnormal]

/-- The last day of February 2024. -/
theorem print_extract_iff_leap :
    (⟨1709208000000000⟩ : Timestamp).text 0 = str "2024-02-29 12:00:00.000000+0000" ↔
      ∃ p : TimestampParts, p.Printable ∧ p.text = str "2024-02-29 12:00:00.000000+0000" :=
  print_extract_iff (by decide) (by decide)

/-- A day that February does not have is taken, as one in March. -/
theorem takes_impossible_date :
    ¬∀ (s : Str) (ts : Timestamp) (gmtoff : Int), Timestamp.extract s = .ok (ts, []) →
      writtenOffset s = some gmtoff → ts.text gmtoff = s := by
  intro h
  have hprint := h (str "2026-02-30 12:00:00.000000+0000") ⟨1772452800000000⟩ 0 (by decide)
    (by decide)
  exact absurd hprint (by decide)

end Mclog
