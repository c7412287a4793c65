import Mclog.Equiv.LogPathCache
import Mclog.RegexReplace

/-!
# When path substitution is literal

`boostRegexReplace` drops a name that starts with a digit, as the digit is read into the number of
the conditional the name stands in (`formatsConditionals_boostRegexReplace`).  The path of a message
is then the pattern with the names inserted exactly when no name the pattern refers to starts with
a digit and the cached facility is the message's own (`logPaths_literal_iff`).

That a dropped or a wrong name cannot go unnoticed is a counting argument: no text of the names has
more of any character than its replacement, so texts of the same count have the same count at each
reference (`countP_substitute`).
-/

namespace Mclog

/-! ### The format string -/

section

variable (took : Nat → Bool)

/-- The text of a conditional is emitted as a whole or left out as a whole. -/
theorem formatAll_text (emit : Bool) {name : Str} (hclose : (41 : UInt8) ∉ name)
    (hcolon : (58 : UInt8) ∉ name) (rest : Str) :
    formatAll took (.text emit) (name ++ 41 :: rest) =
      (if emit then name else []) ++ formatAll took .outside rest := by
  induction name with
  | nil => cases emit <;> simp [formatAll, formatStep, textStep]
  | cons c name ih =>
    simp only [List.mem_cons, not_or] at hclose hcolon
    have hstep : formatStep took (.text emit) c = (.text emit, if emit then [c] else []) := by
      rw [formatStep, textStep, if_neg (Ne.symm hclose.1), if_neg (Ne.symm hcolon.1)]
    rw [List.cons_append, formatAll, hstep]
    show (if emit then [c] else []) ++ formatAll took (.text emit) (name ++ 41 :: rest) = _
    rw [ih hclose.2 hcolon.2]
    cases emit <;> rfl

/-- A name behind the number of a conditional.  Its first character is read into the number when it
    is a digit. -/
theorem formatAll_number (n : Nat) {name : Str} (hne : name ≠ []) (hclose : (41 : UInt8) ∉ name)
    (hcolon : (58 : UInt8) ∉ name) (htook : ∀ m, 10 ≤ m → took m = false) (hn : 1 ≤ n)
    (rest : Str) :
    formatAll took (.number 1 n) (name ++ 41 :: rest) =
      (if took n then emitted name else []) ++ formatAll took .outside rest := by
  obtain ⟨c, name, rfl⟩ := List.exists_cons_of_ne_nil hne
  by_cases hdigit : isdigit c = true
  · -- The number has two digits, and there is no such sub-expression.
    have hstep : formatStep took (.number 1 n) c = (.number 2 (10 * n + (c.toNat - 48)), []) := by
      rw [formatStep, if_pos ⟨hdigit, by omega⟩]
    have hemitted : emitted (c :: name) = [] := by simp [emitted, hdigit]
    have hoff : took (10 * n + (c.toNat - 48)) = false := htook _ (by omega)
    rw [List.cons_append, formatAll, hstep, hemitted, ite_self, List.nil_append]
    show formatAll took (.number 2 (10 * n + (c.toNat - 48))) (name ++ 41 :: rest) = _
    have htext : ∀ s, formatAll took (.number 2 (10 * n + (c.toNat - 48))) s =
        formatAll took (.text false) s := by
      intro s
      cases s with
      | nil => rfl
      | cons d s =>
        have hnot : ¬ (isdigit d = true ∧ 2 < 2) := by omega
        simp only [formatAll, formatStep, if_neg hnot, hoff, OfNat.ofNat_ne_zero, if_false]
    simp only [List.mem_cons, not_or] at hclose hcolon
    rw [htext, formatAll_text took false hclose.2 hcolon.2]
    rfl
  · have hemitted : emitted (c :: name) = c :: name := by simp [emitted, hdigit]
    have hnot : ¬ (isdigit c = true ∧ 1 < 2) := fun h => hdigit h.1
    have hstep : formatStep took (.number 1 n) c = formatStep took (.text (took n)) c := by
      simp only [formatStep, if_neg hnot, one_ne_zero, if_false]
    have htext := formatAll_text took (took n) hclose hcolon rest
    rw [List.cons_append, formatAll] at htext ⊢
    rw [hstep, hemitted]
    exact htext

end

/-- No valid name has a `')'` or a `':'`. -/
theorem notMem_of_isValidName {ok : UInt8 → Bool} {c : UInt8} (hok : ok c = false) {s : Str}
    (hs : isValidName ok s = true) : c ∉ s := by
  intro hmem
  simpa [hok] using ((isValidName_iff ok s).mp hs).2 c hmem

/-- The format string of `LogPath` emits, for a match, the name of the sub-expression that took
    part, if it does not start with a digit. -/
theorem formatAll_replacement {h a : Str} (hh : isValidHostname h = true)
    (ha : isValidAppName a = true) (facility : Facility) (took : Nat → Bool)
    (htook : ∀ m, 10 ≤ m → took m = false) :
    formatAll took .outside (replacement h a (facilityName facility)) =
      (if took 1 then emitted h else []) ++ ((if took 2 then emitted a else []) ++
        if took 3 then facilityName facility else []) := by
  have hf : facilityName facility ≠ [] ∧ (41 : UInt8) ∉ facilityName facility ∧
      (58 : UInt8) ∉ facilityName facility ∧
      emitted (facilityName facility) = facilityName facility := by
    have htable : ∀ name ∈ str "unknown" :: g_facilities.map Prod.snd,
        name ≠ [] ∧ (41 : UInt8) ∉ name ∧ (58 : UInt8) ∉ name ∧ emitted name = name := by decide
    exact htable _ (facilityName_mem facility)
  obtain ⟨hne, hclose, hcolon, hfacility⟩ := hf
  have hsplit : replacement h a (facilityName facility) =
      40 :: 63 :: 49 :: (h ++ 41 :: (40 :: 63 :: 50 :: (a ++ 41 :: (40 :: 63 :: 51 ::
        (facilityName facility ++ 41 :: []))))) := by
    have h₁ : str "(?1" = [40, 63, 49] := by decide
    have h₂ : str ")(?2" = [41, 40, 63, 50] := by decide
    have h₃ : str ")(?3" = [41, 40, 63, 51] := by decide
    have h₄ : str ")" = [41] := by decide
    simp [replacement, h₁, h₂, h₃, h₄]
  -- The three characters that open a conditional.
  have hopen : ∀ (k : UInt8) (s : Str), isdigit k = true →
      formatAll took .outside (40 :: 63 :: k :: s) =
        formatAll took (.number 1 (10 * 0 + (k.toNat - 48))) s := by
    intro k s hk
    simp [formatAll, formatStep, hk]
  rw [hsplit, hopen 49 _ (by decide),
    formatAll_number took _ ((isValidName_iff _ _).mp hh).1 (notMem_of_isValidName (by decide) hh)
      (notMem_of_isValidName (by decide) hh) htook (by decide),
    hopen 50 _ (by decide),
    formatAll_number took _ ((isValidName_iff _ _).mp ha).1 (notMem_of_isValidName (by decide) ha)
      (notMem_of_isValidName (by decide) ha) htook (by decide),
    hopen 51 _ (by decide), formatAll_number took _ hne hclose hcolon htook (by decide), hfacility]
  show _ = _ ++ (_ ++ _)
  rw [show formatAll took .outside [] = [] from rfl, List.append_nil]
  rfl

/-- **Boost's `regex_replace`** formats the three conditionals. -/
theorem formatsConditionals_boostRegexReplace : FormatsConditionals boostRegexReplace := by
  intro pattern h a facility hh ha
  have hformat : ∀ n, 1 ≤ n → n ≤ 3 →
      formatAll (fun k => decide (k = 0 ∨ k = n)) .outside
          (replacement h a (facilityName facility)) =
        (if n = 1 then emitted h else []) ++ ((if n = 2 then emitted a else []) ++
          if n = 3 then facilityName facility else []) := by
    intro n hn hn'
    rw [formatAll_replacement hh ha facility _ (fun m hm => by simp; omega)]
    simp [eq_comm]
  induction pattern using substitute.induct with
  | case1 => rfl
  | case2 c => rfl
  | case3 c d rest hc ih =>
    have hsub : subExpression c d = some 1 := if_pos hc
    rw [boostRegexReplace, hsub, substitute, if_pos hc, ← ih]
    simp only [hformat 1 (by omega) (by omega)]
    simp
  | case4 c d rest hn hc ih =>
    have hsub : subExpression c d = some 2 := by rw [subExpression, if_neg hn, if_pos hc]
    rw [boostRegexReplace, hsub, substitute, if_neg hn, if_pos hc, ← ih]
    simp only [hformat 2 (by omega) (by omega)]
    simp
  | case5 c d rest hn hn' hc ih =>
    have hsub : subExpression c d = some 3 := by
      rw [subExpression, if_neg hn, if_neg hn', if_pos hc]
    rw [boostRegexReplace, hsub, substitute, if_neg hn, if_neg hn', if_pos hc, ← ih]
    simp only [hformat 3 (by omega) (by omega)]
    simp
  | case6 c d rest h₁ h₂ h₃ ih =>
    have hsub : subExpression c d = none := by
      rw [subExpression, if_neg h₁, if_neg h₂, if_neg h₃]
    rw [boostRegexReplace, hsub, substitute, if_neg h₁, if_neg h₂, if_neg h₃, ← ih]

/-! ### The pieces of a pattern -/

/-- A piece of a pattern: a character, or a reference to a sub-expression. -/
inductive Piece
  | plain (c : UInt8)
  | reference (n : Nat)
deriving DecidableEq

/-- The text put in for a piece. -/
def Piece.text (hostname appname facility : Str) : Piece → Str
  | .plain c => [c]
  | .reference n => if n = 1 then hostname else if n = 2 then appname else facility

/-- The pieces of a pattern, from the left. -/
def pieces : Str → List Piece
  | [] => []
  | [c] => [.plain c]
  | c :: d :: rest =>
    match subExpression c d with
    | some n => .reference n :: pieces rest
    | none => .plain c :: pieces (d :: rest)

theorem subExpression_eq_some_iff {c d : UInt8} {n : Nat} :
    subExpression c d = some n ↔
      c = percent ∧ (d = 72 ∧ n = 1 ∨ d = 73 ∧ n = 2 ∨ d = 70 ∧ n = 3) := by
  rw [subExpression]
  split_ifs with h₁ h₂ h₃
  · simp [h₁, eq_comm]
  · simp [h₂, eq_comm]
  · simp [h₃, eq_comm]
  · rw [iff_false_left (by simp)]
    rintro ⟨hc, ⟨hd, -⟩ | ⟨hd, -⟩ | ⟨hd, -⟩⟩
    · exact h₁ ⟨hc, hd⟩
    · exact h₂ ⟨hc, hd⟩
    · exact h₃ ⟨hc, hd⟩

/-- The insertion puts the texts of the pieces one after another. -/
theorem substitute_eq_flatMap (h a f p : Str) :
    substitute h a f p = (pieces p).flatMap (Piece.text h a f) := by
  induction p using substitute.induct with
  | case1 => rfl
  | case2 c => rfl
  | case3 c d rest hc ih =>
    have hsub : subExpression c d = some 1 := if_pos hc
    rw [substitute, if_pos hc, pieces, hsub, ih]
    rfl
  | case4 c d rest hn hc ih =>
    have hsub : subExpression c d = some 2 := by rw [subExpression, if_neg hn, if_pos hc]
    rw [substitute, if_neg hn, if_pos hc, pieces, hsub, ih]
    rfl
  | case5 c d rest hn hn' hc ih =>
    have hsub : subExpression c d = some 3 := by
      rw [subExpression, if_neg hn, if_neg hn', if_pos hc]
    rw [substitute, if_neg hn, if_neg hn', if_pos hc, pieces, hsub, ih]
    rfl
  | case6 c d rest h₁ h₂ h₃ ih =>
    have hsub : subExpression c d = none := by
      rw [subExpression, if_neg h₁, if_neg h₂, if_neg h₃]
    rw [substitute, if_neg h₁, if_neg h₂, if_neg h₃, pieces, hsub, ih]
    rfl

/-- A reference is a piece of the pattern exactly when its two characters occur in it: references
    do not overlap. -/
theorem reference_mem_pieces_iff {d : UInt8} {n : Nat} (hdn : subExpression percent d = some n)
    (p : Str) : .reference n ∈ pieces p ↔ [percent, d] <:+: p := by
  induction p using pieces.induct with
  | case1 => simp [pieces]
  | case2 c => simp [pieces, List.infix_cons_iff, List.cons_prefix_cons]
  | case3 c e rest m hsub ih =>
    have ih : Piece.reference n ∈ pieces rest ↔ [percent, d] <:+: rest := ih
    rw [pieces, hsub, List.mem_cons, ih, List.infix_cons_iff, List.infix_cons_iff (a := e)]
    obtain ⟨rfl, hem⟩ := subExpression_eq_some_iff.mp hsub
    obtain ⟨-, hdn⟩ := subExpression_eq_some_iff.mp hdn
    have hne : e ≠ percent := by
      rintro rfl
      simp [percent] at hem
    have hiff : Piece.reference n = Piece.reference m ↔ d = e := by
      rw [Piece.reference.injEq]
      obtain ⟨rfl, rfl⟩ | ⟨rfl, rfl⟩ | ⟨rfl, rfl⟩ := hdn <;>
        obtain ⟨rfl, rfl⟩ | ⟨rfl, rfl⟩ | ⟨rfl, rfl⟩ := hem <;> decide
    simp [List.cons_prefix_cons, hiff, Ne.symm hne]
  | case4 c e rest hsub ih =>
    have ih : Piece.reference n ∈ pieces (e :: rest) ↔ [percent, d] <:+: e :: rest := ih
    rw [pieces, hsub, List.mem_cons, ih, List.infix_cons_iff (a := c)]
    have hno : ¬ [percent, d] <+: c :: e :: rest := by
      rw [List.cons_prefix_cons, List.cons_prefix_cons]
      rintro ⟨rfl, rfl, -⟩
      rw [hsub] at hdn
      exact absurd hdn (by simp)
    simp [hno]

section

variable {h a f h' a' f' p : Str}

/-- What holds of characters, and of the references that occur in a pattern, holds of its pieces. -/
theorem pieces_forall {P : Piece → Prop} (hplain : ∀ c, P (.plain c))
    (hhost : str "%H" <:+: p → P (.reference 1)) (happ : str "%I" <:+: p → P (.reference 2))
    (hfacility : str "%F" <:+: p → P (.reference 3)) : ∀ x ∈ pieces p, P x := by
  -- There are three references.
  have hreference : ∀ n, .reference n ∈ pieces p → n = 1 ∨ n = 2 ∨ n = 3 := by
    clear hhost happ hfacility
    intro n hmem
    induction p using pieces.induct with
    | case1 => simp [pieces] at hmem
    | case2 c => simp [pieces] at hmem
    | case3 c e rest m hsub ih =>
      rw [pieces, hsub, List.mem_cons, Piece.reference.injEq] at hmem
      obtain ⟨-, hem⟩ := subExpression_eq_some_iff.mp hsub
      rcases hmem with rfl | hmem
      · omega
      · exact ih hmem
    | case4 c e rest hsub ih =>
      rw [pieces, hsub] at hmem
      exact ih (by simpa using hmem)
  intro x hx
  cases x with
  | plain c => exact hplain c
  | reference n =>
    obtain rfl | rfl | rfl := hreference n hx
    · exact hhost ((reference_mem_pieces_iff (by decide : _ = some 1) p).mp hx)
    · exact happ ((reference_mem_pieces_iff (by decide : _ = some 2) p).mp hx)
    · exact hfacility ((reference_mem_pieces_iff (by decide : _ = some 3) p).mp hx)

/-- Names that the pattern does not refer to do not matter. -/
theorem substitute_congr (hh : str "%H" <:+: p → h' = h) (ha : str "%I" <:+: p → a' = a)
    (hf : str "%F" <:+: p → f' = f) : substitute h' a' f' p = substitute h a f p := by
  rw [substitute_eq_flatMap, substitute_eq_flatMap]
  have htext : ∀ x ∈ pieces p, x.text h' a' f' = x.text h a f :=
    pieces_forall (fun _ => rfl) hh ha hf
  exact List.flatMap_congr htext

/-- **Counting what is inserted.**  If no name counts more than its replacement, the text does not
    either, and where the texts count the same so do the names the pattern refers to. -/
theorem countP_substitute (q : UInt8 → Bool) (hh : h'.countP q ≤ h.countP q)
    (ha : a'.countP q ≤ a.countP q) (hf : f'.countP q ≤ f.countP q)
    (heq : (substitute h' a' f' p).countP q = (substitute h a f p).countP q) :
    (str "%H" <:+: p → h'.countP q = h.countP q) ∧
      (str "%I" <:+: p → a'.countP q = a.countP q) ∧
      (str "%F" <:+: p → f'.countP q = f.countP q) := by
  have hle : ∀ x ∈ pieces p, (x.text h' a' f').countP q ≤ (x.text h a f).countP q :=
    pieces_forall (fun _ => le_rfl) (fun _ => hh) (fun _ => ha) (fun _ => hf)
  -- One piece that counts less would make the text count less.
  have heach : ∀ x ∈ pieces p, (x.text h' a' f').countP q = (x.text h a f).countP q := by
    intro x hx
    by_contra hne
    have hlt := List.sum_lt_sum _ _ hle ⟨x, hx, lt_of_le_of_ne (hle x hx) hne⟩
    rw [substitute_eq_flatMap, substitute_eq_flatMap, List.countP_flatMap, List.countP_flatMap]
      at heq
    exact absurd heq hlt.ne
  refine ⟨fun hmem => ?_, fun hmem => ?_, fun hmem => ?_⟩
  · exact heach _ ((reference_mem_pieces_iff (by decide : _ = some 1) p).mpr hmem)
  · exact heach _ ((reference_mem_pieces_iff (by decide : _ = some 2) p).mpr hmem)
  · exact heach _ ((reference_mem_pieces_iff (by decide : _ = some 3) p).mpr hmem)

/-- Texts with names without `'/'` inserted have the same number of `'/'`. -/
theorem count_slash_substitute (hh : slash ∉ h) (ha : slash ∉ a) (hf : slash ∉ f) (hh' : slash ∉ h')
    (ha' : slash ∉ a') (hf' : slash ∉ f') (p : Str) :
    (substitute h' a' f' p).count slash = (substitute h a f p).count slash := by
  rw [substitute_eq_flatMap, substitute_eq_flatMap, List.count_flatMap, List.count_flatMap]
  have htext : ∀ x ∈ pieces p, (x.text h' a' f').count slash = (x.text h a f).count slash := by
    refine pieces_forall (fun _ => rfl) (fun _ => ?_) (fun _ => ?_) (fun _ => ?_)
    · show h'.count slash = h.count slash
      rw [List.count_eq_zero.mpr hh', List.count_eq_zero.mpr hh]
    · show a'.count slash = a.count slash
      rw [List.count_eq_zero.mpr ha', List.count_eq_zero.mpr ha]
    · show f'.count slash = f.count slash
      rw [List.count_eq_zero.mpr hf', List.count_eq_zero.mpr hf]
  exact congrArg List.sum (List.map_congr_left htext)

end

/-! ### The names inserted -/

/-- A name that is emitted whole does not start with a digit. -/
theorem emitted_eq_self_iff {name : Str} (hne : name ≠ []) :
    emitted name = name ↔ name.head?.any isdigit = false := by
  rw [emitted]
  by_cases hdigit : name.head?.any isdigit = true
  · simp [hdigit, Ne.symm hne]
  · simp [hdigit]

/-- What is emitted of a name is the name or nothing. -/
theorem emitted_sublist (name : Str) : (emitted name).Sublist name := by
  rw [emitted]
  split_ifs
  · exact List.nil_sublist name
  · exact List.Sublist.refl name

/-- Two messages with one key, the second of a facility in the table: their facilities have the same
    name, or the first has no name. -/
theorem facilityName_of_key {m m' : Message} (hm : m.Acceptable) (hm' : m'.Acceptable)
    (hkey : m.header.facility.code.toUInt32 ||| m.header.severity.code.toUInt32 =
      m'.header.facility.code.toUInt32 ||| m'.header.severity.code.toUInt32)
    (htable : m'.header.facility ∈ g_facilities.map Prod.fst) :
    facilityName m.header.facility = facilityName m'.header.facility ∨
      facilityName m.header.facility = str "unknown" := by
  -- The severity takes the lower three bits.
  have hcode : m.header.facility.code.toNat / 8 = m'.header.facility.code.toNat / 8 := by
    have hsum := congrArg (fun x : UInt32 => x.toNat / 8) hkey
    have hs : m.header.severity.code.toNat ≤ 7 := hm.severity
    have hs' : m'.header.severity.code.toNat ≤ 7 := hm'.severity
    have hor : ∀ x y : Nat, (x ||| y) / 8 = x / 8 ||| y / 8 := fun x y => Nat.or_div_two_pow (n := 3)
    simp only [UInt32.toNat_or, UInt8.toNat_toUInt32, hor] at hsum
    rwa [Nat.div_eq_of_lt (by omega : m.header.severity.code.toNat < 8),
      Nat.div_eq_of_lt (by omega : m'.header.severity.code.toNat < 8), Nat.or_zero, Nat.or_zero]
      at hsum
  have hcases : ∀ facility ∈ g_facilities.map Prod.fst, ∀ k < 8,
      facility.code.toNat % 8 = 0 ∧ (k = 0 ∨
        facilityName ⟨UInt8.ofNat (facility.code.toNat + k)⟩ = str "unknown") := by
    decide
  obtain ⟨hmod, hname⟩ := hcases _ htable (m.header.facility.code.toNat % 8)
    (Nat.mod_lt _ (by decide))
  have heq : m.header.facility.code.toNat =
      m'.header.facility.code.toNat + m.header.facility.code.toNat % 8 := by omega
  rw [← heq] at hname
  rcases hname with hzero | hname
  · left
    have hsame : m.header.facility.code = m'.header.facility.code :=
      UInt8.toNat_inj.mp (by omega)
    have hfacility : m.header.facility = m'.header.facility := congrArg Facility.mk hsame
    rw [hfacility]
  · right
    simpa using hname

/-- Every facility name in the table has a letter that "unknown" has not. -/
theorem exists_letter_of_facility {facility : Facility}
    (htable : facility ∈ g_facilities.map Prod.fst) :
    ∃ c ∈ facilityName facility, c ∉ str "unknown" := by
  have hall : ∀ facility ∈ g_facilities.map Prod.fst,
      ∃ c ∈ facilityName facility, c ∉ str "unknown" := by decide
  exact hall facility htable

/-! ### The path -/

/-- A path that does not start with `'/'` is put under the directory. -/
def rooted (logDirectory path : Str) : Str :=
  if path.head? = some slash then path else logDirectory ++ slash :: path

/-- The pattern with each reference replaced by the name itself, under the directory unless that
    starts with `'/'`. -/
def literalPath (logDirectory : Str) (msg : Message) (pathPattern : Str) : Str :=
  rooted logDirectory (substitute msg.header.origin.hostname.value msg.header.origin.appname.value
    (facilityName msg.header.facility) pathPattern)

/-- The names of an acceptable message are not empty and have no `'/'`. -/
theorem Message.Acceptable.names_plain {m : Message} (hm : m.Acceptable) :
    (m.header.origin.hostname.value ≠ [] ∧ slash ∉ m.header.origin.hostname.value) ∧
      m.header.origin.appname.value ≠ [] ∧ slash ∉ m.header.origin.appname.value := by
  have hhost := (isValidName_iff _ _).mp hm.hostname
  have happ := (isValidName_iff _ _).mp hm.appname
  exact ⟨⟨hhost.1, slash_notMem_of_isValidName (by decide) hm.hostname⟩, happ.1,
    slash_notMem_of_isValidName (by decide) hm.appname⟩

section

variable (logDirectory : Str)

/-- Paths with the same number of `'/'` can be told apart under the directory. -/
theorem rooted_inj {x y : Str} (hcount : x.count slash = y.count slash) :
    rooted logDirectory x = rooted logDirectory y ↔ x = y := by
  refine ⟨fun heq => ?_, congrArg _⟩
  have hslashes : ∀ z : Str, (logDirectory ++ slash :: z).count slash =
      logDirectory.count slash + (z.count slash + 1) := by
    intro z
    rw [List.count_append, List.count_cons_self]
  rw [rooted, rooted] at heq
  split_ifs at heq with hx hy hy
  · exact heq
  · -- A `'/'` more on one side.
    have hmore := congrArg (List.count slash) heq
    rw [hslashes] at hmore
    omega
  · have hmore := congrArg (List.count slash) heq
    rw [hslashes] at hmore
    omega
  · exact (List.cons_inj_right slash).mp (List.append_cancel_left heq)

/-- The names as the conditionals emit them give the text of the names themselves, exactly when no
    name that the pattern refers to is lost or changed. -/
theorem substitute_emitted_eq_iff {h a f f' p : Str} (hh : h ≠ []) (ha : a ≠ [])
    (hf : f' = f ∨ ∃ c ∈ f, c ∉ f') :
    substitute (emitted h) (emitted a) f' p = substitute h a f p ↔
      (str "%H" <:+: p → h.head?.any isdigit = false) ∧
        (str "%I" <:+: p → a.head?.any isdigit = false) ∧ (str "%F" <:+: p → f' = f) := by
  rw [← emitted_eq_self_iff hh, ← emitted_eq_self_iff ha]
  constructor
  · intro heq
    -- First the facility: a letter of `f` that `f'` has not would be missing.
    have hfacility : str "%F" <:+: p → f' = f := by
      intro hp
      rcases hf with rfl | ⟨c, hc, hc'⟩
      · rfl
      · have hnone : f'.count c = 0 := List.count_eq_zero.mpr hc'
        have hsome : 0 < f.count c := List.count_pos_iff.mpr hc
        have hcount := (countP_substitute (· == c) ((emitted_sublist h).countP_le)
          ((emitted_sublist a).countP_le) (by show f'.count c ≤ f.count c; omega)
          (congrArg (List.countP (· == c)) heq)).2.2 hp
        have hsame : f'.count c = f.count c := hcount
        omega
    -- Then the names, by their lengths.
    rw [substitute_congr (fun _ => rfl) (fun _ => rfl) hfacility] at heq
    obtain ⟨hlenH, hlenA, -⟩ := countP_substitute (fun _ => true) ((emitted_sublist h).countP_le)
      ((emitted_sublist a).countP_le) le_rfl (congrArg (List.countP fun _ => true) heq)
    simp only [List.countP_true] at hlenH hlenA
    exact ⟨fun hp => (emitted_sublist h).eq_of_length (hlenH hp),
      fun hp => (emitted_sublist a).eq_of_length (hlenA hp), hfacility⟩
  · rintro ⟨hH, hI, hF⟩
    exact substitute_congr hH hI hF

/-- The path computed for the first message with the key of `m` is the literal path of `m` exactly
    when the names the pattern refers to are emitted whole and the facility has the same name. -/
theorem freshLogPath_eq_literalPath_iff {regexReplace : Str → Str → Str}
    (hfmt : FormatsConditionals regexReplace) {m first : Message} {p : Str} (hm : m.Acceptable)
    (hfirst : first.Acceptable) (hkey : LogPathCacheKey.of first p = LogPathCacheKey.of m p)
    (htable : m.header.facility ∈ g_facilities.map Prod.fst) :
    freshLogPath regexReplace logDirectory first p = literalPath logDirectory m p ↔
      p ≠ [] ∧
        (str "%H" <:+: p → m.header.origin.hostname.value.head?.any isdigit = false) ∧
        (str "%I" <:+: p → m.header.origin.appname.value.head?.any isdigit = false) ∧
        (str "%F" <:+: p → facilityName first.header.facility = facilityName m.header.facility) := by
  simp only [LogPathCacheKey.of, LogPathCacheKey.mk.injEq] at hkey
  obtain ⟨hcode, hhost, happ, -⟩ := hkey
  obtain ⟨⟨hhne, hhslash⟩, hane, haslash⟩ := hm.names_plain
  by_cases hp : p = []
  · -- The path ends with the appname and not with a `'/'`.
    subst hp
    refine iff_of_false (fun heq => ?_) (fun h => h.1 rfl)
    rw [literalPath, rooted, substitute] at heq
    simp only [freshLogPath, List.isEmpty_nil, if_true, List.head?_nil, reduceCtorEq, if_false]
      at heq
    obtain ⟨s, c, hs⟩ := (List.eq_nil_or_concat m.header.origin.appname.value).resolve_left hane
    have hlast := congrArg List.getLast? heq
    rw [happ, hs, List.concat_eq_append, ← List.cons_append, ← List.append_assoc,
      List.getLast?_concat, List.getLast?_concat, Option.some.injEq] at hlast
    rw [hs] at haslash
    exact haslash (by simp [hlast])
  have hne : p.isEmpty = false := by simpa using hp
  by_cases hpercent : percent ∈ p
  · have hfresh : freshLogPath regexReplace logDirectory first p =
        rooted logDirectory (substitute (emitted m.header.origin.hostname.value)
          (emitted m.header.origin.appname.value) (facilityName first.header.facility) p) := by
      simp only [freshLogPath, hne, Bool.false_eq_true, if_false, if_neg (not_not.mpr hpercent)]
      rw [hfmt _ _ _ _ hfirst.hostname hfirst.appname, ite_not, hhost, happ, rooted]
    have hemitted : ∀ {name : Str}, slash ∉ name → slash ∉ emitted name :=
      fun hname hmem => hname ((emitted_sublist _).subset hmem)
    have hletter : facilityName first.header.facility = facilityName m.header.facility ∨
        ∃ c ∈ facilityName m.header.facility, c ∉ facilityName first.header.facility := by
      rcases facilityName_of_key hfirst hm hcode htable with hsame | hunknown
      · exact Or.inl hsame
      · rw [hunknown]
        exact Or.inr (exists_letter_of_facility htable)
    rw [hfresh, literalPath, rooted_inj logDirectory
      (count_slash_substitute hhslash haslash (facilityName_plain _).2 (hemitted hhslash)
        (hemitted haslash) (facilityName_plain _).2 p),
      substitute_emitted_eq_iff hhne hane hletter]
    exact ⟨fun h => ⟨hp, h⟩, fun h => h.2⟩
  · -- A pattern without `'%'` refers to nothing.
    have hfresh : freshLogPath regexReplace logDirectory first p =
        literalPath logDirectory m p := by
      simp only [freshLogPath, hne, Bool.false_eq_true, if_false, if_pos hpercent, literalPath,
        rooted, substitute_of_notMem _ _ _ _ hpercent]
    have hnone : ∀ {s : Str}, percent ∈ s → ¬ s <:+: p :=
      fun hs hsub => hpercent (hsub.subset hs)
    exact iff_of_true hfresh ⟨hp, fun h => absurd h (hnone (by decide)),
      fun h => absurd h (hnone (by decide)), fun h => absurd h (hnone (by decide))⟩

/-- **Path substitution, exactly**.  Over any run of `LogPath` calls on acceptable messages, with a
    `regex_replace` that formats the conditionals as Boost's does, the path returned for a message
    with a facility of the table is the literal one if and only if the pattern is not empty, no name
    it refers to starts with a digit, and the first message of the run with the same key has a
    facility of the same name if it refers to that. -/
theorem logPaths_literal_iff {regexReplace : Str → Str → Str}
    (hfmt : FormatsConditionals regexReplace) (calls : List (Message × LogFileConfig))
    (hcalls : ∀ c ∈ calls, c.1.Acceptable) (i : Nat) (c : Message × LogFileConfig)
    (hc : calls[i]? = some c) (htable : c.1.header.facility ∈ g_facilities.map Prod.fst) :
    (logPaths regexReplace logDirectory ∅ calls)[i]? =
        some (literalPath logDirectory c.1 c.2.pathPattern) ↔
      c.2.pathPattern ≠ [] ∧
        (str "%H" <:+: c.2.pathPattern →
          c.1.header.origin.hostname.value.head?.any isdigit = false) ∧
        (str "%I" <:+: c.2.pathPattern →
          c.1.header.origin.appname.value.head?.any isdigit = false) ∧
        (str "%F" <:+: c.2.pathPattern →
          ∀ first, (calls.find? fun d => LogPathCacheKey.of d.1 d.2.pathPattern =
              LogPathCacheKey.of c.1 c.2.pathPattern) = some first →
            facilityName first.1.header.facility = facilityName c.1.header.facility) := by
  have hempty : CacheOf regexReplace logDirectory [] ∅ := fun k => by simp
  obtain ⟨first, hfirst, hpath⟩ := logPaths_getElem regexReplace logDirectory calls [] ∅ hempty
    i c hc
  rw [List.nil_append] at hfirst
  have hkey : LogPathCacheKey.of first.1 first.2.pathPattern =
      LogPathCacheKey.of c.1 c.2.pathPattern := by
    simpa using List.find?_some hfirst
  have hpat : first.2.pathPattern = c.2.pathPattern := congrArg LogPathCacheKey.pathPattern hkey
  rw [hpat] at hkey hpath
  rw [hpath, Option.some.injEq, freshLogPath_eq_literalPath_iff logDirectory hfmt
    (hcalls c (List.mem_of_getElem? hc)) (hcalls first (List.mem_of_find?_eq_some hfirst)) hkey
    htable, hfirst]
  simp

end

/-- The condition at work on an ordinary message, with the default pattern. -/
theorem logPaths_literal_ordinary :
    let msg := messageFrom ⟨str "host", by decide⟩ ⟨str "app", by decide⟩
    (logPaths boostRegexReplace (str "/var/log") ∅ [(msg, {})])[0]? =
      some (literalPath (str "/var/log") msg (str "%H/%I")) := by
  intro msg
  refine (logPaths_literal_iff (str "/var/log") formatsConditionals_boostRegexReplace [(msg, {})] ?_
    0 (msg, {}) rfl (by decide)).mpr ?_
  · intro c hc
    obtain rfl : c = (msg, {}) := by simpa using hc
    decide
  · refine ⟨by decide, fun _ => by decide, fun _ => by decide, fun _ first hfirst => ?_⟩
    obtain rfl : first = (msg, {}) := by simpa [eq_comm] using hfirst
    rfl

/-- **A hostname that starts with a digit is dropped.**  With the default pattern the path of its
    messages is `/app`, outside the log directory. -/
theorem logPath_drops_hostname :
    let msg := messageFrom ⟨str "5host", by decide⟩ ⟨str "app", by decide⟩
    isValidHostname (str "5host") = true ∧ isValidAppName (str "app") = true ∧
      msg.header.facility ∈ g_facilities.map Prod.fst ∧
      (logPath boostRegexReplace (str "/var/log") ∅ msg {}).1 = str "/app" ∧
      literalPath (str "/var/log") msg (str "%H/%I") = str "/var/log/5host/app" := by
  exact ⟨by decide, by decide, by decide, by decide, by decide⟩

end Mclog
