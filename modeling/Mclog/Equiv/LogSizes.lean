import Mclog.Equiv.ConfigTexts
import Mclog.Equiv.FilterScanner

/-!
# The sizes of a configuration

`LogSize` reads a number and any number of suffix letters, of which the first one counts, and
multiplies modulo 2^64.  The scanner makes an integer of a size without quotes and without a suffix,
which no rule for `size` takes.  `sizeExact_iff` says for which texts the size is exact.
-/

namespace Mclog

open General

namespace ConfigFile

/-! ### What LogSize makes of a text -/

/-- The multiplier that the first letter stands for. -/
def firstMultiplier (letters : Str) : Nat :=
  (multipliers.find? fun m => letters.head? = some m.1).elim 1 Prod.snd

/-- A decimal number, perhaps with one suffix, and what it stands for. -/
def IsSize (s : Str) (n : Nat) : Prop :=
  ∃ digits letters, s = digits ++ letters ∧ digits ≠ [] ∧ (∀ c ∈ digits, isdigit c = true) ∧
    letters.length ≤ 1 ∧ (∀ c ∈ letters, c ∈ multipliers.map Prod.fst) ∧
    n = digitsValue 10 digits * firstMultiplier letters

/-- A number below 2^64 with any suffix letters behind it, for which the product with the multiplier
    of the first one is not a multiple of 2^64. -/
def HasSize (t : Str) : Prop :=
  ∃ digits letters, t = digits ++ letters ∧ digits ≠ [] ∧ (∀ c ∈ digits, isdigit c = true) ∧
    (∀ c ∈ letters, c ∈ multipliers.map Prod.fst) ∧ digitsValue 10 digits < 2 ^ 64 ∧
    ¬2 ^ 64 ∣ digitsValue 10 digits * firstMultiplier letters

/-- A suffix letter is no digit. -/
theorem isdigit_of_mem_multipliers : ∀ c ∈ multipliers.map Prod.fst, isdigit c = false := by
  have htable : (multipliers.map Prod.fst).all (fun c => !isdigit c) = true := rfl
  intro c hc
  have hc := List.all_eq_true.mp htable c hc
  simpa using hc

/-- A number and its suffix letters are what `LogSize` takes them for. -/
theorem takeWhile_digits {digits letters : Str} (hdigits : ∀ c ∈ digits, isdigit c = true)
    (hletters : ∀ c ∈ letters, c ∈ multipliers.map Prod.fst) :
    (digits ++ letters).takeWhile isdigit = digits ∧
      (digits ++ letters).dropWhile isdigit = letters := by
  have hnone : letters.takeWhile isdigit = [] ∧ letters.dropWhile isdigit = letters := by
    cases letters with
    | nil => exact ⟨rfl, rfl⟩
    | cons c letters =>
      have hc := isdigit_of_mem_multipliers c (hletters c (by simp))
      simp [hc]
  rw [List.takeWhile_append_of_pos hdigits, List.dropWhile_append_of_pos hdigits, hnone.1, hnone.2,
    List.append_nil]
  exact ⟨rfl, rfl⟩

/-- The size of a number with suffix letters. -/
theorem logSize_append {digits letters : Str} (hne : digits ≠ [])
    (hdigits : ∀ c ∈ digits, isdigit c = true)
    (hletters : ∀ c ∈ letters, c ∈ multipliers.map Prod.fst) :
    logSize (digits ++ letters) =
      if digitsValue 10 digits < 2 ^ 64 then
        Int.bmod (digitsValue 10 digits * firstMultiplier letters : Nat) (2 ^ 64)
      else 0 := by
  obtain ⟨htake, hdrop⟩ := takeWhile_digits hdigits hletters
  have hall : (letters.all fun c => multipliers.any fun m => m.1 == c) = true := by
    rw [List.all_eq_true]
    intro c hc
    obtain ⟨m, hm, rfl⟩ := List.mem_map.mp (hletters c hc)
    exact List.any_eq_true.mpr ⟨m, hm, beq_self_eq_true _⟩
  have hstoull : (stoull digits).getD 0 =
      if digitsValue 10 digits < 2 ^ 64 then digitsValue 10 digits else 0 := by
    show (if digits ≠ [] ∧ digitsValue 10 digits < 2 ^ 64 then
      some (digitsValue 10 digits) else none).getD 0 = _
    simp only [ne_eq, hne, not_false_eq_true, true_and]
    split_ifs <;> rfl
  rw [logSize, htake, hdrop]
  simp only [hstoull]
  rw [if_pos ⟨hne, hall⟩]
  split_ifs
  · rw [Nat.cast_mul]
    rfl
  · simp

/-- A text that has a size is a number with suffix letters. -/
theorem exists_digits_of_logSize {t : Str} (h : logSize t ≠ 0) :
    ∃ digits letters, t = digits ++ letters ∧ digits ≠ [] ∧ (∀ c ∈ digits, isdigit c = true) ∧
      ∀ c ∈ letters, c ∈ multipliers.map Prod.fst := by
  by_cases hcond : t.takeWhile isdigit ≠ [] ∧
      ((t.dropWhile isdigit).all fun c => multipliers.any fun m => m.1 == c) = true
  · refine ⟨_, _, (List.takeWhile_append_dropWhile).symm, hcond.1, ?_, fun c hc => ?_⟩
    · exact fun c hc => List.mem_takeWhile_imp hc
    · obtain ⟨m, hm, heq⟩ := List.any_eq_true.mp (List.all_eq_true.mp hcond.2 c hc)
      exact List.mem_map.mpr ⟨m, hm, eq_of_beq heq⟩
  · exact absurd (if_neg hcond) h

/-- **Which texts have a size.** -/
theorem logSize_ne_zero_iff (t : Str) : logSize t ≠ 0 ↔ HasSize t := by
  have hbmod (x : Nat) : Int.bmod x (2 ^ 64) = 0 ↔ 2 ^ 64 ∣ x := by
    rw [Int.bmod]
    omega
  constructor
  · intro h
    obtain ⟨digits, letters, rfl, hne, hdigits, hletters⟩ := exists_digits_of_logSize h
    rw [logSize_append hne hdigits hletters] at h
    split_ifs at h with hlt
    · exact ⟨digits, letters, rfl, hne, hdigits, hletters, hlt, fun hdvd => h ((hbmod _).mpr hdvd)⟩
    · exact absurd rfl h
  · rintro ⟨digits, letters, rfl, hne, hdigits, hletters, hlt, hnot⟩ hzero
    rw [logSize_append hne hdigits hletters, if_pos hlt] at hzero
    exact hnot ((hbmod _).mp hzero)

/-- A size below 2^63 is exact. -/
theorem logSize_of_isSize {s : Str} {n : Nat} (h : IsSize s n) (hn : n < 2 ^ 63) :
    logSize s = n := by
  obtain ⟨digits, letters, rfl, hne, hdigits, hlength, hletters, rfl⟩ := h
  have hfirst : 1 ≤ firstMultiplier letters := by
    rw [firstMultiplier]
    cases hfind : multipliers.find? fun m => letters.head? = some m.1 with
    | none => exact le_rfl
    | some m =>
      have htable : ∀ m ∈ multipliers, 1 ≤ m.2 := by decide
      exact htable m (List.mem_of_find?_eq_some hfind)
  have hle : digitsValue 10 digits ≤ digitsValue 10 digits * firstMultiplier letters :=
    Nat.le_mul_of_pos_right _ hfirst
  rw [logSize_append hne hdigits hletters, if_pos (by omega)]
  generalize digitsValue 10 digits * firstMultiplier letters = n at hn
  rw [Int.bmod]
  omega

/-! ### Sizes in a text -/

/-- A string as the value of `size`, in quotes or as a word. -/
inductive SizeText where
  | quoted (s : Str) (h : quote ∉ s)
  | word (s : Str) (hne : s ≠ []) (hword : ∀ c ∈ s, isWord c = true) (hhash : s.head? ≠ some 35)

namespace SizeText

/-- The string. -/
def string : SizeText → Str
  | .quoted s _ => s
  | .word s _ _ _ => s

/-- The text of the value. -/
def text : SizeText → Str
  | .quoted s _ => quote :: (s ++ [quote])
  | .word s _ _ _ => s

/-- Its token. -/
def token : SizeText → Token
  | .quoted s _ => .STRING (cString s)
  | .word s _ _ _ => wordToken (cString s)

theorem scans (v : SizeText) : Scans v.text v.token := by
  cases v with
  | quoted s h => exact scans_quoted h
  | word s hne hword hhash => exact scans_word hne hword hhash

end SizeText

/-- `size`. -/
def sizeSetting : Setting where
  name := str "size"
  keyword := .SIZE
  one := str "1k"
  two := str "2k"
  isWord_name := by decide
  head_name := by decide
  wordToken_name := by decide
  not_stanza := rfl
  not_value := by
    intro libs k
    cases k <;> rfl
  ne_LOGS := by decide

/-- `1k` and `2k` are strings. -/
theorem scans_1k : Scans (str "1k") (.STRING (str "1k")) ∧
    Scans (str "2k") (.STRING (str "2k")) := by
  constructor
  · exact scans_word (by decide) (List.all_eq_true.mp rfl) (by decide)
  · exact scans_word (by decide) (List.all_eq_true.mp rfl) (by decide)

variable (libs : Libraries)

/-- The size of the `i`-th entry of `logs`, if there is one. -/
def sizeField (i : Nat) (cfg : Config) : Option Int := cfg.files.logs[i]?.map fun log => log.size

/-- `size = v;` is exact, in the given text: a size below 2^63 is accepted and stored, and for
    anything else the text is refused or the size is 0. -/
structure SizeRead (cfg : Config) (before after : Str) (v : SizeText) : Prop where
  size_eq : ∀ n, IsSize v.string n → n < 2 ^ 63 →
    (Config.read libs cfg (sizeSetting.text before after v.text)).1 = some true ∧
    ∀ i, sizeSetting.Decides libs cfg before after (sizeField i) →
      sizeField i (Config.read libs cfg (sizeSetting.text before after v.text)).2 = some (n : Int)
  otherwise : (¬∃ n, IsSize v.string n ∧ n < 2 ^ 63) →
    (Config.read libs cfg (sizeSetting.text before after v.text)).1 = some true →
    ∀ i, sizeSetting.Decides libs cfg before after (sizeField i) →
      sizeField i (Config.read libs cfg (sizeSetting.text before after v.text)).2 = some 0

/-- `size = v;` is exact, in every text. -/
def SizeExact (v : SizeText) : Prop :=
  ∀ cfg before after, Surrounds libs cfg sizeSetting before after → SizeRead libs cfg before after v

/-- The relation of sizes that are the same, or the two given ones. -/
def sizesRel (n n' : Int) : NumberRel where
  port a a' := a = a'
  keep a a' := a = a'
  size a a' := a = a' ∨ a = n ∧ a' = n'
  port_refl _ := rfl
  keep_refl _ := rfl
  size_refl _ := Or.inl rfl

/-- The sizes of alike configurations. -/
theorem size_of_alike {n n' : Int} {cfg cfg' : Config} (h : cfg.Alike (sizesRel n n') cfg')
    (i : Nat) : sizeField i cfg = sizeField i cfg' ∨
      sizeField i cfg = some n ∧ sizeField i cfg' = some n' := by
  obtain ⟨loopback, mcast, files, -, -, ⟨logs, hlogs, rfl⟩, rfl⟩ := h
  refine getElem?_of_forall₂ hlogs ?_ i
  rintro a a' ⟨keep, size, -, hsize, rfl⟩
  exact hsize

/-- **What `size` does with a string**: it is accepted. -/
theorem size_outcome {cfg : Config} {before after : Str} {v : SizeText} {t : Str}
    (h : Surrounds libs cfg sizeSetting before after) (htoken : v.token = .STRING t) :
    (Config.read libs cfg (sizeSetting.text before after v.text)).1 = some true ∧
    ∀ i, sizeSetting.Decides libs cfg before after (sizeField i) →
      sizeField i (Config.read libs cfg (sizeSetting.text before after v.text)).2 =
        some (logSize t) := by
  have hscans := v.scans
  rw [htoken] at hscans
  have hstring (s : Str) : readValue libs .SIZE (.STRING s) = .ok (.string s) := rfl
  have hrel (s : Str) :
      (Value.string t).Alike (sizesRel (logSize t) (logSize s)) .SIZE (.string s) :=
    .size (Or.inr ⟨rfl, rfl⟩)
  obtain ⟨hsuccess, hstored⟩ := h.stored libs scans_1k.1 scans_1k.2 hscans (hstring _) (hstring _)
    (hstring t) (hrel _) (hrel _)
  refine ⟨hsuccess, fun i hdecides => ?_⟩
  exact hstored (fun h => size_of_alike h i) (fun h => size_of_alike h i) hdecides

/-- **What `size` does with anything else**: it is refused. -/
theorem size_refused {cfg : Config} {before after : Str} {v : SizeText}
    (h : Surrounds libs cfg sizeSetting before after) (htoken : ∀ t, v.token ≠ .STRING t) :
    (Config.read libs cfg (sizeSetting.text before after v.text)).1 ≠ some true := by
  have hvalue : ∃ stop, readValue libs .SIZE v.token = .error stop := by
    cases hv : v.token with
    | STRING t => exact absurd hv (htoken t)
    | outOfRange => exact ⟨.thrown, rfl⟩
    | _ => exact ⟨.failed, rfl⟩
  obtain ⟨stop, hstop⟩ := hvalue
  rw [h.read_error libs scans_1k.1 v.scans hstop]
  cases stop <;> simp [Stop.result]

/-- A string that the sizes are right for: a size below 2^63, or one without a size in front of its
    first NUL byte.  A word of digits is an integer, which is refused, and has to be no size below
    2^63. -/
def SizeText.Clear : SizeText → Prop
  | .quoted s _ => (∃ n, IsSize s n ∧ n < 2 ^ 63) ∨ ¬HasSize (cString s)
  | .word s _ _ _ =>
    if isNumber (cString s) then ¬∃ n, IsSize s n ∧ n < 2 ^ 63
    else (∃ n, IsSize s n ∧ n < 2 ^ 63) ∨ ¬HasSize (cString s)

/-- A size has no NUL byte. -/
theorem cString_of_isSize {s : Str} {n : Nat} (h : IsSize s n) : cString s = s := by
  obtain ⟨digits, letters, rfl, -, hdigits, -, hletters, -⟩ := h
  refine MessageFilter.cString_of_notMem fun hmem => ?_
  have hnot : (0 : UInt8) ∉ multipliers.map Prod.fst := by decide
  have hzero : isdigit 0 = false := rfl
  obtain hmem | hmem := List.mem_append.mp hmem
  · rw [hdigits 0 hmem] at hzero
    cases hzero
  · exact hnot (hletters 0 hmem)

/-- A keyword is no number, with or without letters. -/
theorem isdigit_of_keyword {s : Str} {k : Keyword} (h : isKeyword s = some k) :
    ∀ c ∈ s.head?, isdigit c = false := by
  have htable : ∀ p ∈ g_configKeywords, ∀ c ∈ p.1.head?, isdigit c = false := by decide +kernel
  obtain ⟨p, hfind, -⟩ := Option.map_eq_some_iff.mp h
  have heq : p.1 = s := by simpa using List.find?_some hfind
  rw [← heq]
  exact htable p (List.mem_of_find?_eq_some hfind)

/-- An entry of `logs` with a size. -/
theorem surrounds_size : Surrounds libs {} sizeSetting logsBefore logsAfter := by
  have hone : Scans sizeSetting.one (.STRING (str "1k")) := scans_1k.1
  refine ⟨starts_logs sizeSetting, ?_⟩
  rw [Config.read, scanAll_logs hone]
  rfl

/-- The size that is stored there. -/
theorem sizeField_logs {value s : Str} (hvalue : Scans value (.STRING s)) :
    sizeField 0 (Config.read libs {} (sizeSetting.text logsBefore logsAfter value)).2 =
      some (logSize s) := by
  rw [Config.read, scanAll_logs hvalue]
  rfl

/-- In that entry it is decided. -/
theorem decides_size : sizeSetting.Decides libs {} logsBefore logsAfter (sizeField 0) := by
  have hsizes : logSize (str "1k") ≠ logSize (str "2k") := by decide +kernel
  have hone : Scans sizeSetting.one (.STRING (str "1k")) := scans_1k.1
  have htwo : Scans sizeSetting.two (.STRING (str "2k")) := scans_1k.2
  rw [Setting.Decides, sizeField_logs libs hone, sizeField_logs libs htwo]
  exact fun h => hsizes (Option.some.inj h)

/-- The size of a string is exact if the string has a size below 2^63 or none at all. -/
theorem sizeExact_string {v : SizeText} {t : Str} (htoken : v.token = .STRING t)
    (ht : t = cString v.string) :
    SizeExact libs v ↔ (∃ n, IsSize v.string n ∧ n < 2 ^ 63) ∨ ¬HasSize t := by
  constructor
  · intro hexact
    by_cases hsize : ∃ n, IsSize v.string n ∧ n < 2 ^ 63
    · exact Or.inl hsize
    · right
      obtain ⟨hsuccess, hfield⟩ := size_outcome libs (surrounds_size libs) htoken
      have hzero := (hexact _ _ _ (surrounds_size libs)).otherwise hsize hsuccess 0
        (decides_size libs)
      rw [hfield 0 (decides_size libs), Option.some.injEq] at hzero
      rw [← logSize_ne_zero_iff]
      exact not_not_intro hzero
  · intro hcond cfg before after h
    obtain ⟨hsuccess, hfield⟩ := size_outcome libs h htoken
    refine ⟨fun n hn hlt => ⟨hsuccess, fun i hdecides => ?_⟩, fun hnot _ i hdecides => ?_⟩
    · rw [hfield i hdecides, ht, cString_of_isSize hn, logSize_of_isSize hn hlt]
    · have hnone := hcond.resolve_left hnot
      rw [← logSize_ne_zero_iff, not_not] at hnone
      rw [hfield i hdecides, hnone]

/-- A value that is refused is right if it is no size below 2^63. -/
theorem sizeExact_refused {v : SizeText} (htoken : ∀ t, v.token ≠ .STRING t) :
    SizeExact libs v ↔ ¬∃ n, IsSize v.string n ∧ n < 2 ^ 63 := by
  constructor
  · rintro hexact ⟨n, hn, hlt⟩
    have hsuccess := ((hexact _ _ _ (surrounds_size libs)).size_eq n hn hlt).1
    exact size_refused libs (surrounds_size libs) htoken hsuccess
  · intro hnot cfg before after h
    exact ⟨fun n hn hlt => absurd ⟨n, hn, hlt⟩ hnot,
      fun _ hsuccess => absurd hsuccess (size_refused libs h htoken)⟩

/-- **When sizes are exact**: for the strings that are `Clear`. -/
theorem sizeExact_iff (v : SizeText) : SizeExact libs v ↔ v.Clear := by
  cases v with
  | quoted s h => exact sizeExact_string libs rfl rfl
  | word s hne hword hhash =>
    rw [SizeText.Clear]
    by_cases hnumber : isNumber (cString s)
    · rw [if_pos hnumber]
      refine sizeExact_refused libs fun t htoken => ?_
      rw [SizeText.token, wordToken, if_pos hnumber] at htoken
      split at htoken <;> cases htoken
    · rw [if_neg hnumber]
      cases hkeyword : isKeyword (cString s) with
      | none =>
        refine sizeExact_string libs ?_ rfl
        rw [SizeText.token, wordToken, if_neg hnumber, hkeyword]
      | some k =>
        -- A keyword is refused, and starts with no digit.
        have hrefused : ∀ t, (SizeText.word s hne hword hhash).token ≠ .STRING t := by
          intro t htoken
          rw [SizeText.token, wordToken, if_neg hnumber, hkeyword] at htoken
          cases htoken
        have hhead := isdigit_of_keyword hkeyword
        have hdigits {digits letters : Str} (heq : cString s = digits ++ letters)
            (hne : digits ≠ []) (hdigits : ∀ c ∈ digits, isdigit c = true) : False := by
          obtain ⟨c, digits, rfl⟩ := List.exists_cons_of_ne_nil hne
          have hc := hhead c (by rw [heq]; rfl)
          rw [hdigits c (by simp)] at hc
          cases hc
        have hnosize : ¬∃ n, IsSize s n ∧ n < 2 ^ 63 := by
          rintro ⟨n, hn, -⟩
          have hs := cString_of_isSize hn
          obtain ⟨digits, letters, heq, hne, hall, -⟩ := hn
          exact hdigits (hs.trans heq) hne hall
        have hnone : ¬HasSize (cString s) := by
          rintro ⟨digits, letters, heq, hne, hall, -⟩
          exact hdigits heq hne hall
        rw [sizeExact_refused libs hrefused]
        exact ⟨fun _ => Or.inr hnone, fun _ => hnosize⟩

/-- **Sizes that are something else**: with two suffix letters, with a product from 2^63 on and with
    one above 2^64; and a number without a suffix, which is refused. -/
theorem sizes_otherwise :
    (let out := Config.read Config.plainLibraries {}
        (sizeSetting.text logsBefore logsAfter (str "10kg"))
     out.1 = some true ∧ sizeField 0 out.2 = some 10000) ∧
    (let out := Config.read Config.plainLibraries {}
        (sizeSetting.text logsBefore logsAfter (str "9000000000G"))
     out.1 = some true ∧ sizeField 0 out.2 = some (-8783067657709551616)) ∧
    (let out := Config.read Config.plainLibraries {}
        (sizeSetting.text logsBefore logsAfter (str "17179869185G"))
     out.1 = some true ∧ sizeField 0 out.2 = some 1073741824) ∧
    (Config.read Config.plainLibraries {}
      (sizeSetting.text logsBefore logsAfter (str "1000"))).1 = some false := by
  decide +kernel

end ConfigFile

end Mclog
