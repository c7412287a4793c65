import Mclog.Equiv.ConfigSettings

/-!
# A setting in the text of a configuration

The tokens of words, punctuation and quoted texts, and from them those of `name = value;` in any
text before and behind it (`scanAll_text`).  Where the text is accepted with one value
(`Surrounds`), what it is read as with another depends on the token of that value only
(`Surrounds.reads`).
-/

namespace Mclog

open General

namespace ConfigFile

/-! ### Tokens -/

/-- A character of a word starts none of the other tokens. -/
theorem longest_of_isWord {c : UInt8} (hc : isWord c = true) (input : Str) :
    ∀ r ∈ initialRules.drop 2, r.1.longest (c :: input) ≤ 1 := by
  have hblank : isBlank c = false := by
    by_contra h
    simp [isWord, h] at hc
  have hpunct : (punctuation.any fun p => p.1 == c) = false := by
    by_contra h
    simp [isWord, h] at hc
  have hhead : c ≠ 33 ∧ c ≠ 124 ∧ c ≠ 38 ∧ c ≠ quote := by
    simp only [isWord, Bool.not_eq_true', Bool.or_eq_false_iff, beq_eq_false_iff_ne] at hc
    exact ⟨hc.1.1.1.2, hc.1.1.2, hc.1.2, hc.2⟩
  obtain ⟨hnot, hor, hand, hquote⟩ := hhead
  have hliteral {d : UInt8} (hd : c ≠ d) (s : Str) :
      (Pattern.literal (d :: s)).longest (c :: input) = 0 :=
    Pattern.literal_of_head_ne (by simp) (by simpa using fun h => hd h.symm) _
  intro r hr
  simp only [initialRules, List.drop, List.mem_cons, List.not_mem_nil, or_false] at hr
  rcases hr with rfl | rfl | rfl | rfl | rfl | rfl | rfl | rfl
  · exact (hliteral hor _).trans_le (Nat.zero_le _)
  · exact (hliteral hand _).trans_le (Nat.zero_le _)
  · exact (hliteral hnot _).trans_le (Nat.zero_le _)
  · exact (hliteral hquote _).trans_le (Nat.zero_le _)
  · exact (hliteral hquote _).trans_le (Nat.zero_le _)
  · exact Nat.min_le_left _ _
  · exact Nat.min_le_left _ _
  · exact Nat.min_le_left _ _

/-- **A word**, which is not the start of a comment. -/
theorem scanAll_word {w rest : Str} (hne : w ≠ []) (hw : ∀ c ∈ w, isWord c = true)
    (hhash : w.head? ≠ some 35) (hrest : ∀ c ∈ rest.head?, isWord c = false) :
    scanner.scanAll .INITIAL (w ++ rest) =
      wordToken (cString w) :: scanner.scanAll .INITIAL rest := by
  have hlong : (Pattern.many isWord).longest (w ++ rest) = w.length := Pattern.many_append hw hrest
  have hpos : 0 < w.length := List.length_pos_of_ne_nil hne
  obtain ⟨c, w', rfl⟩ := List.exists_cons_of_ne_nil hne
  have hcomment : comment.longest (c :: w' ++ rest) = 0 := by
    have hc : c ≠ 35 := fun h => hhash (by rw [h]; rfl)
    simp [comment, hc]
  have hsel : select initialRules (c :: w' ++ rest) = some ((c :: w').length,
      fun yytext => (.INITIAL, some (wordToken (cString yytext)))) := by
    rw [← hlong]
    refine select_of_split (initialRules.take 1) (initialRules.drop 2) rfl ?_ ?_ ?_
    · intro r hr
      obtain rfl : r = (comment, fun _ => (.INITIAL, none)) := List.mem_singleton.mp hr
      rw [hcomment, hlong]
      exact hpos
    · intro r hr
      rw [hlong]
      exact (longest_of_isWord (hw c (by simp)) (w' ++ rest) r hr).trans hpos
    · rw [hlong]
      exact hpos
  have haction : (fun yytext => (StartCondition.INITIAL, some (wordToken (cString yytext))))
      ((c :: w' ++ rest).take (c :: w').length) =
        (StartCondition.INITIAL, some (wordToken (cString (c :: w')))) := by
    rw [List.take_left]
  rw [scanner.scanAll_of_token (s := .INITIAL) hsel haction, List.drop_left]

/-- A blank. -/
theorem scanAll_blank {c : UInt8} (hc : isBlank c = true) (rest : Str) :
    scanner.scanAll .INITIAL (c :: rest) = scanner.scanAll .INITIAL rest :=
  scanner.scanAll_of_next_eq (next_blank hc rest)

/-- One of the punctuation characters. -/
theorem scanAll_punctuation {p : UInt8 × Token} (hp : p ∈ punctuation) (rest : Str) :
    scanner.scanAll .INITIAL (p.1 :: rest) = p.2 :: scanner.scanAll .INITIAL rest := by
  have hselect : ∀ p ∈ punctuation, selectResult initialRules [p.1] =
      some (1, .INITIAL, some p.2) := by decide +kernel
  have hword : ∀ p ∈ punctuation, isWord p.1 = false := by decide
  have hhead : ∀ p ∈ punctuation, p.1 ≠ 35 ∧ p.1 ≠ 33 ∧ p.1 ≠ 124 ∧ p.1 ≠ 38 ∧ p.1 ≠ quote := by
    decide
  obtain ⟨hhash, hnot, hor, hand, hquote⟩ := hhead p hp
  -- All patterns see the one character only.
  have happend : ∀ r ∈ initialRules, r.1.longest ([p.1] ++ rest) = r.1.longest [p.1] := by
    have hliteral {d : UInt8} (hd : p.1 ≠ d) (s input : Str) :
        (Pattern.literal (d :: s)).longest (p.1 :: input) = 0 :=
      Pattern.literal_of_head_ne (by simp) (by simpa using fun h => hd h.symm) _
    intro r hr
    simp only [initialRules, List.mem_cons, List.not_mem_nil, or_false] at hr
    rcases hr with rfl | rfl | rfl | rfl | rfl | rfl | rfl | rfl | rfl | rfl
    · simp [comment, hhash]
    · exact Pattern.many_append_of_leaves ⟨p.1, by simp, hword p hp⟩ rest
    · exact (hliteral hor _ _).trans (hliteral hor _ _).symm
    · exact (hliteral hand _ _).trans (hliteral hand _ _).symm
    · exact (hliteral hnot _ _).trans (hliteral hnot _ _).symm
    · exact (hliteral hquote _ _).trans (hliteral hquote _ _).symm
    · exact (hliteral hquote _ _).trans (hliteral hquote _ _).symm
    · exact Pattern.one_append (by simp) rest
    · exact Pattern.one_append (by simp) rest
    · exact Pattern.one_append (by simp) rest
  exact scanner.scanAll_append (s := .INITIAL) happend (hselect p hp)

/-- The patterns that do not start with a quote. -/
theorem longest_quote (input : Str) :
    ∀ r ∈ initialRules.take 5, r.1.longest (quote :: input) = 0 := by
  intro r hr
  simp only [initialRules, List.take, List.mem_cons, List.not_mem_nil, or_false] at hr
  rcases hr with rfl | rfl | rfl | rfl | rfl
  · rfl
  · exact Pattern.many_of_head isWord (by decide) input
  · exact Pattern.literal_of_head_ne (by decide) (by decide) input
  · exact Pattern.literal_of_head_ne (by decide) (by decide) input
  · exact Pattern.literal_of_head_ne (by decide) (by decide) input

/-- The patterns for one character. -/
theorem longest_one (input : Str) : ∀ r ∈ initialRules.drop 7, r.1.longest input ≤ 1 := by
  intro r hr
  simp only [initialRules, List.drop, List.mem_cons, List.not_mem_nil, or_false] at hr
  rcases hr with rfl | rfl | rfl
  · exact Nat.min_le_left _ _
  · exact Nat.min_le_left _ _
  · exact Nat.min_le_left _ _

/-- Two quotes are one token. -/
theorem select_quote_quote (rest : Str) : select initialRules (quote :: quote :: rest) =
    some (2, fun _ => (.INITIAL, some (.STRING []))) := by
  have htwo : (Pattern.literal [quote, quote]).longest (quote :: quote :: rest) = 2 := by
    simp [Pattern.literal]
  rw [← htwo]
  refine select_of_split (initialRules.take 5) (initialRules.drop 6) rfl ?_ ?_ (by omega)
  · intro r hr
    rw [longest_quote _ r hr, htwo]
    exact Nat.two_pos
  · intro r hr
    rw [htwo]
    obtain rfl | hr := List.mem_cons.mp (show r ∈ _ :: initialRules.drop 7 from hr)
    · simp [Pattern.literal]
    · exact (longest_one _ r hr).trans (by omega)

/-- A quote opens a quoted text that is not empty. -/
theorem select_quote {c : UInt8} (hc : c ≠ quote) (input : Str) :
    select initialRules (quote :: c :: input) = some (1, fun _ => (.x_quoted, none)) := by
  have hone : (Pattern.literal [quote]).longest (quote :: c :: input) = 1 := by
    simp [Pattern.literal]
  have hzero : (Pattern.literal [quote, quote]).longest (quote :: c :: input) = 0 := by
    simp [Pattern.literal, hc.symm]
  have hsplit : initialRules.take 6 = initialRules.take 5 ++
      [(.literal [quote, quote], fun _ => (.INITIAL, some (.STRING [])))] := rfl
  rw [← hone]
  refine select_of_split (initialRules.take 6) (initialRules.drop 7) rfl ?_ ?_ (by omega)
  · intro r hr
    rw [hone]
    rw [hsplit, List.mem_append, List.mem_singleton] at hr
    obtain hr | rfl := hr
    · rw [longest_quote _ r hr]
      exact Nat.one_pos
    · rw [hzero]
      exact Nat.one_pos
  · intro r hr
    rw [hone]
    exact longest_one _ r hr

/-- What is between the quotes is one token. -/
theorem select_quoted {s : Str} (hne : s ≠ []) (hs : quote ∉ s) (rest : Str) :
    select quotedRules (s ++ quote :: rest) =
      some (s.length, fun yytext => (.x_quoted, some (.STRING (cString yytext)))) := by
  have hlong : (Pattern.many (· != quote)).longest (s ++ quote :: rest) = s.length := by
    refine Pattern.many_append (fun d hd => ?_) fun d hd => ?_
    · have hne : d ≠ quote := fun h => hs (h ▸ hd)
      simpa using hne
    · obtain rfl : quote = d := by simpa using hd
      simp
  have hpos : 0 < s.length := List.length_pos_of_ne_nil hne
  obtain ⟨c, s, rfl⟩ := List.exists_cons_of_ne_nil hne
  have hc : c ≠ quote := fun h => hs (by simp [h])
  have hzero : (Pattern.literal [quote]).longest (c :: s ++ quote :: rest) = 0 :=
    Pattern.literal_of_head_ne (by simp) (by simpa using hc.symm) _
  rw [← hlong]
  refine select_of_split [] _ rfl (fun r hr => by cases hr) (fun r hr => ?_) (hlong ▸ hpos)
  obtain rfl : r = (.literal [quote], fun _ => (.INITIAL, none)) := by simpa using hr
  rw [hzero]
  exact Nat.zero_le _

/-- The quote behind it ends it. -/
theorem select_quoted_quote (rest : Str) :
    select quotedRules (quote :: rest) = some (1, fun _ => (.INITIAL, none)) := by
  have hlast : (Pattern.literal [quote]).longest (quote :: rest) = 1 := by simp [Pattern.literal]
  have hzero : (Pattern.many (· != quote)).longest (quote :: rest) = 0 :=
    Pattern.many_of_head (· != quote) (by simp) rest
  rw [← hlast]
  refine select_of_split (quotedRules.take 1) [] rfl (fun r hr => ?_) (fun r hr => by cases hr)
    (by omega)
  obtain rfl := List.mem_singleton.mp hr
  rw [hzero, hlast]
  exact Nat.one_pos

/-- **A quoted text**, which has no quote in it. -/
theorem scanAll_quoted {s : Str} (hs : quote ∉ s) (rest : Str) :
    scanner.scanAll .INITIAL (quote :: (s ++ quote :: rest)) =
      .STRING (cString s) :: scanner.scanAll .INITIAL rest := by
  cases s with
  | nil => exact scanner.scanAll_of_token (s := .INITIAL) (select_quote_quote rest) rfl
  | cons c s =>
    have hc : c ≠ quote := fun h => hs (by simp [h])
    have hopen := select_quote hc (s ++ quote :: rest)
    have htext := select_quoted (List.cons_ne_nil c s) hs rest
    have hclose := select_quoted_quote rest
    have haction : (fun yytext => (StartCondition.x_quoted, some (Token.STRING (cString yytext))))
        ((c :: s ++ quote :: rest).take (c :: s).length) =
          (StartCondition.x_quoted, some (Token.STRING (cString (c :: s)))) := by
      rw [List.take_left]
    rw [List.cons_append, scanner.scanAll_of_skip (s := .INITIAL) hopen rfl, List.drop_one,
      List.tail_cons, ← List.cons_append,
      scanner.scanAll_of_token (s := .x_quoted) htext haction, List.drop_left,
      scanner.scanAll_of_skip (s := .x_quoted) hclose rfl]
    rfl

/-! ### A setting with its surroundings -/

/-- The text of a value is read as one token. -/
def Scans (value : Str) (t : Token) : Prop :=
  ∀ rest, scanner.scanAll .INITIAL (value ++ 59 :: rest) =
    t :: scanner.scanAll .INITIAL (59 :: rest)

theorem scans_word {w : Str} (hne : w ≠ []) (hw : ∀ c ∈ w, isWord c = true)
    (hhash : w.head? ≠ some 35) : Scans w (wordToken (cString w)) :=
  fun _ => scanAll_word hne hw hhash (by simp [isWord, punctuation])

theorem scans_quoted {s : Str} (hs : quote ∉ s) :
    Scans (quote :: (s ++ [quote])) (.STRING (cString s)) := by
  intro rest
  rw [List.cons_append, List.append_assoc, List.singleton_append]
  exact scanAll_quoted hs _

/-- The name of a setting, and two values that it takes. -/
structure Setting where
  name : Str
  keyword : Keyword
  one : Str
  two : Str
  /-- The name is a word and the keyword's. -/
  isWord_name : name.all isWord = true
  head_name : name.head? ≠ none ∧ name.head? ≠ some 35
  wordToken_name : wordToken (cString name) = .keyword keyword
  /-- It is the name of a setting with a value, and no value. -/
  not_stanza : stanzaStart keyword = .error .failed
  not_value : ∀ libs k, valueOf libs k (.keyword keyword) = .error .failed
  ne_LOGS : keyword ≠ .LOGS

/-- `before name = value; after`. -/
def Setting.text (setting : Setting) (before after value : Str) : Str :=
  before ++ (setting.name ++ (str " = " ++ (value ++ 59 :: after)))

variable (libs : Libraries)

/-- A token of the name is read where it stands in the text, and the text is accepted with the first
    of the values. -/
structure Surrounds (cfg : Config) (setting : Setting) (before after : Str) : Prop where
  starts : ∀ rest, scanner.scanAll .INITIAL (before ++ (setting.name ++ rest)) =
    scanner.scanAll .INITIAL before ++ scanner.scanAll .INITIAL (setting.name ++ rest)
  accepted : (Config.read libs cfg (setting.text before after setting.one)).1 = some true

/-- The tokens of the text. -/
theorem scanAll_text {setting : Setting} {before after value : Str} {t : Token}
    (hstarts : ∀ rest, scanner.scanAll .INITIAL (before ++ (setting.name ++ rest)) =
      scanner.scanAll .INITIAL before ++ scanner.scanAll .INITIAL (setting.name ++ rest))
    (hvalue : Scans value t) :
    scanner.scanAll .INITIAL (setting.text before after value) =
      scanner.scanAll .INITIAL before ++
        .keyword setting.keyword :: .equals :: t :: .semicolon ::
          scanner.scanAll .INITIAL after := by
  have hequals : str " = " ++ (value ++ 59 :: after) =
      32 :: 61 :: 32 :: (value ++ 59 :: after) := rfl
  have hname : scanner.scanAll .INITIAL (setting.name ++ (str " = " ++ (value ++ 59 :: after))) =
      wordToken (cString setting.name) ::
        scanner.scanAll .INITIAL (str " = " ++ (value ++ 59 :: after)) := by
    refine scanAll_word (fun h => setting.head_name.1 (by rw [h]; rfl))
      (List.all_eq_true.mp setting.isWord_name) setting.head_name.2 fun c hc => ?_
    obtain rfl : 32 = c := by simpa [hequals] using hc
    rfl
  rw [Setting.text, hstarts, hname, setting.wordToken_name, hequals, scanAll_blank (by decide),
    scanAll_punctuation (p := (61, .equals)) (by decide), scanAll_blank (by decide), hvalue,
    scanAll_punctuation (p := (59, .semicolon)) (by decide)]

/-- The value that a token is, and whether there is one. -/
def readValue (k : Keyword) : Token → Except Stop Value
  | .outOfRange => .error .thrown
  | t => valueOf libs k t

/-- Where the value of a setting is expected. -/
theorem consume_settingEquals (cfg : Config) (s : Settings) (k : Keyword) (t : Token) :
    consume libs (cfg, .settingEquals s k) t =
      match readValue libs k t with
      | .ok v => .ok (cfg, .settingValue s k v)
      | .error stop => .error (stop, cfg) := by
  cases t with
  | outOfRange => rfl
  | _ =>
    simp only [consume, next, readValue]
    generalize valueOf libs k _ = r
    cases r <;> rfl

/-- What `Parse` returns for an error: an exception goes through it. -/
def Stop.result : Stop → Option Bool
  | .failed => some false
  | .thrown => none

theorem ofResult_error (stop : Stop) (cfg : Config) :
    (Config.ofResult (.error (stop, cfg))).1 = stop.result := by
  cases stop <;> rfl

/-- An error is no success. -/
theorem ofResult_error_ne (stop : Stop) (cfg : Config) :
    (Config.ofResult (.error (stop, cfg))).1 ≠ some true := by
  cases stop <;> simp [Config.ofResult]

/-- A name of a setting is accepted between the braces only. -/
theorem consume_keyword {p p' : Config × State} {setting : Setting}
    (h : consume libs p (.keyword setting.keyword) = .ok p') :
    ∃ s, s.allows setting.keyword = true ∧ p' = (p.1, .settingName s setting.keyword) := by
  obtain ⟨cfg, st⟩ := p
  cases st with
  | settings s =>
    have hname := next_settings_keyword libs cfg.filters s setting.ne_LOGS
    rw [consume, hname] at h
    split_ifs at h with hallows
    exact ⟨s, hallows, (Except.ok.inj h).symm⟩
  | settingEquals s k =>
    have hnone : readValue libs k (.keyword setting.keyword) = .error .failed :=
      setting.not_value libs k
    rw [consume_settingEquals, hnone] at h
    cases h
  | config stanzas =>
    have hstart : next libs cfg.filters (.config stanzas) (.keyword setting.keyword) =
        .error .failed := by
      show (do
        let st ← stanzaStart setting.keyword
        pure (st, none)) = _
      rw [setting.not_stanza]
      rfl
    rw [consume, hstart] at h
    cases h
  | _ => cases h

/-- **A text with a setting is read up to the value**: whatever the value is, the parser is then in
    the same settings, and goes on with the same tokens. -/
theorem Surrounds.reads {cfg : Config} {setting : Setting} {before after : Str} {t₁ : Token}
    (h : Surrounds libs cfg setting before after) (hone : Scans setting.one t₁) :
    ∃ read s, s.allows setting.keyword = true ∧ ∀ value t, Scans value t →
      Config.read libs cfg (setting.text before after value) = Config.ofResult
        (match readValue libs setting.keyword t with
        | .ok v => (Token.semicolon :: scanner.scanAll .INITIAL after).foldlM (consume libs)
            (read, .settingValue s setting.keyword v)
        | .error stop => .error (stop, read)) := by
  have haccepted := h.accepted
  have hok {α : Type} (p : Config × State) (f : Config × State → Except (Stop × Config) α) :
      Except.ok p >>= f = f p := rfl
  have herror {α : Type} (e : Stop × Config) (f : Config × State → Except (Stop × Config) α) :
      Except.error e >>= f = Except.error e := rfl
  rw [Config.read, scanAll_text h.starts hone, List.foldlM_append] at haccepted
  cases hbefore : (scanner.scanAll .INITIAL before).foldlM (consume libs)
      (cfg.init, .config false) with
  | error e =>
    rw [hbefore] at haccepted
    exact absurd haccepted (ofResult_error_ne e.1 e.2)
  | ok p =>
    rw [hbefore, hok, List.foldlM_cons] at haccepted
    cases hkeyword : consume libs p (.keyword setting.keyword) with
    | error e =>
      rw [hkeyword, herror] at haccepted
      exact absurd haccepted (ofResult_error_ne e.1 e.2)
    | ok p' =>
      obtain ⟨s, hallows, rfl⟩ := consume_keyword libs hkeyword
      have hequals : consume libs (p.1, .settingName s setting.keyword) .equals =
          .ok (p.1, .settingEquals s setting.keyword) := rfl
      refine ⟨p.1, s, hallows, fun value t hvalue => ?_⟩
      rw [Config.read, scanAll_text h.starts hvalue, List.foldlM_append, hbefore, hok,
        List.foldlM_cons, hkeyword, hok, List.foldlM_cons, hequals, hok, List.foldlM_cons,
        consume_settingEquals]
      cases readValue libs setting.keyword t with
      | ok v => rfl
      | error stop => rfl

/-- **What a text is read as with two values**: the values differ in numbers, and so do the
    configurations, whatever else the text has. -/
theorem Surrounds.read_alike {N : NumberRel} {cfg : Config} {setting : Setting}
    {before after : Str} {t₁ : Token} (h : Surrounds libs cfg setting before after)
    (hone : Scans setting.one t₁) {value value' : Str} {t t' : Token} (hvalue : Scans value t)
    (hvalue' : Scans value' t') {v v' : Value}
    (hv : readValue libs setting.keyword t = .ok v)
    (hv' : readValue libs setting.keyword t' = .ok v') (halike : v.Alike N setting.keyword v') :
    (Config.read libs cfg (setting.text before after value)).1 =
        (Config.read libs cfg (setting.text before after value')).1 ∧
      (Config.read libs cfg (setting.text before after value)).2.Alike N
        (Config.read libs cfg (setting.text before after value')).2 := by
  obtain ⟨read, s, -, hreads⟩ := h.reads libs hone
  rw [hreads value t hvalue, hreads value' t' hvalue', hv, hv']
  refine Config.ofResult_alike (Related.foldlM (fun _ _ t h => consume_alike libs h t) ?_ _)
  exact ⟨.refl N read, .settingValue (.refl s) halike⟩

/-- A value that is refused. -/
theorem Surrounds.read_error {cfg : Config} {setting : Setting} {before after : Str} {t₁ : Token}
    (h : Surrounds libs cfg setting before after) (hone : Scans setting.one t₁) {value : Str}
    {t : Token} (hvalue : Scans value t) {stop : Stop}
    (hstop : readValue libs setting.keyword t = .error stop) :
    (Config.read libs cfg (setting.text before after value)).1 = stop.result := by
  obtain ⟨read, s, -, hreads⟩ := h.reads libs hone
  rw [hreads value t hvalue, hstop]
  exact ofResult_error stop read

/-! ### What a setting decides -/

/-- A field of the configuration read depends on which of its two values the setting has: the
    setting is the one that decides the field. -/
def Setting.Decides {β : Type} (setting : Setting) (cfg : Config) (before after : Str)
    (field : Config → β) : Prop :=
  field (Config.read libs cfg (setting.text before after setting.one)).2 ≠
    field (Config.read libs cfg (setting.text before after setting.two)).2

/-- What differs from the results with two other values is the value itself. -/
theorem eq_of_decided {β : Type} {x x₁ x₂ n n₁ n₂ : β} (h₁ : x = x₁ ∨ x = n ∧ x₁ = n₁)
    (h₂ : x = x₂ ∨ x = n ∧ x₂ = n₂) (hne : x₁ ≠ x₂) : x = n := by
  obtain h₁ | ⟨h₁, -⟩ := h₁
  · obtain h₂ | ⟨h₂, -⟩ := h₂
    · exact absurd (h₁.symm.trans h₂) hne
    · exact h₂
  · exact h₁

/-- **What a setting stores**: a value that is like the two given ones, but for a number, is
    accepted with them, and its number is what the fields have that the setting decides. -/
theorem Surrounds.stored {N M : NumberRel} {cfg : Config} {setting : Setting}
    {before after value : Str} {t t₁ t₂ : Token} {v v₁ v₂ : Value}
    (h : Surrounds libs cfg setting before after) (hone : Scans setting.one t₁)
    (htwo : Scans setting.two t₂) (hvalue : Scans value t)
    (hv₁ : readValue libs setting.keyword t₁ = .ok v₁)
    (hv₂ : readValue libs setting.keyword t₂ = .ok v₂)
    (hv : readValue libs setting.keyword t = .ok v) (halike₁ : v.Alike N setting.keyword v₁)
    (halike₂ : v.Alike M setting.keyword v₂) :
    (Config.read libs cfg (setting.text before after value)).1 = some true ∧
      ∀ {β : Type} {field : Config → β} {n n₁ n₂ : β},
        (∀ {a b : Config}, a.Alike N b → field a = field b ∨ field a = n ∧ field b = n₁) →
        (∀ {a b : Config}, a.Alike M b → field a = field b ∨ field a = n ∧ field b = n₂) →
        setting.Decides libs cfg before after field →
        field (Config.read libs cfg (setting.text before after value)).2 = n := by
  have hread₁ := h.read_alike libs hone hvalue hone hv hv₁ halike₁
  have hread₂ := h.read_alike libs hone hvalue htwo hv hv₂ halike₂
  refine ⟨hread₁.1.trans h.accepted, fun hfield₁ hfield₂ hdecides => ?_⟩
  exact eq_of_decided (hfield₁ hread₁.2) (hfield₂ hread₂.2) hdecides

/-- What entries of two lists have in one place, if they are the same or the two given values. -/
theorem getElem?_of_forall₂ {α β : Type} {R : α → α → Prop} {l l' : List α}
    (h : List.Forall₂ R l l') {f : α → β} {n n' : β}
    (hf : ∀ a a', R a a' → f a = f a' ∨ f a = n ∧ f a' = n') (i : Nat) :
    l[i]?.map f = l'[i]?.map f ∨ l[i]?.map f = some n ∧ l'[i]?.map f = some n' := by
  induction h generalizing i with
  | nil => exact Or.inl rfl
  | @cons a a' l l' hhead _ ih =>
    cases i with
    | zero =>
      show some (f a) = some (f a') ∨ some (f a) = some n ∧ some (f a') = some n'
      obtain heq | ⟨hn, hn'⟩ := hf a a' hhead
      · exact Or.inl (congrArg some heq)
      · exact Or.inr ⟨congrArg some hn, congrArg some hn'⟩
    | succ i => exact ih i

/-! ### An entry of logs -/

/-- What is before a setting that is the only one of an entry of `logs`. -/
def logsBefore : Str := str "files\x7blogs\x7b\x7b"

/-- What is behind it. -/
def logsAfter : Str := str "\x7d\x7d;\x7d;"

theorem starts_logs (setting : Setting) (rest : Str) :
    scanner.scanAll .INITIAL (logsBefore ++ (setting.name ++ rest)) =
      scanner.scanAll .INITIAL logsBefore ++ scanner.scanAll .INITIAL (setting.name ++ rest) := by
  have hsplit : logsBefore ++ (setting.name ++ rest) =
      str "files" ++ 123 :: (str "logs" ++ 123 :: 123 :: (setting.name ++ rest)) := rfl
  have hbefore : scanner.scanAll .INITIAL logsBefore =
      [.keyword .FILES, .openBrace, .keyword .LOGS, .openBrace, .openBrace] := by decide +kernel
  have hbrace := scanAll_punctuation (p := (123, .openBrace)) (by decide)
  rw [hsplit, hbefore, scanAll_word (by decide) (List.all_eq_true.mp rfl) (by decide)
    (by simp [isWord, punctuation]), hbrace, scanAll_word (by decide) (List.all_eq_true.mp rfl)
    (by decide) (by simp [isWord, punctuation]), hbrace, hbrace]
  rfl

/-- The tokens of such a configuration. -/
theorem scanAll_logs {setting : Setting} {value : Str} {t : Token} (hvalue : Scans value t) :
    scanner.scanAll .INITIAL (setting.text logsBefore logsAfter value) =
      [.keyword .FILES, .openBrace, .keyword .LOGS, .openBrace, .openBrace,
        .keyword setting.keyword, .equals, t, .semicolon, .closeBrace, .closeBrace, .semicolon,
        .closeBrace, .semicolon] := by
  have hbefore : scanner.scanAll .INITIAL logsBefore =
      [.keyword .FILES, .openBrace, .keyword .LOGS, .openBrace, .openBrace] := by decide +kernel
  have hafter : scanner.scanAll .INITIAL logsAfter =
      [.closeBrace, .closeBrace, .semicolon, .closeBrace, .semicolon] := by decide +kernel
  rw [scanAll_text (starts_logs setting) hvalue, hbefore, hafter]
  rfl

end ConfigFile

end Mclog
