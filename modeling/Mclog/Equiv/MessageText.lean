import Mclog.Equiv.LogFile
import Mclog.Equiv.Message
import Mclog.Equiv.TimestampText

/-!
# The text of messages

What `operator>>` of an origin takes is said by `OriginText`: two words, the second with brackets in
it.  The printed form of a message is read back if it is `Readable` and its local year has four
digits; and whatever is read is `Readable`, so that no list of messages with any other in it is read
back (`extractAll_messageText_iff`).

Between the brackets `stoul` takes more than a number of 32 bits, and throws for what it does not
take; `returnsPrinted_iff` says when that does not show.
-/

namespace Mclog

open General Extractor TimestampParts

/-! ### Origins -/

/-- The text starts with a hostname and a word that has `digits` between its first brackets. -/
def OriginText (s hostname appname digits rest : Str) : Prop :=
  ∃ mid after, word isspace s = .ok (hostname, mid) ∧
    word isspace mid =
      .ok (appname ++ bracketOpen :: (digits ++ bracketClose :: after), rest) ∧
    hostname.length ≤ 255 ∧ appname.length < 255 ∧ bracketOpen ∉ appname ∧
    bracketClose ∉ appname ∧ bracketClose ∉ digits ∧ digits ≠ []

/-- `find_first_of` a character. -/
theorem findIdx?_eq_some_iff_append {c : UInt8} {s : Str} {i : Nat} :
    s.findIdx? (fun a => a = c) = some i ↔
      c ∉ s.take i ∧ s = s.take i ++ c :: s.drop (i + 1) := by
  rw [List.findIdx?_eq_some_iff_getElem]
  constructor
  · rintro ⟨hi, heq, hbefore⟩
    have hc : s[i] = c := by simpa using heq
    refine ⟨?_, ?_⟩
    · intro hmem
      obtain ⟨j, hj, hget⟩ := List.mem_iff_getElem.mp hmem
      rw [List.length_take] at hj
      rw [List.getElem_take] at hget
      exact hbefore j (by omega) (by simpa using hget)
    · rw [← hc, ← List.drop_eq_getElem_cons hi, List.take_append_drop]
  · rintro ⟨hnot, heq⟩
    have hlen : i < s.length := by
      by_contra hge
      rw [List.take_of_length_le (by omega)] at hnot
      apply hnot
      rw [heq]
      simp
    refine ⟨hlen, ?_, ?_⟩
    · have hget : s[i]? = some c := by
        rw [heq, List.getElem?_append_right (List.length_take_le _ _), List.length_take,
          Nat.min_eq_left hlen.le, Nat.sub_self]
        rfl
      rw [List.getElem?_eq_getElem hlen] at hget
      simpa using hget
    · intro j hj heq'
      have hget : s[j] = c := by simpa using heq'
      apply hnot
      rw [← hget]
      exact List.mem_take_iff_getElem.mpr ⟨j, by omega, rfl⟩

/-- A text up to the character that is found, and after it. -/
theorem findIdx?_append_cons {c : UInt8} {pre : Str} (h : c ∉ pre) (post : Str) :
    (pre ++ c :: post).findIdx? (fun a => a = c) = some pre.length := by
  rw [findIdx?_eq_some_iff_append, List.take_left, ← List.drop_drop, List.drop_left]
  exact ⟨h, rfl⟩

/-- What is between two positions, and the character at the second. -/
theorem drop_eq_of_findIdx? {c : UInt8} {s : Str} {i j : Nat}
    (h : s.findIdx? (fun a => a = c) = some j) (hij : i ≤ j) :
    s.drop i = (s.drop i).take (j - i) ++ c :: s.drop (j + 1) := by
  obtain ⟨hnot, heq⟩ := findIdx?_eq_some_iff_append.mp h
  have hlen : i ≤ (s.take j).length := by
    have hle : j ≤ s.length := by
      have hlt := (List.findIdx?_eq_some_iff_getElem.mp h).1
      omega
    rw [List.length_take]
    omega
  conv_lhs => rw [heq, List.drop_append_of_le_length hlen, List.drop_take]

/-- **What the reader of an origin takes**, up to the process id. -/
theorem scan_eq_ok_iff {s digits rest : Str} {hostname appname : ShortString 255} :
    MessageOrigin.scan s = .ok ((hostname, appname, digits), rest) ↔
      OriginText s hostname.value appname.value digits rest := by
  unfold MessageOrigin.scan OriginText
  simp only [bind_eq_ok_iff]
  constructor
  · rintro ⟨hn, mid, hhost, procInfo, rest', hproc, h⟩
    split_ifs at h with hhn
    · cases haidx : procInfo.findIdx? (fun c => c = bracketOpen) with
      | none =>
        rw [haidx] at h
        cases h
      | some aidx =>
        simp only [haidx] at h
        split_ifs at h with hlt
        · cases hpidx : procInfo.findIdx? (fun c => c = bracketClose) with
          | none =>
            rw [hpidx] at h
            cases h
          | some pidx =>
            simp only [hpidx] at h
            split_ifs at h with hgt
            · obtain ⟨heq, rfl⟩ := Prod.mk.inj (Except.ok.inj h)
              obtain ⟨rfl, heq'⟩ := Prod.mk.inj heq
              obtain ⟨rfl, rfl⟩ := Prod.mk.inj heq'
              obtain ⟨hopen, hsplit⟩ := findIdx?_eq_some_iff_append.mp haidx
              obtain ⟨hclose, -⟩ := findIdx?_eq_some_iff_append.mp hpidx
              -- The word is the appname, what is between the brackets, and a rest.
              have hdrop := drop_eq_of_findIdx? hpidx (show aidx + 1 ≤ pidx by omega)
              refine ⟨mid, procInfo.drop (pidx + 1), hhost, ?_, hhn, ?_, hopen, ?_, ?_, ?_⟩
              · rw [← hdrop, ← hsplit]
                exact hproc
              · exact lt_of_le_of_lt (List.length_take_le _ _) hlt
              · intro hmem
                exact hclose (List.take_subset_take_left procInfo (by omega) hmem)
              · intro hmem
                rw [← List.drop_take] at hmem
                exact hclose (List.mem_of_mem_drop hmem)
              · have hlen := (List.findIdx?_eq_some_iff_getElem.mp hpidx).1
                apply List.ne_nil_of_length_pos
                rw [List.length_take, List.length_drop]
                omega
            · cases h
        · cases h
    · cases h
  · rintro ⟨mid, after, hhost, hproc, hhn, han, hopen, hclose, hclose', hne⟩
    refine ⟨_, _, hhost, _, _, hproc, ?_⟩
    have hpos := List.length_pos_of_ne_nil hne
    -- The first closing bracket is the one after the digits.
    have hpidx : (appname.value ++ bracketOpen :: (digits ++ bracketClose :: after)).findIdx?
        (fun c => c = bracketClose) = some (appname.value.length + 1 + digits.length) := by
      have hnot : bracketClose ∉ appname.value ++ bracketOpen :: digits := by
        rw [List.mem_append, List.mem_cons]
        rintro (hmem | hmem | hmem)
        · exact hclose hmem
        · exact absurd hmem (by decide)
        · exact hclose' hmem
      have hfind := findIdx?_append_cons hnot after
      rw [List.append_assoc, List.cons_append] at hfind
      rw [hfind, List.length_append, List.length_cons]
      congr 1
      omega
    have htake : (appname.value ++ bracketOpen :: (digits ++ bracketClose :: after)).take
        appname.value.length = appname.value := List.take_left
    have hdrop : (appname.value ++ bracketOpen :: (digits ++ bracketClose :: after)).drop
        (appname.value.length + 1) = digits ++ bracketClose :: after := by
      rw [← List.drop_drop, List.drop_left]
      rfl
    rw [dif_pos hhn]
    simp only [findIdx?_append_cons hopen]
    rw [dif_pos han]
    simp only [hpidx]
    rw [if_pos (by omega)]
    simp only [htake, hdrop, Nat.add_sub_cancel_left, List.take_left]
    rfl

theorem originText_of_extract {s rest : Str} {o : MessageOrigin}
    (h : MessageOrigin.extract s = .ok (o, rest)) :
    ∃ digits num, OriginText s o.hostname.value o.appname.value digits rest ∧
      stoul digits = some num ∧ o.procid = .ofNat num := by
  unfold MessageOrigin.extract at h
  obtain ⟨⟨hostname, appname, digits⟩, mid, hscan, h⟩ := bind_eq_ok_iff.mp h
  cases hnum : stoul digits with
  | none =>
    simp only [hnum] at h
    cases h
  | some num =>
    simp only [hnum] at h
    obtain ⟨rfl, rfl⟩ := Prod.mk.inj (Except.ok.inj h)
    exact ⟨digits, num, scan_eq_ok_iff.mp hscan, hnum, rfl⟩

/-! ### Words -/

/-- A word that can be printed between blanks. -/
def IsWord (w : Str) : Prop := w ≠ [] ∧ ∀ c ∈ w, isspace c = false

theorem word_between {w : Str} (h : IsWord w) (rest : Str) :
    word isspace (32 :: (w ++ 32 :: rest)) = .ok (w, 32 :: rest) := by
  have hblank : ∀ c ∈ [(32 : UInt8)], isspace c = true := by
    intro c hc
    rw [List.mem_singleton.mp hc]
    rfl
  have hrest : ∀ c ∈ (32 :: rest).head?, isspace c = true := by
    intro c hc
    rw [← Option.some.inj hc]
    rfl
  exact word_append hblank h.2 h.1 hrest

theorem isspace_of_isalnum {c : UInt8} (h : isalnum c = true) : isspace c = false := by
  have hbound : 48 ≤ c.toNat := by
    unfold isalnum at h
    rw [Bool.or_eq_true, Bool.or_eq_true] at h
    rcases h with (h | h) | h
    · exact (isdigit_iff.mp h).1
    · rw [Bool.and_eq_true, decide_eq_true_eq, UInt8.le_iff_toNat_le] at h
      exact le_trans (by decide) h.1
    · rw [Bool.and_eq_true, decide_eq_true_eq, UInt8.le_iff_toNat_le] at h
      exact le_trans (by decide) h.1
  unfold isspace
  rw [Bool.or_eq_false_iff, beq_eq_false_iff_ne, Bool.and_eq_false_iff, decide_eq_false_iff_not,
    decide_eq_false_iff_not, UInt8.le_iff_toNat_le, UInt8.le_iff_toNat_le]
  refine ⟨?_, Or.inr ?_⟩
  · rintro rfl
    exact absurd hbound (by decide)
  · show ¬c.toNat ≤ 13
    omega

theorem isspace_of_appNameChar {c : UInt8} (h : appNameChar c = true) : isspace c = false := by
  unfold appNameChar at h
  rw [Bool.or_eq_true] at h
  rcases h with h | h
  · exact isspace_of_isalnum h
  · simp only [Bool.or_eq_true, beq_iff_eq, or_assoc] at h
    rcases h with rfl | rfl | rfl <;> rfl

theorem isspace_of_hostnameChar {c : UInt8} (h : hostnameChar c = true) : isspace c = false := by
  unfold hostnameChar at h
  rw [Bool.or_eq_true] at h
  rcases h with h | h
  · exact isspace_of_isalnum h
  · simp only [Bool.or_eq_true, beq_iff_eq] at h
    rcases h with rfl | rfl <;> rfl

theorem isWord_of_isValidName {ok : UInt8 → Bool} (hok : ∀ {c}, ok c = true → isspace c = false)
    {s : Str} (h : isValidName ok s = true) : IsWord s := by
  obtain ⟨hne, hall⟩ := (isValidName_iff ok s).mp h
  exact ⟨hne, fun c hc => hok (hall c hc)⟩

/-! ### Facilities and severities -/

/-- The facility has a name of its own. -/
def Facility.Named (f : Facility) : Prop := f ∈ g_facilities.map Prod.fst

instance (f : Facility) : Decidable f.Named :=
  inferInstanceAs (Decidable (f ∈ g_facilities.map Prod.fst))

theorem facilityValue_facilityName {f : Facility} (h : f.Named) :
    facilityValue (facilityName f) = f := by
  have hall : ∀ f ∈ g_facilities.map Prod.fst, facilityValue (facilityName f) = f := by decide
  exact hall f h

theorem named_facilityValue (name : Str) : (facilityValue name).Named := by
  unfold facilityValue
  cases h : g_facilities.find? fun p => p.2 = name with
  | none => decide
  | some p => exact List.mem_map_of_mem (List.mem_of_find?_eq_some h)

theorem isWord_facilityName (f : Facility) : IsWord (facilityName f) := by
  have hnames : ∀ p ∈ g_facilities, p.2 ≠ [] ∧ p.2.all (fun c => !isspace c) = true := by decide
  have hword : ∀ {w : Str}, w ≠ [] ∧ w.all (fun c => !isspace c) = true → IsWord w := by
    rintro w ⟨hne, hall⟩
    rw [List.all_eq_true] at hall
    exact ⟨hne, fun c hc => by simpa using hall c hc⟩
  unfold facilityName
  cases h : g_facilities.find? fun p => p.1 = f with
  | none => exact hword (by decide)
  | some p => exact hword (hnames p (List.mem_of_find?_eq_some h))

theorem facility_extract_eq_ok_iff {s rest : Str} {f : Facility} :
    Facility.extract s = .ok (f, rest) ↔
      ∃ w, word isspace s = .ok (w, rest) ∧ f = facilityValue w := by
  unfold Facility.extract
  rw [bind_eq_ok_iff]
  constructor
  · rintro ⟨w, mid, hw, h⟩
    obtain ⟨rfl, rfl⟩ := Prod.mk.inj (Except.ok.inj h)
    exact ⟨w, hw, rfl⟩
  · rintro ⟨w, hw, rfl⟩
    exact ⟨w, rest, hw, rfl⟩

theorem severity_extract_between {sev : Severity} (h : sev.code ≤ Severity.debug.code)
    (rest : Str) : Severity.extract (32 :: (LogFile.severityText sev ++ 32 :: rest)) =
      .ok (sev, 32 :: rest) := by
  obtain ⟨code⟩ := sev
  have hle : code.toNat ≤ 7 := UInt8.le_iff_toNat_le.mp h
  obtain ⟨n, hn, rfl⟩ : ∃ n : Nat, n ≤ 7 ∧ code = .ofNat n :=
    ⟨code.toNat, hle, (UInt8.ofNat_toNat).symm⟩
  have hread : ∀ {w : Str} {sev : Severity}, w.all (fun c => !isspace c) = true → w ≠ [] →
      (severities.find? fun p => p.1 = w) = some (w, sev) →
        Severity.extract (32 :: (w ++ 32 :: rest)) = .ok (sev, 32 :: rest) := by
    intro w sev hall hne hfind
    rw [List.all_eq_true] at hall
    unfold Severity.extract
    rw [bind_of_ok (word_between ⟨hne, fun c hc => by simpa using hall c hc⟩ rest)]
    simp only [hfind]
    rfl
  interval_cases n <;> exact hread (by decide) (by decide) (by decide)

/-! ### What is read -/

/-- The messages whose parts can be read in the text form. -/
structure Message.Readable (m : Message) : Prop where
  facility : m.header.facility.Named
  appname : m.header.origin.appname.value.length < 255
  message : ∃ c ∈ m.message.value.head?, isspace c = false

theorem message_extract_eq_ok_iff {s rest : Str} {m : Message} :
    Message.extract s = .ok (m, rest) ↔
      ∃ s₁ s₂ s₃ s₄, Timestamp.extract s = .ok (m.header.timestamp, s₁) ∧
        Facility.extract s₁ = .ok (m.header.facility, s₂) ∧
        MessageOrigin.extract s₂ = .ok (m.header.origin, s₃) ∧
        Severity.extract s₃ = .ok (m.header.severity, s₄) ∧
        line 10 (s₄.dropWhile isspace) = .ok (m.message.value, rest) := by
  unfold Message.extract MessageHeader.extract
  simp only [bind_eq_ok_iff]
  constructor
  · rintro ⟨header, mid, ⟨ts, s₁, hts, f, s₂, hf, o, s₃, ho, sev, s₄, hsev, hpure⟩, _, s₅, hws, l, s₆,
      hline, h⟩
    obtain ⟨rfl, rfl⟩ := Prod.mk.inj (Except.ok.inj hpure)
    obtain ⟨-, rfl⟩ := Prod.mk.inj (Except.ok.inj hws)
    split_ifs at h with hl
    · obtain ⟨rfl, rfl⟩ := Prod.mk.inj (Except.ok.inj h)
      exact ⟨s₁, s₂, s₃, s₄, hts, hf, ho, hsev, hline⟩
    · cases h
  · rintro ⟨s₁, s₂, s₃, s₄, hts, hf, ho, hsev, hline⟩
    refine ⟨m.header, s₄, ⟨_, s₁, hts, _, s₂, hf, _, s₃, ho, _, s₄, hsev, rfl⟩, (), _, rfl, _, rest,
      hline, ?_⟩
    rw [dif_pos m.message.length_le]
    rfl

/-- A line of a text that does not start with white space. -/
theorem head?_of_line {s l rest : Str} (h : line 10 (s.dropWhile isspace) = .ok (l, rest)) :
    ∃ c ∈ l.head?, isspace c = false := by
  unfold line at h
  dsimp only at h
  split_ifs at h with hne
  obtain ⟨rfl, -⟩ := Prod.mk.inj (Except.ok.inj h)
  have hhead := List.head?_dropWhile_not isspace s
  cases hdrop : s.dropWhile isspace with
  | nil => exact absurd hdrop hne
  | cons c t =>
    rw [hdrop] at hhead
    have hspace : isspace c = false := by simpa using hhead
    have hne10 : decide (c ≠ 10) = true := by
      rw [decide_eq_true_eq]
      rintro rfl
      cases hspace
    have htake := List.takeWhile_cons_of_pos (p := fun c => decide (c ≠ 10)) (l := t) hne10
    refine ⟨c, ?_, hspace⟩
    rw [htake]
    rfl

/-- **What is read is readable**, whatever the text. -/
theorem Message.readable_of_extract {s rest : Str} {m : Message}
    (h : Message.extract s = .ok (m, rest)) : m.Readable := by
  obtain ⟨s₁, s₂, s₃, s₄, -, hf, ho, -, hline⟩ := message_extract_eq_ok_iff.mp h
  obtain ⟨w, -, hw⟩ := facility_extract_eq_ok_iff.mp hf
  obtain ⟨digits, num, horigin, -, -⟩ := originText_of_extract ho
  obtain ⟨-, -, -, -, -, hlt, -, -, -, -⟩ := horigin
  refine ⟨?_, hlt, head?_of_line hline⟩
  rw [hw]
  exact named_facilityValue w

theorem severity_extract_lt {s rest : Str} {sev : Severity}
    (h : Severity.extract s = .ok (sev, rest)) : rest.length < s.length := by
  unfold Severity.extract at h
  obtain ⟨w, mid, hw, h⟩ := bind_eq_ok_iff.mp h
  have hlt := length_lt_of_word hw
  cases hfind : severities.find? fun p => p.1 = w with
  | none =>
    simp only [hfind] at h
    cases h
  | some p =>
    simp only [hfind] at h
    obtain ⟨-, rfl⟩ := Prod.mk.inj (Except.ok.inj h)
    exact hlt

/-- Reading a message consumes. -/
theorem Message.consumes_extract : Consumes Message.extract := by
  intro s m rest h
  obtain ⟨s₁, s₂, s₃, s₄, hts, hf, ho, hsev, hline⟩ := message_extract_eq_ok_iff.mp h
  obtain ⟨hlen, rfl, -, -⟩ := Timestamp.extract_eq_ok_iff.mp hts
  obtain ⟨w, hw, -⟩ := facility_extract_eq_ok_iff.mp hf
  obtain ⟨digits, num, ⟨mid, after, hhost, hproc, -⟩, -, -⟩ := originText_of_extract ho
  have h₂ := length_lt_of_word hw
  have h₃ := length_lt_of_word hhost
  have h₄ := length_lt_of_word hproc
  have h₅ := severity_extract_lt hsev
  have h₆ := List.length_dropWhile_le isspace s₄
  rw [List.length_drop] at h₂
  unfold line at hline
  dsimp only at hline
  split_ifs at hline
  obtain ⟨-, rfl⟩ := Prod.mk.inj (Except.ok.inj hline)
  rw [List.length_drop]
  omega

/-! ### What is printed -/

theorem bracket_notMem_appname {an : Str} (h : isValidAppName an = true) :
    bracketOpen ∉ an ∧ bracketClose ∉ an := by
  have hall := ((isValidName_iff appNameChar an).mp h).2
  exact ⟨fun hmem => absurd (hall _ hmem) (by decide), fun hmem => absurd (hall _ hmem) (by decide)⟩

theorem stoul_of_digits {d : Str} (hne : d ≠ []) (hd : ∀ c ∈ d, isdigit c = true)
    (hlt : numeral d < 2 ^ 64) : stoul d = some (numeral d) := by
  cases d with
  | nil => exact absurd rfl hne
  | cons c d =>
    have hc := hd c List.mem_cons_self
    have hdrop : (c :: d).dropWhile isspace = c :: d := by
      apply dropWhile_of_head
      intro c' hc'
      rw [← Option.some.inj hc']
      exact isspace_of_isdigit hc
    have hhead : ∀ a : UInt8, isdigit a = false → (c :: d).head? ≠ some a := by
      intro a ha heq
      rw [Option.some.inj heq, ha] at hc
      cases hc
    have hminus := hhead hyphen rfl
    have hplus := hhead plus rfl
    have htake : (c :: d).takeWhile isdigit = c :: d := List.takeWhile_eq_self_iff.mpr hd
    unfold stoul
    simp only [hdrop, hminus, hplus, or_self, if_false, htake]
    rw [if_pos ⟨hne, hlt⟩]

/-- The origin of a message is read back. -/
theorem origin_extract_between {o : MessageOrigin}
    (hhost : isValidHostname o.hostname.value = true)
    (happ : isValidAppName o.appname.value = true) (hlt : o.appname.value.length < 255)
    (rest : Str) :
    MessageOrigin.extract (32 :: (o.hostname.value ++ 32 ::
      (o.appname.value ++ bracketOpen :: (decimal o.procid.toNat ++ bracketClose :: [colon]) ++
        32 :: rest))) = .ok (o, 32 :: rest) := by
  have hhword := isWord_of_isValidName isspace_of_hostnameChar hhost
  have haword := isWord_of_isValidName isspace_of_appNameChar happ
  have hdigit : ∀ c ∈ decimal o.procid.toNat, isdigit c = true := fun _ hc => isdigit_decimal hc
  have hproc : IsWord (o.appname.value ++
      bracketOpen :: (decimal o.procid.toNat ++ bracketClose :: [colon])) := by
    refine ⟨by simp, ?_⟩
    intro c hc
    simp only [List.mem_append, List.mem_cons, List.not_mem_nil, or_false] at hc
    rcases hc with hc | rfl | hc | rfl | rfl
    · exact haword.2 c hc
    · rfl
    · exact isspace_of_isdigit (hdigit c hc)
    · rfl
    · rfl
  obtain ⟨hopen, hclose⟩ := bracket_notMem_appname happ
  have hclose' : bracketClose ∉ decimal o.procid.toNat := not_mem_decimal rfl _
  have hscan : MessageOrigin.scan _ =
      .ok ((o.hostname, o.appname, decimal o.procid.toNat), 32 :: rest) :=
    scan_eq_ok_iff.mpr ⟨_, [colon], word_between hhword _, word_between hproc _,
      o.hostname.length_le, hlt, hopen, hclose, hclose', decimal_ne_nil _⟩
  have hnumeral : numeral (decimal o.procid.toNat) = o.procid.toNat := foldl_decimal _
  have hpid := o.procid.toNat_lt
  have hstoul := stoul_of_digits (decimal_ne_nil _) hdigit (by rw [hnumeral]; omega)
  unfold MessageOrigin.extract
  rw [bind_of_ok hscan]
  simp only [hstoul, hnumeral, UInt32.ofNat_toNat]
  rfl

theorem messageText_append (plat : Platform) (gmtoff : Int) (m : Message) (rest : Str) :
    LogFile.messageText (plat.atOffset gmtoff) m ++ rest =
      m.header.timestamp.text gmtoff ++ 32 :: (facilityName m.header.facility ++ 32 ::
        (m.header.origin.hostname.value ++ 32 :: (m.header.origin.appname.value ++ bracketOpen ::
          (decimal m.header.origin.procid.toNat ++ bracketClose :: [colon]) ++ 32 ::
            (LogFile.severityText m.header.severity ++ 32 ::
              (m.message.value ++ 10 :: rest))))) := by
  have hblank : str " " = [32] := rfl
  have hopen : str "[" = [bracketOpen] := rfl
  have hclose : str "]: " = [bracketClose, colon, 32] := rfl
  unfold LogFile.messageText
  simp only [hblank, hopen, hclose, List.append_assoc, List.cons_append, List.nil_append]
  rfl

/-- **A readable message is read back**, whatever follows it. -/
theorem extract_messageText (plat : Platform) {gmtoff : Int} (hoffset : IsOffset gmtoff)
    {m : Message} (hm : m.Acceptable) (hr : m.Readable)
    (hpos : 0 < m.header.timestamp.usecs.toNat)
    (hyear : (Tm.gmtime (m.header.timestamp.secs + gmtoff)).tm_year + 1900 < 10000)
    (hline : 10 ∉ m.message.value) (rest : Str) :
    Message.extract (LogFile.messageText (plat.atOffset gmtoff) m ++ rest) = .ok (m, rest) := by
  rw [messageText_append, message_extract_eq_ok_iff]
  refine ⟨_, _, _, _, extract_printed hoffset hpos hyear _, ?_,
    origin_extract_between hm.hostname hm.appname hr.appname _,
    severity_extract_between hm.severity (m.message.value ++ 10 :: rest), ?_⟩
  · rw [facility_extract_eq_ok_iff]
    exact ⟨_, word_between (isWord_facilityName _) _, (facilityValue_facilityName hr.facility).symm⟩
  · obtain ⟨c, hc, hspace⟩ := hr.message
    have hdrop : (32 :: (m.message.value ++ 10 :: rest)).dropWhile isspace =
        m.message.value ++ 10 :: rest := by
      rw [List.dropWhile_cons_of_pos (by rfl)]
      apply dropWhile_of_head
      intro c' hc'
      cases hvalue : m.message.value with
      | nil =>
        rw [hvalue] at hc
        cases hc
      | cons a t =>
        rw [hvalue] at hc hc'
        rw [← Option.some.inj hc', Option.some.inj hc]
        exact hspace
    rw [hdrop]
    exact line_append hline rest

/-! ### Reading a list of messages -/

/-- **Which messages are read back from the text form**: one after another, in a local time that is
    whole minutes ahead of UTC or behind it.  A message is lost if the facility has no name, the
    appname has 255 characters, the text is empty or starts with white space, or the local year has
    five digits. -/
theorem extractAll_messageText_iff (plat : Platform) (gmtoff : Int) (ms : List Message)
    (hmins : gmtoff % 60 = 0) (hday : -86400 < gmtoff ∧ gmtoff < 86400)
    (hacceptable : ∀ m ∈ ms, m.Acceptable)
    (hepoch : ∀ m ∈ ms, 0 < m.header.timestamp.usecs.toNat)
    (hline : ∀ m ∈ ms, 10 ∉ m.message.value) :
    extractAll Message.extract (ms.flatMap (LogFile.messageText (plat.atOffset gmtoff))) = some ms ↔
      ∀ m ∈ ms, m.Readable ∧
        ((Calendar.fixedOffset gmtoff).localtime m.header.timestamp.secs).tm_year + 1900 < 10000 := by
  have hoffset : IsOffset gmtoff := ⟨hmins, hday⟩
  induction ms with
  | nil => exact iff_of_true (extractAll_of_failbit rfl) (by simp)
  | cons m ms ih =>
    rw [List.forall_mem_cons] at hacceptable hepoch hline ⊢
    have ih := ih hacceptable.2 hepoch.2 hline.2
    rw [List.flatMap_cons]
    by_cases hm : m.Readable ∧ (Tm.gmtime (m.header.timestamp.secs + gmtoff)).tm_year + 1900 < 10000
    · have hfirst := extract_messageText plat hoffset hacceptable.1 hm.1 hepoch.1 hm.2 hline.1
        (ms.flatMap (LogFile.messageText (plat.atOffset gmtoff)))
      rw [extractAll_of_ok Message.consumes_extract hfirst]
      constructor
      · intro h
        obtain ⟨ms', hms', heq⟩ := Option.map_eq_some_iff.mp h
        rw [(List.cons.inj heq).2] at hms'
        exact ⟨hm, ih.mp hms'⟩
      · rintro ⟨-, h⟩
        rw [ih.mpr h]
        rfl
    · refine iff_of_false ?_ fun h => hm h.1
      intro h
      -- The first message is read as some message, or is the end.
      cases hfirst : Message.extract (LogFile.messageText (plat.atOffset gmtoff) m ++
          ms.flatMap (LogFile.messageText (plat.atOffset gmtoff))) with
      | error e =>
        cases e with
        | failbit =>
          rw [extractAll_of_failbit hfirst] at h
          cases h
        | exception =>
          rw [extractAll_of_exception hfirst] at h
          cases h
      | ok p =>
        obtain ⟨m', rest⟩ := p
        rw [extractAll_of_ok Message.consumes_extract hfirst] at h
        obtain ⟨ms', -, heq⟩ := Option.map_eq_some_iff.mp h
        obtain rfl := (List.cons.inj heq).1
        have hyear := fun hlt => hm ⟨Message.readable_of_extract hfirst, hlt⟩
        rw [messageText_append] at hfirst
        obtain ⟨s₁, s₂, s₃, s₄, hts, -⟩ := message_extract_eq_ok_iff.mp hfirst
        rw [extract_of_late (Int.not_lt.mp hyear)] at hts
        cases hts

/-- A message from a daemon. -/
def textMessage (text : ShortString 1500) : Message :=
  ⟨⟨⟨1740000000000001⟩, .daemon, .info,
    ⟨⟨str "host", length_host_le⟩, ⟨str "app", length_app_le⟩, 7⟩⟩, text⟩

/-- Two messages, printed an hour ahead of UTC. -/
theorem extractAll_messageText_iff_two :
    extractAll Message.extract
        ([textMessage ⟨str "up", by decide⟩, textMessage ⟨str "a b ", by decide⟩].flatMap
          (LogFile.messageText (LogFile.plainPlatform.atOffset 3600))) =
          some [textMessage ⟨str "up", by decide⟩, textMessage ⟨str "a b ", by decide⟩] ↔
      ∀ m ∈ [textMessage ⟨str "up", by decide⟩, textMessage ⟨str "a b ", by decide⟩],
        m.Readable ∧
          ((Calendar.fixedOffset 3600).localtime m.header.timestamp.secs).tm_year + 1900 < 10000 :=
  extractAll_messageText_iff LogFile.plainPlatform 3600 _ (by decide) (by decide) (by decide)
    (by decide) (by decide)

/-- A message with an empty text is not read back. -/
theorem empty_text_lost :
    (textMessage (.empty 1500)).Acceptable ∧
      ¬∀ (plat : Platform) (gmtoff : Int) (ms : List Message), gmtoff % 60 = 0 →
        -86400 < gmtoff ∧ gmtoff < 86400 → (∀ m ∈ ms, m.Acceptable) →
        (∀ m ∈ ms, 0 < m.header.timestamp.usecs.toNat) →
        (∀ m ∈ ms, (Tm.gmtime m.header.timestamp.secs).tm_year + 1900 < 10000) →
        (∀ m ∈ ms, 10 ∉ m.message.value) →
        extractAll Message.extract (ms.flatMap (LogFile.messageText (plat.atOffset gmtoff))) =
          some ms := by
  refine ⟨by decide, fun h => ?_⟩
  have hread := h LogFile.plainPlatform 0 [textMessage (.empty 1500)] (by decide) (by decide)
    (by decide) (by decide) (by decide) (by decide)
  exact absurd hread (by decide)

/-! ### The number between the brackets -/

/-- A decimal number below 2^32. -/
def IsNumber32 (d : Str) : Prop := d ≠ [] ∧ (∀ c ∈ d, isdigit c = true) ∧ numeral d < 2 ^ 32

/-- `operator>>` does not throw, and the process id of what it reads is the number between the
    brackets. -/
def ReturnsPrinted {β : Type} (r : Extractor UInt8 β) (procid : β → UInt32)
    (Brackets : Str → Str → Str → Prop) (s : Str) : Prop :=
  match r s with
  | .ok (b, _) => ∃ digits rest, Brackets s digits rest ∧ IsNumber32 digits ∧
      (procid b).toNat = numeral digits
  | .error e => e = .failbit

/-- What is between the brackets of an origin is a decimal number below 2^32.  It does not show if
    it is another that `stoul` takes, and what has to follow does not. -/
def Proper (Brackets : Str → Str → Str → Prop) (Follows : Str → Prop) (s : Str) : Prop :=
  ∀ digits rest, Brackets s digits rest →
    IsNumber32 digits ∨ ((stoul digits).isSome ∧ ¬Follows rest)

/-- The text between the brackets of an origin, and what is after the origin. -/
def OriginBrackets (s digits rest : Str) : Prop :=
  ∃ hostname appname, OriginText s hostname appname digits rest

/-- The same, after a timestamp and a facility. -/
def HeaderBrackets (s digits rest : Str) : Prop :=
  ∃ ts s₁ f s₂, Timestamp.extract s = .ok (ts, s₁) ∧ Facility.extract s₁ = .ok (f, s₂) ∧
    OriginBrackets s₂ digits rest

/-- A severity follows. -/
def SeverityFollows (s : Str) : Prop := ∃ sev rest, Severity.extract s = .ok (sev, rest)

/-- A severity follows, and a line that is not too long. -/
def TextFollows (s : Str) : Prop :=
  ∃ sev rest l rest', Severity.extract s = .ok (sev, rest) ∧
    line 10 (rest.dropWhile isspace) = .ok (l, rest') ∧ l.length ≤ 1500

/-- How a reader of something with an origin in it ends: it does not get to the brackets and fails,
    `stoul` throws, what follows makes it fail, or it reads. -/
inductive Reads {β : Type} (r : Extractor UInt8 β) (procid : β → UInt32)
    (Brackets : Str → Str → Str → Prop) (Follows : Str → Prop) (s : Str) : Prop where
  | before (hno : ∀ digits rest, ¬Brackets s digits rest) (hr : r s = .error .failbit)
  | thrown {digits rest : Str} (hb : Brackets s digits rest) (hnum : stoul digits = none)
      (hr : r s = .error .exception)
  | failed {digits rest : Str} {num : Nat} (hb : Brackets s digits rest)
      (hnum : stoul digits = some num) (hno : ¬Follows rest) (hr : r s = .error .failbit)
  | read {digits rest : Str} {num : Nat} {b : β} {rest' : Str} (hb : Brackets s digits rest)
      (hnum : stoul digits = some num) (hfollows : Follows rest) (hr : r s = .ok (b, rest'))
      (hprocid : procid b = .ofNat num)

theorem stoul_of_isNumber32 {d : Str} (h : IsNumber32 d) : stoul d = some (numeral d) :=
  stoul_of_digits h.1 h.2.1 (h.2.2.trans (by norm_num))

/-- **The four ends**, against what a caller may rely on. -/
theorem Reads.returnsPrinted_iff_proper {β : Type} {r : Extractor UInt8 β} {procid : β → UInt32}
    {Brackets : Str → Str → Str → Prop} {Follows : Str → Prop} {s : Str}
    (hunique : ∀ {d d' t t'}, Brackets s d t → Brackets s d' t' → d = d' ∧ t = t')
    (h : Reads r procid Brackets Follows s) :
    ReturnsPrinted r procid Brackets s ↔ Proper Brackets Follows s := by
  unfold ReturnsPrinted Proper
  cases h with
  | before hno hr =>
    rw [hr]
    exact iff_of_true rfl fun d rest hb => absurd hb (hno d rest)
  | @thrown digits rest hb hnum hr =>
    rw [hr]
    refine iff_of_false (by simp) fun hproper => ?_
    rcases hproper _ _ hb with hnumber | ⟨hsome, -⟩
    · rw [stoul_of_isNumber32 hnumber] at hnum
      cases hnum
    · rw [hnum] at hsome
      cases hsome
  | @failed digits rest num hb hnum hno hr =>
    rw [hr]
    refine iff_of_true rfl fun d rest' hb' => Or.inr ?_
    obtain ⟨rfl, rfl⟩ := hunique hb hb'
    rw [hnum]
    exact ⟨rfl, hno⟩
  | @read digits rest num b rest' hb hnum hfollows hr hprocid =>
    rw [hr]
    constructor
    · rintro ⟨d, t, hb', hnumber, -⟩ d' t' hb''
      obtain ⟨rfl, -⟩ := hunique hb' hb''
      exact Or.inl hnumber
    · intro hproper
      rcases hproper _ _ hb with hnumber | ⟨-, hno⟩
      · refine ⟨digits, rest, hb, hnumber, ?_⟩
        rw [stoul_of_isNumber32 hnumber] at hnum
        rw [hprocid, ← Option.some.inj hnum, UInt32.toNat_ofNat']
        exact Nat.mod_eq_of_lt hnumber.2.2
      · exact absurd hfollows hno

/-! #### The readers -/

theorem Timestamp.neverThrows_extract : Timestamp.extract.NeverThrows := by
  refine (neverThrows_exactly 31).bind fun buf => ?_
  dsimp only
  split_ifs
  · exact neverThrows_fail
  · exact neverThrows_pure _

theorem Facility.neverThrows_extract : Facility.extract.NeverThrows :=
  (neverThrows_word isspace).bind fun w => neverThrows_pure (facilityValue w)

theorem Severity.neverThrows_extract : Severity.extract.NeverThrows := by
  refine (neverThrows_word isspace).bind fun w => ?_
  split
  · exact neverThrows_pure _
  · exact neverThrows_fail

theorem MessageOrigin.neverThrows_scan : MessageOrigin.scan.NeverThrows := by
  refine (neverThrows_word isspace).bind fun hn => ?_
  refine (neverThrows_word isspace).bind fun procInfo => ?_
  -- Each condition that does not hold makes it fail.
  split
  · split
    · split
      · split
        · split
          · exact neverThrows_pure _
          · exact neverThrows_fail
        · exact neverThrows_fail
      · exact neverThrows_fail
    · exact neverThrows_fail
  · exact neverThrows_fail

theorem OriginBrackets.unique {s d d' t t' : Str} (h : OriginBrackets s d t)
    (h' : OriginBrackets s d' t') : d = d' ∧ t = t' := by
  have hscan : ∀ {d t}, OriginBrackets s d t →
      ∃ hn an, MessageOrigin.scan s = .ok ((hn, an, d), t) := by
    rintro d t ⟨hn, an, horigin⟩
    obtain ⟨-, -, -, -, hle, hlt, -⟩ := id horigin
    exact ⟨⟨hn, hle⟩, ⟨an, hlt.le⟩, scan_eq_ok_iff.mpr horigin⟩
  obtain ⟨hn, an, heq⟩ := hscan h
  obtain ⟨hn', an', heq'⟩ := hscan h'
  obtain ⟨hvalue, ht⟩ := ok_unique heq heq'
  exact ⟨(Prod.mk.inj (Prod.mk.inj hvalue).2).2, ht⟩

theorem HeaderBrackets.unique {s d d' t t' : Str} (h : HeaderBrackets s d t)
    (h' : HeaderBrackets s d' t') : d = d' ∧ t = t' := by
  obtain ⟨ts, s₁, f, s₂, hts, hf, hb⟩ := h
  obtain ⟨ts', s₁', f', s₂', hts', hf', hb'⟩ := h'
  obtain ⟨-, rfl⟩ := ok_unique hts hts'
  obtain ⟨-, rfl⟩ := ok_unique hf hf'
  exact hb.unique hb'

theorem reads_origin (s : Str) :
    (∀ d t, ¬OriginBrackets s d t) ∧ MessageOrigin.extract s = .error .failbit ∨
      ∃ d t, OriginBrackets s d t ∧
        (stoul d = none ∧ MessageOrigin.extract s = .error .exception ∨
          ∃ num o, stoul d = some num ∧ MessageOrigin.extract s = .ok (o, t) ∧
            o.procid = .ofNat num) := by
  cases hscan : MessageOrigin.scan s with
  | error e =>
    left
    constructor
    · rintro d t ⟨hn, an, horigin⟩
      obtain ⟨-, -, -, -, hle, hlt, -⟩ := id horigin
      have heq : MessageOrigin.scan s = .ok ((⟨hn, hle⟩, ⟨an, hlt.le⟩, d), t) :=
        scan_eq_ok_iff.mpr horigin
      rw [heq] at hscan
      cases hscan
    · unfold MessageOrigin.extract
      rw [bind_of_error hscan, MessageOrigin.neverThrows_scan s e hscan]
  | ok p =>
    obtain ⟨⟨hn, an, d⟩, t⟩ := p
    right
    refine ⟨d, t, ⟨_, _, scan_eq_ok_iff.mp hscan⟩, ?_⟩
    unfold MessageOrigin.extract
    rw [bind_of_ok hscan]
    cases hnum : stoul d with
    | none =>
      left
      simp only [hnum]
      exact ⟨trivial, rfl⟩
    | some num =>
      right
      simp only [hnum]
      exact ⟨num, _, rfl, rfl, rfl⟩

/-- A header, up to the severity. -/
theorem reads_header (s : Str) :
    (∀ d t, ¬HeaderBrackets s d t) ∧ MessageHeader.extract s = .error .failbit ∨
      ∃ d t, HeaderBrackets s d t ∧
        (stoul d = none ∧ MessageHeader.extract s = .error .exception ∨
          ∃ num ts f o, stoul d = some num ∧ o.procid = .ofNat num ∧
            MessageHeader.extract s =
              (Severity.extract >>= fun sev => pure ⟨ts, f, sev, o⟩ : Extractor UInt8 _) t) := by
  unfold MessageHeader.extract
  cases hts : Timestamp.extract s with
  | error e =>
    -- Without a timestamp the brackets are not reached.
    left
    rw [bind_of_error hts, Timestamp.neverThrows_extract s e hts]
    refine ⟨?_, rfl⟩
    rintro d t ⟨ts, s₁, f, s₂, hts', -⟩
    rw [hts'] at hts
    cases hts
  | ok p =>
    obtain ⟨ts, s₁⟩ := p
    rw [bind_of_ok hts]
    cases hf : Facility.extract s₁ with
    | error e =>
      -- Neither are they without a facility.
      left
      rw [bind_of_error hf, Facility.neverThrows_extract s₁ e hf]
      refine ⟨?_, rfl⟩
      rintro d t ⟨ts', s₁', f, s₂, hts', hf', -⟩
      obtain ⟨-, rfl⟩ := ok_unique hts hts'
      rw [hf'] at hf
      cases hf
    | ok p =>
      obtain ⟨f, s₂⟩ := p
      rw [bind_of_ok hf]
      rcases reads_origin s₂ with ⟨hno, ho⟩ | ⟨d, t, hb, hread⟩
      · left
        rw [bind_of_error ho]
        refine ⟨?_, rfl⟩
        rintro d t ⟨ts', s₁', f', s₂', hts', hf', hb⟩
        obtain ⟨-, rfl⟩ := ok_unique hts hts'
        obtain ⟨-, rfl⟩ := ok_unique hf hf'
        exact hno d t hb
      · right
        refine ⟨d, t, ⟨ts, s₁, f, s₂, hts, hf, hb⟩, ?_⟩
        rcases hread with ⟨hnum, ho⟩ | ⟨num, o, hnum, ho, hprocid⟩
        · exact Or.inl ⟨hnum, bind_of_error ho⟩
        · exact Or.inr ⟨num, ts, f, o, hnum, hprocid, bind_of_ok ho⟩

theorem MessageOrigin.reads (s : Str) :
    Reads MessageOrigin.extract MessageOrigin.procid OriginBrackets (fun _ => True) s := by
  rcases reads_origin s with ⟨hno, hr⟩ | ⟨d, t, hb, ⟨hnum, hr⟩ | ⟨num, o, hnum, hr, hprocid⟩⟩
  · exact .before hno hr
  · exact .thrown hb hnum hr
  · exact .read hb hnum trivial hr hprocid

theorem MessageHeader.reads (s : Str) :
    Reads MessageHeader.extract (fun h => h.origin.procid) HeaderBrackets SeverityFollows s := by
  rcases reads_header s with ⟨hno, hr⟩ | ⟨d, t, hb, ⟨hnum, hr⟩ | ⟨num, ts, f, o, hnum, hprocid, hr⟩⟩
  · exact .before hno hr
  · exact .thrown hb hnum hr
  · cases hsev : Severity.extract t with
    | error e =>
      rw [bind_of_error hsev, Severity.neverThrows_extract t e hsev] at hr
      refine .failed hb hnum ?_ hr
      rintro ⟨sev, rest, hsev'⟩
      rw [hsev'] at hsev
      cases hsev
    | ok p =>
      obtain ⟨sev, rest⟩ := p
      rw [bind_of_ok hsev] at hr
      exact .read hb hnum ⟨sev, rest, hsev⟩ hr hprocid

theorem Message.reads (s : Str) :
    Reads Message.extract (fun m => m.header.origin.procid) HeaderBrackets TextFollows s := by
  rcases reads_header s with ⟨hno, hr⟩ | ⟨d, t, hb, ⟨hnum, hr⟩ | ⟨num, ts, f, o, hnum, hprocid, hr⟩⟩
  · exact .before hno (bind_of_error hr)
  · exact .thrown hb hnum (bind_of_error hr)
  · cases hsev : Severity.extract t with
    | error e =>
      rw [bind_of_error hsev, Severity.neverThrows_extract t e hsev] at hr
      refine .failed hb hnum ?_ (bind_of_error hr)
      rintro ⟨sev, rest, l, rest', hsev', -⟩
      rw [hsev'] at hsev
      cases hsev
    | ok p =>
      obtain ⟨sev, rest⟩ := p
      rw [bind_of_ok hsev] at hr
      have hmessage : Message.extract s = (line 10 >>= fun l =>
          if hs : l.length ≤ 1500 then pure ⟨⟨ts, f, sev, o⟩, ⟨l, hs⟩⟩ else fail :
            Extractor UInt8 Message) (rest.dropWhile isspace) := bind_of_ok hr
      cases hline : line 10 (rest.dropWhile isspace) with
      | error e =>
        rw [bind_of_error hline, neverThrows_line 10 _ e hline] at hmessage
        refine .failed hb hnum ?_ hmessage
        rintro ⟨sev', rest', l, rest'', hsev', hline', -⟩
        obtain ⟨-, rfl⟩ := ok_unique hsev hsev'
        rw [hline'] at hline
        cases hline
      | ok p =>
        obtain ⟨l, rest'⟩ := p
        rw [bind_of_ok hline] at hmessage
        by_cases hs : l.length ≤ 1500
        · rw [dif_pos hs] at hmessage
          exact .read hb hnum ⟨sev, rest, l, rest', hsev, hline, hs⟩ hmessage hprocid
        · -- The line is too long for a message.
          rw [dif_neg hs] at hmessage
          refine .failed hb hnum ?_ hmessage
          rintro ⟨sev', t', l', rest'', hsev', hline', hs'⟩
          obtain ⟨-, rfl⟩ := ok_unique hsev hsev'
          obtain ⟨rfl, -⟩ := ok_unique hline hline'
          exact hs hs'

/-- **When a failed parse is no exception**, and the process id is the one that is printed: what is
    between the brackets is a decimal number below 2^32, unless what follows makes the reader fail
    before it shows. -/
theorem returnsPrinted_iff (s : Str) :
    (ReturnsPrinted MessageOrigin.extract MessageOrigin.procid OriginBrackets s ↔
        Proper OriginBrackets (fun _ => True) s) ∧
      (ReturnsPrinted MessageHeader.extract (fun h => h.origin.procid) HeaderBrackets s ↔
        Proper HeaderBrackets SeverityFollows s) ∧
      (ReturnsPrinted Message.extract (fun m => m.header.origin.procid) HeaderBrackets s ↔
        Proper HeaderBrackets TextFollows s) :=
  ⟨(MessageOrigin.reads s).returnsPrinted_iff_proper OriginBrackets.unique,
    (MessageHeader.reads s).returnsPrinted_iff_proper HeaderBrackets.unique,
    (Message.reads s).returnsPrinted_iff_proper HeaderBrackets.unique⟩

/-- No number between the brackets: `stoul` throws. -/
theorem throws_on_name_between_brackets :
    MessageOrigin.extract (str "host app[x]: ") = .error .exception ∧
      ¬∀ s, ReturnsPrinted MessageOrigin.extract MessageOrigin.procid OriginBrackets s := by
  have hthrow : MessageOrigin.extract (str "host app[x]: ") = .error .exception := by decide
  refine ⟨hthrow, fun h => ?_⟩
  have hreturns := h (str "host app[x]: ")
  unfold ReturnsPrinted at hreturns
  rw [hthrow] at hreturns
  cases hreturns

end Mclog
