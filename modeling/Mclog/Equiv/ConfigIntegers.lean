import Mclog.Equiv.ConfigTexts
import Mclog.Equiv.FilterScanner

/-!
# The integers of a configuration

A number goes through a conversion that stops at the first 8 or 9 of an octal one and throws above
2^63, then into an `int`, and only there its range is checked.  `port = d;` and `keep = d;` mean the
number that `d` denotes exactly for the digits that `integersExact_iff` describes.
-/

namespace Mclog

open General

namespace ConfigFile

/-! ### Numbers -/

/-- A string of decimal digits. -/
structure DigitString where
  digits : Str
  isdigit_of_mem : ∀ c ∈ digits, isdigit c = true
  digits_ne_nil : digits ≠ []

namespace DigitString

/-- The number that is denoted: after a leading 0 an octal one, if there is one. -/
def denotes (d : DigitString) : Option Nat :=
  if d.digits.head? = some 48 then
    if d.digits.all fun c => 48 ≤ c && c ≤ 55 then some (digitsValue 8 d.digits) else none
  else some (digitsValue 10 d.digits)

/-- The number of the digits that `std::stol` converts: after a leading 0 the octal ones before the
    first that is not. -/
def converted (d : DigitString) : Nat :=
  if d.digits.head? = some 48 then digitsValue 8 (d.digits.takeWhile fun c => 48 ≤ c && c ≤ 55)
  else digitsValue 10 d.digits

/-- What denotes a number is converted to it. -/
theorem eq_converted {d : DigitString} {n : Nat} (h : d.denotes = some n) : n = d.converted := by
  rw [denotes] at h
  rw [converted]
  split_ifs at h ⊢ with hhead hall
  · have htake : d.digits.takeWhile (fun c => 48 ≤ c && c ≤ 55) = d.digits :=
      List.takeWhile_eq_self_iff.mpr (List.all_eq_true.mp hall)
    rw [htake]
    exact (Option.some.inj h).symm
  · exact (Option.some.inj h).symm

/-- The token of the digits. -/
theorem wordToken_digits (d : DigitString) :
    wordToken (cString d.digits) =
      if d.converted < 2 ^ 63 then .INTEGER (Int32.ofNat d.converted) else .outOfRange := by
  have hnul : (0 : UInt8) ∉ d.digits := fun h => by
    have := d.isdigit_of_mem 0 h
    revert this
    decide
  have hcString : cString d.digits = d.digits := MessageFilter.cString_of_notMem hnul
  have hnumber : isNumber d.digits = true := by
    have hall := List.all_eq_true.mpr d.isdigit_of_mem
    simp [isNumber, hall, d.digits_ne_nil]
  have hstol : stol d.digits = if d.converted < 2 ^ 63 then some d.converted else none := rfl
  rw [wordToken, hcString, if_pos hnumber, hstol]
  split_ifs <;> rfl

/-- The digits are one word. -/
theorem scans (d : DigitString) : Scans d.digits (wordToken (cString d.digits)) := by
  have hbytes : ∀ n : Fin 256, isdigit (UInt8.ofNat n) = true →
      isWord (UInt8.ofNat n) = true ∧ UInt8.ofNat n ≠ 35 := by decide +kernel
  have hword (c : UInt8) (hc : isdigit c = true) : isWord c = true ∧ c ≠ 35 := by
    have hn := hbytes ⟨c.toNat, c.toNat_lt⟩
    rw [UInt8.ofNat_toNat] at hn
    exact hn hc
  refine scans_word d.digits_ne_nil (fun c hc => (hword c (d.isdigit_of_mem c hc)).1) ?_
  intro hhead
  exact (hword 35 (d.isdigit_of_mem 35 (List.mem_of_mem_head? hhead))).2 rfl

end DigitString

/-- What the check of a port makes of a converted number: it sees the number modulo 2^32. -/
theorem inPortRange_iff (x : Nat) : (0 < Int32.ofNat x ∧ Int32.ofNat x < 65536) ↔
    1 ≤ x % 2 ^ 32 ∧ x % 2 ^ 32 ≤ 65535 := by
  have hsize : (Int32.size : Int) = 4294967296 := rfl
  have hzero : (0 : Int32).toInt = 0 := rfl
  have hlimit : (65536 : Int32).toInt = 65536 := rfl
  rw [Int32.lt_iff_toInt_lt, Int32.lt_iff_toInt_lt, Int32.toInt_ofNat', hzero, hlimit, Int.bmod,
    hsize]
  omega

theorem toNat_port {x : Nat} (h : x % 2 ^ 32 ≤ 65535) :
    (Int32.ofNat x).toUInt32.toUInt16.toNat = x % 2 ^ 32 := by
  rw [UInt32.toNat_toUInt16, Int32.toUInt32_ofNat', UInt32.toNat_ofNat']
  omega

/-- What is stored for the number of archives. -/
theorem toNat_keepOf (x : Nat) :
    (keepOf (Int32.ofNat x)).toNat = if x % 2 ^ 32 < 2 ^ 31 then x % 2 ^ 32 else 7 := by
  have hsize : (Int32.size : Int) = 4294967296 := rfl
  have hzero : (0 : Int32).toInt = 0 := rfl
  have hneg : 0 ≤ Int32.ofNat x ↔ x % 2 ^ 32 < 2 ^ 31 := by
    rw [Int32.le_iff_toInt_le, Int32.toInt_ofNat', hzero, Int.bmod, hsize]
    omega
  rw [keepOf]
  split_ifs with hkeep hlt hlt
  · rw [Int32.toUInt32_ofNat', UInt32.toNat_ofNat']
  · exact absurd (hneg.mp hkeep) hlt
  · exact absurd (hneg.mpr hlt) hkeep
  · rfl

/-! ### Ports -/

/-- `port`. -/
def portSetting : Setting where
  name := str "port"
  keyword := .PORT
  one := str "1"
  two := str "2"
  isWord_name := by decide
  head_name := by decide
  wordToken_name := by decide
  not_stanza := rfl
  not_value := by
    intro libs k
    cases k <;> rfl
  ne_LOGS := by decide

/-- `keep`. -/
def keepSetting : Setting where
  name := str "keep"
  keyword := .KEEP
  one := str "1"
  two := str "2"
  isWord_name := by decide
  head_name := by decide
  wordToken_name := by decide
  not_stanza := rfl
  not_value := by
    intro libs k
    cases k <;> rfl
  ne_LOGS := by decide

/-- `1` and `2` are numbers. -/
theorem scans_one : Scans (str "1") (.INTEGER 1) ∧ Scans (str "2") (.INTEGER 2) := by
  constructor
  · exact DigitString.scans ⟨str "1", by simp [str, isdigit], by decide⟩
  · exact DigitString.scans ⟨str "2", by simp [str, isdigit], by decide⟩

variable (libs : Libraries)

/-- The ports of a configuration. -/
def portFields : List (Config → UInt16) :=
  [fun cfg => cfg.loopback.port, fun cfg => cfg.mcast.dstPort]

/-- `port = d;` means the number of `d`, in the given text. -/
structure PortRead (cfg : Config) (before after : Str) (d : DigitString) : Prop where
  not_thrown : (Config.read libs cfg (portSetting.text before after d.digits)).1 ≠ none
  succeeds_iff : (Config.read libs cfg (portSetting.text before after d.digits)).1 = some true ↔
    ∃ n, d.denotes = some n ∧ 1 ≤ n ∧ n ≤ 65535
  port_eq : (Config.read libs cfg (portSetting.text before after d.digits)).1 = some true →
    ∀ field ∈ portFields, portSetting.Decides libs cfg before after field →
      d.denotes =
        some (field (Config.read libs cfg (portSetting.text before after d.digits)).2).toNat

/-- `port = d;` means the number of `d`, in every text. -/
def PortExact (d : DigitString) : Prop :=
  ∀ cfg before after, Surrounds libs cfg portSetting before after → PortRead libs cfg before after d

/-- The value of a converted number. -/
theorem readValue_port (x : Nat) :
    readValue libs .PORT (.INTEGER (Int32.ofNat x)) =
      if 1 ≤ x % 2 ^ 32 ∧ x % 2 ^ 32 ≤ 65535 then
        .ok (.port (Int32.ofNat x).toUInt32.toUInt16)
      else .error .failed := by
  show (if 0 < Int32.ofNat x ∧ Int32.ofNat x < 65536 then _ else _) = _
  simp only [inPortRange_iff]
  rfl

/-- The relation of ports that are the same, or the two given ones. -/
def portsRel (n n' : UInt16) : NumberRel where
  port a a' := a = a' ∨ a = n ∧ a' = n'
  keep a a' := a = a'
  size a a' := a = a'
  port_refl _ := Or.inl rfl
  keep_refl _ := rfl
  size_refl _ := rfl

/-- The ports of alike configurations. -/
theorem port_of_alike {n n' : UInt16} {cfg cfg' : Config} (h : cfg.Alike (portsRel n n') cfg') :
    ∀ field ∈ portFields, field cfg = field cfg' ∨ field cfg = n ∧ field cfg' = n' := by
  obtain ⟨loopback, mcast, files, ⟨p, hp, rfl⟩, ⟨q, hq, rfl⟩, -, rfl⟩ := h
  intro field hfield
  simp only [portFields, List.mem_cons, List.not_mem_nil, or_false] at hfield
  obtain rfl | rfl := hfield
  · exact hp
  · exact hq

/-- **What `port = d;` does**: a number from 2^63 on throws, and the others count modulo 2^32. -/
theorem port_outcome {cfg : Config} {before after : Str} (d : DigitString)
    (h : Surrounds libs cfg portSetting before after) :
    (2 ^ 63 ≤ d.converted →
      (Config.read libs cfg (portSetting.text before after d.digits)).1 = none) ∧
    (d.converted < 2 ^ 63 →
      ¬(1 ≤ d.converted % 2 ^ 32 ∧ d.converted % 2 ^ 32 ≤ 65535) →
      (Config.read libs cfg (portSetting.text before after d.digits)).1 = some false) ∧
    (d.converted < 2 ^ 63 → 1 ≤ d.converted % 2 ^ 32 ∧ d.converted % 2 ^ 32 ≤ 65535 →
      (Config.read libs cfg (portSetting.text before after d.digits)).1 = some true ∧
      ∀ field ∈ portFields, portSetting.Decides libs cfg before after field →
        (field (Config.read libs cfg (portSetting.text before after d.digits)).2).toNat =
          d.converted % 2 ^ 32) := by
  have hscans := d.scans
  rw [d.wordToken_digits] at hscans
  refine ⟨fun hlarge => ?_, fun hlt hrange => ?_, fun hlt hrange => ?_⟩
  · rw [if_neg (not_lt.mpr hlarge)] at hscans
    have hvalue : readValue libs .PORT .outOfRange = .error .thrown := rfl
    exact h.read_error libs scans_one.1 hscans hvalue
  · rw [if_pos hlt] at hscans
    have hvalue := readValue_port libs d.converted
    rw [if_neg hrange] at hvalue
    exact h.read_error libs scans_one.1 hscans hvalue
  · rw [if_pos hlt] at hscans
    have hvalue := readValue_port libs d.converted
    rw [if_pos hrange] at hvalue
    have hone : readValue libs .PORT (.INTEGER 1) = .ok (.port 1) := rfl
    have htwo : readValue libs .PORT (.INTEGER 2) = .ok (.port 2) := rfl
    have hrel (m : UInt16) : (Value.port (Int32.ofNat d.converted).toUInt32.toUInt16).Alike
        (portsRel (Int32.ofNat d.converted).toUInt32.toUInt16 m) .PORT (.port m) :=
      .port (Or.inr ⟨rfl, rfl⟩)
    obtain ⟨hsuccess, hstored⟩ :=
      h.stored libs scans_one.1 scans_one.2 hscans hone htwo hvalue (hrel 1) (hrel 2)
    refine ⟨hsuccess, fun field hfield hdecides => ?_⟩
    rw [← toNat_port hrange.2]
    apply congrArg UInt16.toNat
    exact hstored (fun h => port_of_alike h field hfield) (fun h => port_of_alike h field hfield)
      hdecides

/-! ### Numbers of archives -/

/-- The number of archives of the `i`-th entry of `logs`, if there is one. -/
def keepField (i : Nat) (cfg : Config) : Option UInt32 := cfg.files.logs[i]?.map fun log => log.keep

/-- `keep = d;` means the number of `d`, in the given text. -/
structure KeepRead (cfg : Config) (before after : Str) (d : DigitString) : Prop where
  not_thrown : (Config.read libs cfg (keepSetting.text before after d.digits)).1 ≠ none
  keep_eq : (Config.read libs cfg (keepSetting.text before after d.digits)).1 = some true →
    ∃ n, d.denotes = some n ∧ ∀ i, keepSetting.Decides libs cfg before after (keepField i) →
      (keepField i (Config.read libs cfg (keepSetting.text before after d.digits)).2).map
        UInt32.toNat = some n

/-- `keep = d;` means the number of `d`, in every text. -/
def KeepExact (d : DigitString) : Prop :=
  ∀ cfg before after, Surrounds libs cfg keepSetting before after → KeepRead libs cfg before after d

/-- The relation of numbers of archives that are the same, or the two given ones. -/
def keepsRel (n n' : UInt32) : NumberRel where
  port a a' := a = a'
  keep a a' := a = a' ∨ a = n ∧ a' = n'
  size a a' := a = a'
  port_refl _ := rfl
  keep_refl _ := Or.inl rfl
  size_refl _ := rfl

/-- The numbers of archives of alike configurations. -/
theorem keep_of_alike {n n' : UInt32} {cfg cfg' : Config} (h : cfg.Alike (keepsRel n n') cfg')
    (i : Nat) : keepField i cfg = keepField i cfg' ∨
      keepField i cfg = some n ∧ keepField i cfg' = some n' := by
  obtain ⟨loopback, mcast, files, -, -, ⟨logs, hlogs, rfl⟩, rfl⟩ := h
  refine getElem?_of_forall₂ hlogs ?_ i
  rintro a a' ⟨keep, size, hkeep, -, rfl⟩
  exact hkeep

/-- **What `keep = d;` does**: a number from 2^63 on throws, and the others count modulo 2^32. -/
theorem keep_outcome {cfg : Config} {before after : Str} (d : DigitString)
    (h : Surrounds libs cfg keepSetting before after) :
    (2 ^ 63 ≤ d.converted →
      (Config.read libs cfg (keepSetting.text before after d.digits)).1 = none) ∧
    (d.converted < 2 ^ 63 →
      (Config.read libs cfg (keepSetting.text before after d.digits)).1 = some true ∧
      ∀ i, keepSetting.Decides libs cfg before after (keepField i) →
        keepField i (Config.read libs cfg (keepSetting.text before after d.digits)).2 =
          some (keepOf (Int32.ofNat d.converted))) := by
  have hscans := d.scans
  rw [d.wordToken_digits] at hscans
  refine ⟨fun hlarge => ?_, fun hlt => ?_⟩
  · rw [if_neg (not_lt.mpr hlarge)] at hscans
    have hvalue : readValue libs .KEEP .outOfRange = .error .thrown := rfl
    exact h.read_error libs scans_one.1 hscans hvalue
  · rw [if_pos hlt] at hscans
    have hinteger (m : Int32) : readValue libs .KEEP (.INTEGER m) = .ok (.integer m) := rfl
    have hrel (m : Int32) : (Value.integer (Int32.ofNat d.converted)).Alike
        (keepsRel (keepOf (Int32.ofNat d.converted)) (keepOf m)) .KEEP (.integer m) :=
      .keep (Or.inr ⟨rfl, rfl⟩)
    obtain ⟨hsuccess, hstored⟩ := h.stored libs scans_one.1 scans_one.2 hscans (hinteger 1)
      (hinteger 2) (hinteger _) (hrel 1) (hrel 2)
    refine ⟨hsuccess, fun i hdecides => ?_⟩
    exact hstored (fun h => keep_of_alike h i) (fun h => keep_of_alike h i) hdecides

/-! ### The conditions -/

/-- A stanza with a port. -/
theorem surrounds_port :
    Surrounds libs {} portSetting (str "loopback\x7b") (str "\x7d;") := by
  constructor
  · intro rest
    have hsplit : str "loopback\x7b" ++ (portSetting.name ++ rest) =
        str "loopback" ++ 123 :: (portSetting.name ++ rest) := rfl
    have hbefore : scanner.scanAll .INITIAL (str "loopback\x7b") =
        [.keyword .LOOPBACK, .openBrace] := by decide +kernel
    rw [hsplit, hbefore, scanAll_word (by decide) (List.all_eq_true.mp rfl) (by decide)
      (by simp [isWord, punctuation]), scanAll_punctuation (p := (123, .openBrace)) (by decide)]
    rfl
  · have htokens : scanner.scanAll .INITIAL
        (portSetting.text (str "loopback\x7b") (str "\x7d;") portSetting.one) =
          [.keyword .LOOPBACK, .openBrace, .keyword .PORT, .equals, .INTEGER 1, .semicolon,
            .closeBrace, .semicolon] := by decide +kernel
    rw [Config.read, htokens]
    rfl

/-- An entry of `logs` with a number of archives. -/
theorem surrounds_keep : Surrounds libs {} keepSetting logsBefore logsAfter := by
  have hone : Scans keepSetting.one (.INTEGER 1) := scans_one.1
  refine ⟨starts_logs keepSetting, ?_⟩
  rw [Config.read, scanAll_logs hone]
  rfl

/-- In that entry it is decided. -/
theorem decides_keep : keepSetting.Decides libs {} logsBefore logsAfter (keepField 0) := by
  have hone : Scans keepSetting.one (.INTEGER 1) := scans_one.1
  have htwo : Scans keepSetting.two (.INTEGER 2) := scans_one.2
  rw [Setting.Decides, Config.read, Config.read, scanAll_logs hone, scanAll_logs htwo]
  show some (1 : UInt32) ≠ some 2
  decide

/-- **When integers mean what they say.**  `port = d;` does if the conversion does not throw and
    what it makes of `d` passes the check modulo 2^32 only as the number of `d` itself; `keep = d;`
    does if `d` denotes a number below 2^31. -/
theorem integersExact_iff (d : DigitString) :
    (PortExact libs d ↔ d.converted < 2 ^ 63 ∧
      (1 ≤ d.converted % 2 ^ 32 ∧ d.converted % 2 ^ 32 ≤ 65535 →
        d.denotes = some d.converted ∧ d.converted < 2 ^ 32)) ∧
    (KeepExact libs d ↔ ∃ n, d.denotes = some n ∧ n < 2 ^ 31) := by
  refine ⟨⟨fun hexact => ?_, fun hcond => ?_⟩, ⟨fun hexact => ?_, fun hcond => ?_⟩⟩
  · obtain ⟨hthrown, hsucceeds, hport⟩ := hexact _ _ _ (surrounds_port libs)
    obtain ⟨hlarge, hrange, hin⟩ := port_outcome libs d (surrounds_port libs)
    have hlt : d.converted < 2 ^ 63 := by
      by_contra hge
      exact hthrown (hlarge (not_lt.mp hge))
    refine ⟨hlt, fun h => ?_⟩
    obtain ⟨n, hn, hone, hle⟩ := hsucceeds.mp (hin hlt h).1
    have heq := DigitString.eq_converted hn
    rw [← heq]
    exact ⟨hn, by omega⟩
  · intro cfg before after h
    obtain ⟨hlt, hcond⟩ := hcond
    obtain ⟨-, hout, hin⟩ := port_outcome libs d h
    by_cases hrange : 1 ≤ d.converted % 2 ^ 32 ∧ d.converted % 2 ^ 32 ≤ 65535
    · obtain ⟨hsuccess, hfield⟩ := hin hlt hrange
      obtain ⟨hdenotes, hsmall⟩ := hcond hrange
      have hmod : d.converted % 2 ^ 32 = d.converted := Nat.mod_eq_of_lt hsmall
      rw [hmod] at hrange hfield
      refine ⟨by simp [hsuccess], ⟨fun _ => ⟨_, hdenotes, hrange⟩, fun _ => hsuccess⟩, ?_⟩
      intro _ field hmem hdecides
      rw [hfield field hmem hdecides]
      exact hdenotes
    · have hfailed := hout hlt hrange
      refine ⟨by simp [hfailed], ⟨fun hsuccess => by simp [hfailed] at hsuccess, ?_⟩,
        fun hsuccess => by simp [hfailed] at hsuccess⟩
      -- A number in range is its own remainder.
      rintro ⟨n, hn, hone, hle⟩
      obtain rfl := DigitString.eq_converted hn
      omega
  · obtain ⟨hthrown, hkeep⟩ := hexact _ _ _ (surrounds_keep libs)
    obtain ⟨hlarge, hin⟩ := keep_outcome libs d (surrounds_keep libs)
    have hlt : d.converted < 2 ^ 63 := by
      by_contra hge
      exact hthrown (hlarge (not_lt.mp hge))
    obtain ⟨hsuccess, hfield⟩ := hin hlt
    obtain ⟨n, hn, hdecided⟩ := hkeep hsuccess
    have hstored := hdecided 0 (decides_keep libs)
    rw [hfield 0 (decides_keep libs), Option.map_some, toNat_keepOf, Option.some.injEq] at hstored
    refine ⟨n, hn, ?_⟩
    split_ifs at hstored <;> omega
  · intro cfg before after h
    obtain ⟨n, hn, hlt⟩ := hcond
    obtain rfl := DigitString.eq_converted hn
    obtain ⟨-, hin⟩ := keep_outcome libs d h
    obtain ⟨hsuccess, hfield⟩ := hin (by omega)
    refine ⟨by simp [hsuccess], fun _ => ⟨_, hn, fun i hdecides => ?_⟩⟩
    have hmod : d.converted % 2 ^ 32 = d.converted := Nat.mod_eq_of_lt (by omega)
    rw [hfield i hdecides, Option.map_some, toNat_keepOf, hmod, if_pos hlt]

/-- **Integers that mean something else**: a port above 2^32 is taken modulo 2^32, the digits behind
    an octal number are ignored, and a number above 2^63 throws. -/
theorem integers_mean_otherwise :
    (let out := Config.read Config.plainLibraries {} (str "loopback \x7b port = 4294967297; \x7d;")
     out.1 = some true ∧ out.2.loopback.port = 1) ∧
    (let out := Config.read Config.plainLibraries {} (str "loopback \x7b port = 0178; \x7d;")
     out.1 = some true ∧ out.2.loopback.port = 15) ∧
    (let out := Config.read Config.plainLibraries {}
        (str "files \x7b logs \x7b \x7b keep = 08; \x7d \x7d; \x7d;")
     out.1 = some true ∧ out.2.files.logs.map (fun log => log.keep) = [0]) ∧
    (Config.read Config.plainLibraries {}
      (str "loopback \x7b port = 9223372036854775808; \x7d;")).1 = none := by
  decide +kernel

end ConfigFile

end Mclog
