import Mathlib.Data.List.TakeWhile
import Mclog.Equiv.Message
import Mclog.General.LexicalPath
import Mclog.LogPath

/-!
# Where log paths lead

`logPaths_getElem` removes the cache: a path `LogPath` returns is the one computed for the first
message of the run with the same key.  For a relative pattern that path is the directory, a `'/'`
and the pattern with the names inserted (`freshLogPath_of_relative`), and inserting names commutes
with splitting at `'/'` (`splitOn_substitute`), so the path is the directory entered by the
components of the pattern, each with the names inserted.  `General.Location` then gives the exact
condition under which it stays inside the directory, `Confined`; patterns and names without `..` meet
it (`confined_of_not_up`).
-/

namespace Mclog

open General Location

/-! ### Inserting the names -/

/-- The pattern with `%H`, `%I` and `%F` replaced by the hostname, the appname and the facility
    name, and nothing else changed. -/
def substitute (hostname appname facility : Str) : Str → Str
  | [] => []
  | [c] => [c]
  | c :: d :: rest =>
    if c = percent ∧ d = 72 then hostname ++ substitute hostname appname facility rest
    else if c = percent ∧ d = 73 then appname ++ substitute hostname appname facility rest
    else if c = percent ∧ d = 70 then facility ++ substitute hostname appname facility rest
    else c :: substitute hostname appname facility (d :: rest)

/-- What the code relies on `regex_replace` for: with the replacement string it builds from valid
    names, the names are inserted in place of `%H`, `%I` and `%F`. -/
def LiteralInsertion (regexReplace : Str → Str → Str) : Prop :=
  ∀ pattern hostname appname facility, isValidHostname hostname = true →
    isValidAppName appname = true →
    regexReplace pattern (replacement hostname appname (facilityName facility)) =
      substitute hostname appname (facilityName facility) pattern

/-- A message some byte stream makes `Message::Read` deliver. -/
def Message.Received (io : StreamIO) (m : Message) : Prop :=
  ∃ bs rest, Message.read io bs = some (m, rest)

/-- The pattern's components, with the names inserted, stay strictly inside the directory.  With
    `u` the number of `..` left at the front of their normal form, the directory is absolute or
    has at least `u` names, and the names after the `..` properly extend the last `u` names of
    the directory. -/
structure Confined (logDirectory pathPattern hostname appname facility : Str) : Prop where
  ne_nil : logDirectory ≠ []
  stays : StaysInside (locate slash dot logDirectory)
    ((here : Location UInt8).walk dot
      ((pathPattern.splitOn slash).map (substitute hostname appname facility)))

instance (logDirectory pathPattern hostname appname facility : Str) :
    Decidable (Confined logDirectory pathPattern hostname appname facility) :=
  decidable_of_iff (logDirectory ≠ [] ∧ StaysInside (locate slash dot logDirectory)
      ((here : Location UInt8).walk dot
        ((pathPattern.splitOn slash).map (substitute hostname appname facility))))
    ⟨fun ⟨h₁, h₂⟩ => ⟨h₁, h₂⟩, fun h => ⟨h.1, h.2⟩⟩

section

variable (h a f : Str)

/-- A pattern without `'%'` is left as it is. -/
theorem substitute_of_notMem (p : Str) (hp : percent ∉ p) : substitute h a f p = p := by
  induction p using substitute.induct with
  | case1 => rfl
  | case2 c => rfl
  | case3 c d rest hc => exact absurd (by simp [hc.1]) hp
  | case4 c d rest _ hc => exact absurd (by simp [hc.1]) hp
  | case5 c d rest _ _ hc => exact absurd (by simp [hc.1]) hp
  | case6 c d rest h₁ h₂ h₃ ih =>
    rw [substitute, if_neg h₁, if_neg h₂, if_neg h₃, ih fun hd => hp (List.mem_cons_of_mem _ hd)]

/-- The insertion starts with `'/'` only where the pattern does. -/
theorem head_substitute (hh : slash ∉ h) (ha : slash ∉ a) (hf : slash ∉ f) (hh' : h ≠ [])
    (ha' : a ≠ []) (hf' : f ≠ []) (p : Str) (hp : p.head? ≠ some slash) :
    (substitute h a f p).head? ≠ some slash := by
  -- A name inserted at the front is not empty and has no `'/'`.
  have hname : ∀ (s t : Str), s ≠ [] → slash ∉ s → (s ++ t).head? ≠ some slash := by
    intro s t hs hns
    cases s with
    | nil => exact absurd rfl hs
    | cons c s =>
      intro hc
      simp only [List.cons_append, List.head?_cons, Option.some.injEq] at hc
      exact hns (by simp [hc])
  match p, hp with
  | [], _ => simp [substitute]
  | [c], hp => simpa [substitute] using hp
  | c :: d :: rest, hp =>
    rw [substitute]
    split_ifs
    · exact hname h _ hh' hh
    · exact hname a _ ha' ha
    · exact hname f _ hf' hf
    · simpa using hp

/-- Splitting text after a prefix without the separator. -/
theorem splitOn_append_of_notMem (s t : Str) (hs : slash ∉ s) :
    (s ++ t).splitOn slash = (t.splitOn slash).modifyHead (s ++ ·) := by
  induction s with
  | nil =>
    rw [List.nil_append]
    cases t.splitOn slash <;> rfl
  | cons c s ih =>
    simp only [List.mem_cons, not_or] at hs
    have hc : (c == slash) = false := by simpa using Ne.symm hs.1
    rw [List.cons_append, List.splitOn_cons_eq_if_modifyHead, hc, ih hs.2]
    cases t.splitOn slash <;> rfl

/-- **Inserting names commutes with splitting** at `'/'`, as no name has one. -/
theorem splitOn_substitute (hh : slash ∉ h) (ha : slash ∉ a) (hf : slash ∉ f) (p : Str) :
    (substitute h a f p).splitOn slash = (p.splitOn slash).map (substitute h a f) := by
  -- A reference `%x` at the front: the name joins the first component on both sides.
  have hreference : ∀ (d : UInt8) (s rest : Str), slash ∉ s → d ≠ slash →
      (∀ q, substitute h a f (percent :: d :: q) = s ++ substitute h a f q) →
      (substitute h a f rest).splitOn slash = (rest.splitOn slash).map (substitute h a f) →
      (s ++ substitute h a f rest).splitOn slash =
        ((percent :: d :: rest).splitOn slash).map (substitute h a f) := by
    intro d s rest hs hd hsub ih
    rw [splitOn_append_of_notMem _ _ hs, ih,
      show percent :: d :: rest = [percent, d] ++ rest from rfl,
      splitOn_append_of_notMem [percent, d] rest (by simp [slash, percent] at hd ⊢; exact Ne.symm hd)]
    cases rest.splitOn slash with
    | nil => rfl
    | cons q qs => simp [hsub q]
  induction p using substitute.induct with
  | case1 => simp [substitute]
  | case2 c =>
    by_cases hc : c = slash
    · subst hc
      simp [substitute, List.splitOn_cons_eq_if_modifyHead]
    · rw [substitute, List.splitOn_eq_singleton (by simpa using Ne.symm hc)]
      simp [substitute]
  | case3 c d rest hc ih =>
    rw [substitute, if_pos hc]
    obtain ⟨rfl, rfl⟩ := hc
    exact hreference 72 h rest hh (by decide) (fun q => by simp [substitute]) ih
  | case4 c d rest hn hc ih =>
    rw [substitute, if_neg hn, if_pos hc]
    obtain ⟨rfl, rfl⟩ := hc
    exact hreference 73 a rest ha (by decide) (fun q => by simp [substitute]) ih
  | case5 c d rest hn hn' hc ih =>
    rw [substitute, if_neg hn, if_neg hn', if_pos hc]
    obtain ⟨rfl, rfl⟩ := hc
    exact hreference 70 f rest hf (by decide) (fun q => by simp [substitute]) ih
  | case6 c d rest h₁ h₂ h₃ ih =>
    rw [substitute, if_neg h₁, if_neg h₂, if_neg h₃, List.splitOn_cons_eq_if_modifyHead, ih,
      List.splitOn_cons_eq_if_modifyHead (x := c)]
    by_cases hc : (c == slash) = true
    · simp [hc, substitute]
    · rw [if_neg hc, if_neg hc]
      -- The first component is empty, or starts with `d`; either way `c` is not a reference in it.
      rw [List.splitOn_cons_eq_if_modifyHead]
      by_cases hd : (d == slash) = true
      · simp [hd, substitute]
      · rw [if_neg hd]
        cases rest.splitOn slash with
        | nil => rfl
        | cons q qs => simp [substitute, h₁, h₂, h₃]

end

/-- One conditional `(?N text)` read off a replacement string: its text and what follows. -/
def readConditional (s : Str) : Str × Str :=
  let text := (s.drop 3).takeWhile (· ≠ 41)
  (text, s.drop (3 + text.length + 1))

/-- A `regex_replace` that inserts the texts of the three conditionals literally. -/
def literalRegexReplace (text replacement : Str) : Str :=
  let (h, rest) := readConditional replacement
  let (a, rest) := readConditional rest
  let (f, _) := readConditional rest
  substitute h a f text

/-- A conditional whose text has no `')'` is read back. -/
theorem readConditional_append (open_ : Str) (hopen : open_.length = 3) (text rest : Str)
    (htext : (41 : UInt8) ∉ text) :
    readConditional (open_ ++ (text ++ 41 :: rest)) = (text, rest) := by
  have htake : (text ++ 41 :: rest).takeWhile (· ≠ 41) = text := by
    rw [List.takeWhile_append_of_pos]
    · simp
    · intro c hc
      have hne : c ≠ 41 := fun h => htext (h ▸ hc)
      simpa using hne
  have hdrop3 : (open_ ++ (text ++ 41 :: rest)).drop 3 = text ++ 41 :: rest :=
    List.drop_left' hopen
  have hdrop : (open_ ++ (text ++ 41 :: rest)).drop (3 + text.length + 1) = rest := by
    rw [show 3 + text.length + 1 = 3 + (text.length + 1) by omega, ← List.drop_drop, hdrop3,
      show text ++ 41 :: rest = (text ++ [41]) ++ rest by simp]
    exact List.drop_left' (by simp)
  simp only [readConditional, hdrop3, htake, hdrop]

/-! ### The names inserted -/

/-- A facility name is one of the table's, or "unknown". -/
theorem facilityName_mem (facility : Facility) :
    facilityName facility ∈ str "unknown" :: g_facilities.map Prod.snd := by
  rw [facilityName]
  cases h : g_facilities.find? fun p => p.1 = facility with
  | none => simp
  | some p => exact List.mem_cons_of_mem _ (List.mem_map_of_mem (List.mem_of_find?_eq_some h))

/-- A facility name is not empty and has no `'/'`. -/
theorem facilityName_plain (facility : Facility) :
    facilityName facility ≠ [] ∧ slash ∉ facilityName facility := by
  have htable : ∀ name ∈ str "unknown" :: g_facilities.map Prod.snd,
      name ≠ [] ∧ slash ∉ name := by decide
  exact htable _ (facilityName_mem facility)

/-- The names of a received message are not empty and have no `'/'`. -/
theorem Message.Received.names_plain {io : StreamIO} {m : Message} (hm : m.Received io) :
    (m.header.origin.hostname.value ≠ [] ∧ slash ∉ m.header.origin.hostname.value) ∧
      m.header.origin.appname.value ≠ [] ∧ slash ∉ m.header.origin.appname.value := by
  obtain ⟨bs, rest, hread⟩ := hm
  have hacc := Message.acceptable_of_read io hread
  have hhost := (isValidName_iff _ _).mp hacc.hostname
  have happ := (isValidName_iff _ _).mp hacc.appname
  have hhostSlash := slash_notMem_of_isValidName (by decide) hacc.hostname
  have happSlash := slash_notMem_of_isValidName (by decide) hacc.appname
  exact ⟨⟨hhost.1, hhostSlash⟩, happ.1, happSlash⟩

/-- The conditionals of a replacement string built from valid names are read back: no name has a
    `')'`. -/
theorem readConditional_replacement {h a : Str} (hh : isValidHostname h = true)
    (ha : isValidAppName a = true) (facility : Facility) :
    ∃ rest₁ rest₂, readConditional (replacement h a (facilityName facility)) = (h, rest₁) ∧
      readConditional rest₁ = (a, rest₂) ∧
      readConditional rest₂ = (facilityName facility, []) := by
  have hname : ∀ {ok : UInt8 → Bool} {s : Str}, ok 41 = false → isValidName ok s = true →
      (41 : UInt8) ∉ s := by
    intro ok s hok hs hmem
    simpa [hok] using ((isValidName_iff ok s).mp hs).2 41 hmem
  have hf : (41 : UInt8) ∉ facilityName facility := by
    have htable : ∀ name ∈ str "unknown" :: g_facilities.map Prod.snd, (41 : UInt8) ∉ name := by
      decide
    exact htable _ (facilityName_mem facility)
  have hsplit : replacement h a (facilityName facility) =
      str "(?1" ++ (h ++ 41 :: (str "(?2" ++ (a ++ 41 :: (str "(?3" ++
        (facilityName facility ++ 41 :: []))))) := by
    have h₂ : str ")(?2" = 41 :: str "(?2" := by decide
    have h₃ : str ")(?3" = 41 :: str "(?3" := by decide
    have h₄ : str ")" = [41] := by decide
    simp [replacement, h₂, h₃, h₄]
  rw [hsplit]
  have hhost : (41 : UInt8) ∉ h := hname (by decide) hh
  have happ : (41 : UInt8) ∉ a := hname (by decide) ha
  exact ⟨_, _, readConditional_append _ (by decide) _ _ hhost,
    readConditional_append _ (by decide) _ _ happ, readConditional_append _ (by decide) _ _ hf⟩

/-- The literal `regex_replace` is one that `LogPath` can rely on. -/
theorem literalInsertion_literalRegexReplace : LiteralInsertion literalRegexReplace := by
  intro pattern h a facility hh ha
  obtain ⟨rest₁, rest₂, h₁, h₂, h₃⟩ := readConditional_replacement hh ha facility
  simp only [literalRegexReplace, h₁, h₂, h₃]

/-! ### The path computed -/

section

variable (regexReplace : Str → Str → Str) (logDirectory : Str)

/-- `LogPath` never computes an empty path. -/
theorem freshLogPath_ne_nil (msg : Message) (pathPattern : Str) :
    freshLogPath regexReplace logDirectory msg pathPattern ≠ [] := by
  simp only [freshLogPath]
  split_ifs with hempty hpercent hrc hslash
  · simp
  · simp
  · -- The text `regex_replace` returned starts with `'/'`.
    intro hnil
    rw [hnil] at hrc
    simp at hrc
  · rintro rfl
    simp at hslash
  · simp

/-- For a relative pattern and a received message, the path is the directory, `'/'` and the pattern
    with the names inserted. -/
theorem freshLogPath_of_relative {regexReplace : Str → Str → Str}
    (hlit : LiteralInsertion regexReplace) {io : StreamIO} {msg : Message} (hm : msg.Received io)
    {pathPattern : Str} (hne : pathPattern ≠ []) (hrel : pathPattern.head? ≠ some slash) :
    freshLogPath regexReplace logDirectory msg pathPattern =
      logDirectory ++ slash :: substitute msg.header.origin.hostname.value
        msg.header.origin.appname.value (facilityName msg.header.facility) pathPattern := by
  have hempty : pathPattern.isEmpty = false := by simpa using hne
  simp only [freshLogPath, hempty, Bool.false_eq_true, if_false]
  by_cases hp : percent ∈ pathPattern
  · obtain ⟨⟨hh', hh⟩, ha', ha⟩ := hm.names_plain
    obtain ⟨hf', hf⟩ := facilityName_plain msg.header.facility
    have hread := hm.choose_spec.choose_spec
    have hacc := Message.acceptable_of_read io hread
    rw [if_neg (not_not.mpr hp), hlit _ _ _ _ hacc.hostname hacc.appname, if_pos]
    exact head_substitute _ _ _ hh ha hf hh' ha' hf' pathPattern hrel
  · rw [if_pos hp, if_neg hrel, substitute_of_notMem _ _ _ _ hp]

/-- The path computed for a relative pattern stays strictly inside the directory exactly when the
    pattern's components, with the names inserted, do. -/
theorem freshLogPath_strictlyInside_iff {regexReplace : Str → Str → Str}
    (hlit : LiteralInsertion regexReplace) {io : StreamIO} {msg : Message} (hm : msg.Received io)
    {pathPattern : Str} (hne : pathPattern ≠ []) (hrel : pathPattern.head? ≠ some slash) :
    StrictlyInside (locate slash dot (freshLogPath regexReplace logDirectory msg pathPattern))
        (locate slash dot logDirectory) ↔
      Confined logDirectory pathPattern msg.header.origin.hostname.value
        msg.header.origin.appname.value (facilityName msg.header.facility) := by
  obtain ⟨⟨-, hh⟩, -, ha⟩ := hm.names_plain
  obtain ⟨-, hf⟩ := facilityName_plain msg.header.facility
  rw [freshLogPath_of_relative logDirectory hlit hm hne hrel]
  by_cases hd : logDirectory = []
  · subst hd
    exact ⟨fun h => absurd h (not_strictlyInside_of_nil slash dot _), fun h => absurd rfl h.ne_nil⟩
  · rw [locate_append_sep slash dot _ _ hd, strictlyInside_enter_iff, locateFrom,
      splitOn_substitute _ _ _ hh ha hf]
    exact ⟨fun h => ⟨hd, h⟩, fun h => h.stays⟩

/-! ### The cache -/

/-- The cache maps each key to the path computed for the first call with that key. -/
def CacheOf (calls : List (Message × LogFileConfig)) (cache : LogPathCache) : Prop :=
  ∀ k, cache.lookup k =
    (calls.find? fun c => LogPathCacheKey.of c.1 c.2.pathPattern = k).map fun c =>
      freshLogPath regexReplace logDirectory c.1 c.2.pathPattern

/-- A call returns the path computed for the first call with its key, and keeps the cache so. -/
theorem logPath_spec {calls : List (Message × LogFileConfig)} {cache : LogPathCache}
    (hcache : CacheOf regexReplace logDirectory calls cache) (c : Message × LogFileConfig) :
    ∃ first, ((calls ++ [c]).find? fun d => LogPathCacheKey.of d.1 d.2.pathPattern =
        LogPathCacheKey.of c.1 c.2.pathPattern) = some first ∧
      (logPath regexReplace logDirectory cache c.1 c.2).1 =
        freshLogPath regexReplace logDirectory first.1 first.2.pathPattern ∧
      CacheOf regexReplace logDirectory (calls ++ [c])
        (logPath regexReplace logDirectory cache c.1 c.2).2 := by
  set k := LogPathCacheKey.of c.1 c.2.pathPattern with hk
  have hlook := hcache k
  cases hfind : calls.find? fun d => LogPathCacheKey.of d.1 d.2.pathPattern = k with
  | some first =>
    -- The path is in the cache, which stays as it is.
    rw [hfind, Option.map_some] at hlook
    have hpath : (logPath regexReplace logDirectory cache c.1 c.2) =
        (freshLogPath regexReplace logDirectory first.1 first.2.pathPattern, cache) := by
      have hcached : logPathFromCache cache c.1 c.2.pathPattern =
          freshLogPath regexReplace logDirectory first.1 first.2.pathPattern := by
        rw [logPathFromCache, ← hk, hlook]
      simp only [logPath, hcached]
      rw [if_neg (by simpa using freshLogPath_ne_nil _ _ _ _)]
    refine ⟨first, by rw [List.find?_append, hfind, Option.some_or], by rw [hpath], ?_⟩
    rw [hpath]
    intro k'
    rw [hcache k', List.find?_append]
    by_cases hkk : k = k'
    · rw [← hkk, hfind, Option.some_or]
    · have hc : ([c].find? fun d => LogPathCacheKey.of d.1 d.2.pathPattern = k') = none := by
        simpa [List.find?_singleton, ← hk] using hkk
      rw [hc, Option.or_none]
  | none =>
    -- The call is the first with its key: its path is computed and put into the cache.
    rw [hfind, Option.map_none] at hlook
    have hpath : (logPath regexReplace logDirectory cache c.1 c.2) =
        (freshLogPath regexReplace logDirectory c.1 c.2.pathPattern,
          cache.insert k (freshLogPath regexReplace logDirectory c.1 c.2.pathPattern)) := by
      have hcached : logPathFromCache cache c.1 c.2.pathPattern = [] := by
        rw [logPathFromCache, ← hk, hlook]
      simp only [logPath, hcached, ← hk]
      rw [List.isEmpty_nil, if_pos rfl]
    refine ⟨c, ?_, by rw [hpath], ?_⟩
    · rw [List.find?_append, hfind, Option.none_or]
      simp [← hk]
    · rw [hpath]
      intro k'
      by_cases hkk : k' = k
      · rw [hkk, AList.lookup_insert, List.find?_append, hfind, Option.none_or]
        simp [← hk]
      · have hc : ([c].find? fun d => LogPathCacheKey.of d.1 d.2.pathPattern = k') = none := by
          simpa [List.find?_singleton, ← hk] using Ne.symm hkk
        rw [AList.lookup_insert_ne hkk, hcache k', List.find?_append, hc, Option.or_none]

/-- Over a run, each call returns the path computed for the first call with its key. -/
theorem logPaths_getElem (calls before : List (Message × LogFileConfig)) (cache : LogPathCache)
    (hcache : CacheOf regexReplace logDirectory before cache) (i : Nat)
    (c : Message × LogFileConfig) (hc : calls[i]? = some c) :
    ∃ first, ((before ++ calls).find? fun d => LogPathCacheKey.of d.1 d.2.pathPattern =
        LogPathCacheKey.of c.1 c.2.pathPattern) = some first ∧
      (logPaths regexReplace logDirectory cache calls)[i]? =
        some (freshLogPath regexReplace logDirectory first.1 first.2.pathPattern) := by
  induction calls generalizing before cache i with
  | nil => simp at hc
  | cons d calls ih =>
    obtain ⟨first, hfirst, hpath, hcache'⟩ := logPath_spec regexReplace logDirectory hcache d
    cases i with
    | zero =>
      obtain rfl : d = c := by simpa using hc
      refine ⟨first, ?_, by simp [logPaths, hpath]⟩
      rw [show before ++ d :: calls = (before ++ [d]) ++ calls by simp, List.find?_append, hfirst,
        Option.some_or]
    | succ i =>
      obtain ⟨first', hfirst', hpath'⟩ := ih _ _ hcache' i (by simpa using hc)
      exact ⟨first', by simpa using hfirst', by simpa [logPaths] using hpath'⟩

end

/-! ### Confinement -/

/-- Where no component of the pattern becomes `..` and some component is neither empty nor `.`, the
    components stay inside. -/
theorem confined_of_not_up {logDirectory pathPattern hostname appname facility : Str}
    (hne : logDirectory ≠ [])
    (hup : ∀ c ∈ pathPattern.splitOn slash, substitute hostname appname facility c ≠ [dot, dot])
    (hname : ∃ c ∈ pathPattern.splitOn slash, substitute hostname appname facility c ≠ [] ∧
      substitute hostname appname facility c ≠ [dot]) :
    Confined logDirectory pathPattern hostname appname facility := by
  refine ⟨hne, staysInside_of_not_up dot _ (fun c hc => ?_) ?_⟩
  · obtain ⟨c', hc', rfl⟩ := List.mem_map.mp hc
    exact hup c' hc'
  · obtain ⟨c, hc, hempty, hdot⟩ := hname
    exact ⟨_, List.mem_map_of_mem hc, not_or.mpr ⟨hempty, hdot⟩⟩

/-- **Path confinement, exactly**.  Over any run of `LogPath` calls on received messages, the path
    returned for a relative pattern lies strictly inside the log directory if and only if the
    pattern's components, with the names of the first message of the run with the same key
    inserted, do. -/
theorem logPaths_strictlyInside_iff (io : StreamIO) (regexReplace : Str → Str → Str)
    (hlit : LiteralInsertion regexReplace) (logDirectory : Str)
    (calls : List (Message × LogFileConfig)) (hrecv : ∀ c ∈ calls, c.1.Received io) (i : Nat)
    (c : Message × LogFileConfig) (hc : calls[i]? = some c) (hne : c.2.pathPattern ≠ [])
    (hrel : c.2.pathPattern.head? ≠ some slash) :
    ∃ path first, (logPaths regexReplace logDirectory ∅ calls)[i]? = some path ∧
      (calls.find? fun d => LogPathCacheKey.of d.1 d.2.pathPattern =
        LogPathCacheKey.of c.1 c.2.pathPattern) = some first ∧
      (StrictlyInside (locate slash dot path) (locate slash dot logDirectory) ↔
        Confined logDirectory c.2.pathPattern c.1.header.origin.hostname.value
          c.1.header.origin.appname.value (facilityName first.1.header.facility)) := by
  have hempty : CacheOf regexReplace logDirectory [] ∅ := by
    intro k
    simp
  obtain ⟨first, hfirst, hpath⟩ := logPaths_getElem regexReplace logDirectory calls [] ∅ hempty i c hc
  refine ⟨_, first, hpath, by simpa using hfirst, ?_⟩
  have hkey : LogPathCacheKey.of first.1 first.2.pathPattern =
      LogPathCacheKey.of c.1 c.2.pathPattern := by
    simpa using List.find?_some hfirst
  simp only [LogPathCacheKey.of, LogPathCacheKey.mk.injEq] at hkey
  obtain ⟨-, hhost, happ, hpat⟩ := hkey
  rw [← hhost, ← happ, ← hpat]
  exact freshLogPath_strictlyInside_iff logDirectory hlit
    (hrecv first (by simpa using List.mem_of_find?_eq_some hfirst)) (by rwa [hpat]) (by rwa [hpat])

/-- A message from the given host and application. -/
def messageFrom (hostname appname : ShortString 255) : Message :=
  ⟨⟨⟨1⟩, .user, .info, ⟨hostname, appname, 1⟩⟩, ⟨str "x", length_x_le⟩⟩

/-- The condition at work on an ordinary message, with the default configuration. -/
theorem logPaths_strictlyInside_ordinary :
    let msg := messageFrom ⟨str "host", by decide⟩ ⟨str "app", by decide⟩
    ∃ path first, (logPaths literalRegexReplace (str "/var/log") ∅ [(msg, {})])[0]? = some path ∧
      ([(msg, ({} : LogFileConfig))].find? fun d => LogPathCacheKey.of d.1 d.2.pathPattern =
        LogPathCacheKey.of msg (str "%H/%I")) = some first ∧
      (StrictlyInside (locate slash dot path) (locate slash dot (str "/var/log")) ↔
        Confined (str "/var/log") (str "%H/%I") (str "host") (str "app")
          (facilityName first.1.header.facility)) := by
  intro msg
  refine logPaths_strictlyInside_iff prefixedStreams literalRegexReplace
    literalInsertion_literalRegexReplace (str "/var/log") [(msg, {})] ?_ 0 (msg, {}) rfl
    (by decide) (by decide)
  intro c hc
  obtain rfl : c = (msg, {}) := by simpa using hc
  have hread := Message.read_write_of_acceptable prefixedStreams (m := msg) (by decide) []
  exact ⟨_, _, hread⟩

/-- **A sender can leave the log directory.**  The decoder delivers a message whose hostname is
    `..`; for it the default pattern gives a path outside the directory. -/
theorem logPath_escapes :
    let msg := messageFrom ⟨str "..", by decide⟩ ⟨str "app", by decide⟩
    LiteralInsertion literalRegexReplace ∧
      Message.read prefixedStreams (msg.write prefixedStreams) = some (msg, []) ∧
      str "%H/%I" ≠ [] ∧ (str "%H/%I").head? ≠ some slash ∧
      [dot, dot] ∉ (str "%H/%I").splitOn slash ∧
      (logPath literalRegexReplace (str "/var/log") ∅ msg { pathPattern := str "%H/%I" }).1 =
        str "/var/log/../app" ∧
      ¬ StrictlyInside (locate slash dot (str "/var/log/../app"))
        (locate slash dot (str "/var/log")) := by
  intro msg
  have hread := Message.read_write_of_acceptable prefixedStreams (m := msg) (by decide) []
  rw [List.append_nil] at hread
  exact ⟨literalInsertion_literalRegexReplace, hread, by decide, by decide, by decide, by decide,
    by decide⟩

end Mclog
