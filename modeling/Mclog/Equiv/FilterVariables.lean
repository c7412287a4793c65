import Mclog.ConfigFile
import Mclog.General.Replace

/-!
# How filter variables are expanded

`ExpandFilterExpr` replaces one name after another, in the order of the map, wherever `'$'` and the
name occur in what the replacements before have made.  That is the text with all its references
replaced at once, if each name occurs in it as a reference of the text only: not at the front of a
longer name, not in a value put in before and not across its border (`expandFilterExpr_eq`).

A value is the format of a replacement.  `RetainEscapes` protects its backslashes, and nothing
protects a `'$'` (`formatLiteral_retainEscapes`).
-/

namespace Mclog

open General

namespace ConfigFile

/-! ### References -/

/-- A piece of a text: a character, or `'$'` and the letters and digits behind it. -/
inductive TextPiece where
  | plain (c : UInt8)
  | reference (name : Str)
deriving DecidableEq

/-- The pieces of a text, where the first `skip` characters belong to a name read already. -/
def textPiecesFrom : Nat → Str → List TextPiece
  | _, [] => []
  | skip + 1, _ :: text => textPiecesFrom skip text
  | 0, c :: text =>
    if c = 36 then
      let name := text.takeWhile isalnum
      .reference name :: textPiecesFrom name.length text
    else
      .plain c :: textPiecesFrom 0 text

/-- The pieces of a text, from the left. -/
def textPieces (text : Str) : List TextPiece := textPiecesFrom 0 text

/-- What a piece stands for.  A reference to a name that is not defined stands for itself. -/
def TextPiece.value (vars : List (Str × Str)) : TextPiece → Str
  | plain c => [c]
  | reference name => (vars.lookup name).getD (36 :: name)

/-- The text with each reference replaced by the value of its name. -/
def expandReferences (vars : List (Str × Str)) (text : Str) : Str :=
  (textPieces text).flatMap (TextPiece.value vars)

/-- The number of references to a name. -/
def references (name text : Str) : Nat :=
  (textPieces text).countP fun piece => piece = .reference name

theorem flatMap_textPiecesFrom (skip : Nat) (text : Str) :
    (textPiecesFrom skip text).flatMap (TextPiece.value []) = text.drop skip := by
  induction text generalizing skip with
  | nil => simp [textPiecesFrom]
  | cons c text ih =>
    cases skip with
    | succ skip => exact ih skip
    | zero =>
      rw [textPiecesFrom]
      split_ifs with hc
      · subst hc
        rw [List.flatMap_cons, ih]
        show 36 :: (text.takeWhile isalnum ++ _) = 36 :: text
        rw [List.prefix_iff_eq_append.mp (List.takeWhile_prefix isalnum)]
      · rw [List.flatMap_cons, ih]
        rfl

/-- Without variables a text is left alone. -/
theorem expandReferences_nil (text : Str) : expandReferences [] text = text :=
  flatMap_textPiecesFrom 0 text

/-! ### Formats -/

/-- What the names of the Perl variables for a match look like behind `'$'`. -/
def perlVerbs : List Str :=
  [str "MATCH", str "PREMATCH", str "POSTMATCH", str "LAST_PAREN_MATCH",
   str "LAST_SUBMATCH_RESULT", str "^N"]

/-- Whether a `'$'` in a format refers to a part of the match, by what follows it: the match, what
    is before or behind it, a sub-expression, or `'$'`. -/
def startsReference (rest : Str) : Bool :=
  match rest with
  | [] => false
  | c :: inner =>
    if c ∈ str "&`'$+" then true
    else if c = 123 then
      -- In braces: a number or a name, the latter with an optional `'^'`.
      let behind := inner.dropWhile isdigit
      let name := if behind.head? = some 94 then behind.tail else behind
      (inner.head?.any isdigit && behind.head? = some 125) ||
        perlVerbs.any fun verb => (verb ++ [125]).isPrefixOf name
    else
      isdigit c || perlVerbs.any fun verb => verb.isPrefixOf rest

/-- The text that a format stands for, if it has no references and no escapes but those of
    backslashes. -/
def formatLiteral : Str → Option Str
  | [] => some []
  | [c] => if c = 92 then none else some [c]
  | c :: d :: rest =>
    if c = 92 then
      if d = 92 then (formatLiteral rest).map (92 :: ·) else none
    else if c = 36 ∧ startsReference (d :: rest) then none
    else (formatLiteral (d :: rest)).map (c :: ·)

/-- No `'$'` of the value is a reference in a format. -/
def Verbatim : Str → Prop
  | [] => True
  | c :: rest => (c = 36 → startsReference rest = false) ∧ Verbatim rest

instance decidableVerbatim : ∀ v, Decidable (Verbatim v)
  | [] => .isTrue trivial
  | _ :: rest => @instDecidableAnd _ _ inferInstance (decidableVerbatim rest)

/-- A backslash that is doubled is none of the characters of a word, so the word is where it was. -/
theorem prefix_retainEscapes_iff {w : Str} (hw : (92 : UInt8) ∉ w) (s : Str) :
    w <+: retainEscapes s ↔ w <+: s := by
  induction w generalizing s with
  | nil => simp
  | cons c w ih =>
    rw [List.mem_cons, not_or] at hw
    cases s with
    | nil => simp [retainEscapes]
    | cons d s =>
      by_cases hd : d = 92
      · subst hd
        have hcons : retainEscapes (92 :: s) = 92 :: 92 :: retainEscapes s := rfl
        rw [hcons, List.cons_prefix_cons, List.cons_prefix_cons]
        exact iff_of_false (fun h => hw.1 h.1.symm) (fun h => hw.1 h.1.symm)
      · have hcons : retainEscapes (d :: s) = d :: retainEscapes s := by
          simp [retainEscapes, hd]
        rw [hcons, List.cons_prefix_cons, List.cons_prefix_cons, ih hw.2]

theorem head_retainEscapes (s : Str) : (retainEscapes s).head? = s.head? := by
  cases s with
  | nil => rfl
  | cons d s =>
    by_cases hd : d = 92
    · subst hd
      rfl
    · simp [retainEscapes, hd]

theorem dropWhile_retainEscapes {ok : UInt8 → Bool} (hok : ok 92 = false) (s : Str) :
    (retainEscapes s).dropWhile ok = retainEscapes (s.dropWhile ok) := by
  induction s with
  | nil => rfl
  | cons d s ih =>
    by_cases hd : d = 92
    · subst hd
      have hcons : retainEscapes (92 :: s) = 92 :: 92 :: retainEscapes s := rfl
      rw [hcons, List.dropWhile_cons_of_neg (by simp [hok]),
        List.dropWhile_cons_of_neg (by simp [hok]), hcons]
    · have hcons : retainEscapes (d :: s) = d :: retainEscapes s := by simp [retainEscapes, hd]
      rw [hcons]
      by_cases hyes : ok d = true
      · rw [List.dropWhile_cons_of_pos hyes, List.dropWhile_cons_of_pos hyes, ih]
      · rw [List.dropWhile_cons_of_neg hyes, List.dropWhile_cons_of_neg hyes, hcons]

/-- Whether a name of a Perl variable follows. -/
theorem any_perlVerbs_retainEscapes (close : Str) (hclose : (92 : UInt8) ∉ close) (s : Str) :
    (perlVerbs.any fun verb => (verb ++ close).isPrefixOf (retainEscapes s)) =
      perlVerbs.any fun verb => (verb ++ close).isPrefixOf s := by
  have hverbs : ∀ verb ∈ perlVerbs, (92 : UInt8) ∉ verb := by decide
  have hsame : ∀ verb ∈ perlVerbs, (verb ++ close).isPrefixOf (retainEscapes s) =
      (verb ++ close).isPrefixOf s := by
    intro verb hverb
    have hno : (92 : UInt8) ∉ verb ++ close := by
      rw [List.mem_append, not_or]
      exact ⟨hverbs verb hverb, hclose⟩
    rw [Bool.eq_iff_iff, List.isPrefixOf_iff_prefix, List.isPrefixOf_iff_prefix]
    exact prefix_retainEscapes_iff hno s
  rw [Bool.eq_iff_iff, List.any_eq_true, List.any_eq_true]
  constructor
  · rintro ⟨verb, hverb, hstarts⟩
    exact ⟨verb, hverb, by rwa [← hsame verb hverb]⟩
  · rintro ⟨verb, hverb, hstarts⟩
    exact ⟨verb, hverb, by rwa [hsame verb hverb]⟩

/-- Protecting the backslashes of a value does not change what follows a `'$'`. -/
theorem startsReference_retainEscapes (rest : Str) :
    startsReference (retainEscapes rest) = startsReference rest := by
  cases rest with
  | nil => rfl
  | cons c inner =>
    by_cases hc : c = 92
    · -- A backslash starts no reference.
      subst hc
      have hno : ∀ s : Str, startsReference (92 :: s) = false := by
        intro s
        have hverbs : (perlVerbs.any fun verb => verb.isPrefixOf (92 :: s)) = false := by
          simp [perlVerbs, str, List.isPrefixOf]
        rw [startsReference, if_neg (by decide), if_neg (by decide), hverbs]
        rfl
      rw [hno]
      exact hno _
    · have hcons : ∀ {d : UInt8} (s : Str), d ≠ 92 →
          retainEscapes (d :: s) = d :: retainEscapes s := by
        intro d s hd
        simp [retainEscapes, hd]
      have hbehind := dropWhile_retainEscapes (show isdigit 92 = false by decide) inner
      have hname : (if (inner.dropWhile isdigit).head? = some 94 then
            (retainEscapes (inner.dropWhile isdigit)).tail
          else retainEscapes (inner.dropWhile isdigit)) =
          retainEscapes (if (inner.dropWhile isdigit).head? = some 94 then
            (inner.dropWhile isdigit).tail else inner.dropWhile isdigit) := by
        split_ifs with hcaret
        · obtain ⟨s, hs⟩ := List.head?_eq_some_iff.mp hcaret
          rw [hs, hcons s (by decide)]
          rfl
        · rfl
      have hplain := any_perlVerbs_retainEscapes [] List.not_mem_nil (c :: inner)
      simp only [List.append_nil] at hplain
      rw [hcons inner hc] at hplain ⊢
      simp only [startsReference, hbehind, head_retainEscapes, hname, hplain,
        any_perlVerbs_retainEscapes [125] (by decide)]

/-- **A value is its own replacement** exactly when no `'$'` of it is a reference. -/
theorem formatLiteral_retainEscapes {v : Str} (hv : Verbatim v) :
    formatLiteral (retainEscapes v) = some v := by
  induction v with
  | nil => rfl
  | cons c v ih =>
    obtain ⟨hdollar, hv⟩ := hv
    by_cases hc : c = 92
    · subst hc
      have hcons : retainEscapes (92 :: v) = 92 :: 92 :: retainEscapes v := rfl
      rw [hcons, formatLiteral, if_pos rfl, if_pos rfl, ih hv]
      rfl
    · have hcons : retainEscapes (c :: v) = c :: retainEscapes v := by simp [retainEscapes, hc]
      have hnot : ¬ (c = 36 ∧ startsReference (retainEscapes v) = true) := by
        rintro ⟨rfl, hstarts⟩
        rw [startsReference_retainEscapes, hdollar rfl] at hstarts
        exact Bool.false_ne_true hstarts
      rw [hcons]
      have ih := ih hv
      cases hesc : retainEscapes v with
      | nil =>
        rw [hesc] at ih
        obtain rfl : [] = v := Option.some.inj ih
        rw [formatLiteral, if_neg hc]
      | cons d rest =>
        rw [hesc] at ih hnot
        rw [formatLiteral, if_neg hc, if_neg hnot, ih]
        rfl

/-! ### One name after another -/

/-- What `boost::regex_replace` does for `'$'` and a name.  Every occurrence, from the left, is
    replaced by what the format stands for, if it stands for a text; without an occurrence the text
    is left alone. -/
structure ReplacesNames (regex_replace : Str → Str → Str → Option Str) : Prop where
  literal : ∀ name format v text, name.all isalnum = true → formatLiteral format = some v →
    regex_replace (92 :: 36 :: name) format text = some (replaceEach (36 :: name) v text)
  absent : ∀ name format text, name.all isalnum = true → ¬ 36 :: name <:+: text →
    regex_replace (92 :: 36 :: name) format text = some text

/-- With the variables `before` put in, the name of the next one occurs only as a reference of the
    text; and if there is one, no `'$'` of its value is a reference in a format. -/
def OccursAsReference (before : List (Str × Str)) (var : Str × Str) (text : Str) : Prop :=
  occurrences (36 :: var.1) (expandReferences before text) = references var.1 text ∧
    (references var.1 text ≠ 0 → Verbatim var.2)

instance (before : List (Str × Str)) (var : Str × Str) (text : Str) :
    Decidable (OccursAsReference before var text) := by
  unfold OccursAsReference
  infer_instance

section

variable {before : List (Str × Str)} {var : Str × Str} (text : Str)

/-- One more variable replaces the references to its name. -/
theorem expandReferences_concat (hnew : before.lookup var.1 = none)
    (hcount : occurrences (36 :: var.1) (expandReferences before text) = references var.1 text) :
    expandReferences (before ++ [var]) text =
      replaceEach (36 :: var.1) var.2 (expandReferences before text) := by
  have hmarked : ∀ piece ∈ textPieces text, decide (piece = .reference var.1) = true →
      TextPiece.value before piece = 36 :: var.1 := by
    intro piece _ hpiece
    rw [of_decide_eq_true hpiece, TextPiece.value, hnew]
    rfl
  have hreplace := replaceEach_flatMap (36 :: var.1) var.2 (TextPiece.value before)
    (fun piece => decide (piece = .reference var.1)) (List.cons_ne_nil _ _) (textPieces text)
    hmarked hcount
  rw [expandReferences, expandReferences, hreplace]
  congr 1
  funext piece
  cases piece with
  | plain c => rfl
  | reference name =>
    rw [TextPiece.value, List.lookup_append]
    by_cases hname : name = var.1
    · subst hname
      have hfound : [var].lookup var.1 = some var.2 := by
        rw [List.lookup_cons, beq_self_eq_true]
      rw [hnew, hfound, if_pos (decide_eq_true rfl)]
      rfl
    · have hother : [var].lookup name = none := by
        rw [List.lookup_cons, beq_false_of_ne hname]
        rfl
      rw [hother, Option.or_none]
      simp [TextPiece.value, hname]

variable {libs : Libraries} (hlibs : ReplacesNames libs.regex_replace)

include hlibs

/-- **One iteration** of the loop replaces the references to its name. -/
theorem regex_replace_spec (halnum : var.1.all isalnum = true)
    (hnew : before.lookup var.1 = none) (hclean : OccursAsReference before var text) :
    libs.regex_replace (92 :: 36 :: var.1) (retainEscapes var.2) (expandReferences before text) =
      some (expandReferences (before ++ [var]) text) := by
  obtain ⟨hcount, hverbatim⟩ := hclean
  rw [expandReferences_concat text hnew hcount]
  by_cases hnone : references var.1 text = 0
  · have habsent : ¬ 36 :: var.1 <:+: expandReferences before text := by
      rw [← occurrences_eq_zero_iff _ (List.cons_ne_nil _ _), hcount, hnone]
    rw [hlibs.absent _ _ _ halnum habsent, replaceEach_of_absent _ _ habsent]
  · exact hlibs.literal _ _ _ _ halnum (formatLiteral_retainEscapes (hverbatim hnone))

/-- The rest of the loop. -/
theorem foldlM_regex_replace (vars : List (Str × Str)) (before : List (Str × Str))
    (halnum : ∀ var ∈ vars, var.1.all isalnum = true)
    (hnodup : ((before ++ vars).map Prod.fst).Nodup)
    (hclean : ∀ i (h : i < vars.length), OccursAsReference (before ++ vars.take i) vars[i] text) :
    vars.foldlM (fun rc var => libs.regex_replace (92 :: 36 :: var.1) (retainEscapes var.2) rc)
        (expandReferences before text) =
      some (expandReferences (before ++ vars) text) := by
  induction vars generalizing before with
  | nil => simp
  | cons var vars ih =>
    have hnew : before.lookup var.1 = none := by
      rw [List.lookup_eq_none_iff]
      rw [List.map_append, List.nodup_append] at hnodup
      intro entry hentry
      have hne := hnodup.2.2 entry.1 (List.mem_map_of_mem hentry) var.1 (by simp)
      simpa using Ne.symm hne
    have hfirst : OccursAsReference before var text := by
      simpa using hclean 0 (Nat.zero_lt_succ _)
    have hrest : ∀ i (h : i < vars.length),
        OccursAsReference ((before ++ [var]) ++ vars.take i) vars[i] text := by
      intro i h
      simpa using hclean (i + 1) (Nat.succ_lt_succ h)
    rw [List.foldlM_cons, regex_replace_spec text hlibs (halnum var List.mem_cons_self) hnew hfirst,
      show before ++ var :: vars = (before ++ [var]) ++ vars by simp]
    exact ih (before ++ [var]) (fun v hv => halnum v (List.mem_cons_of_mem _ hv))
      (by simpa using hnodup) hrest

end

/-- **Filter variables expand by whole name and verbatim**, if each name occurs, with the earlier ones
    put in, only as a reference of the text, and no value put in has a `'$'` that is a reference in a
    format. -/
theorem expandFilterExpr_eq {libs : Libraries} (hlibs : ReplacesNames libs.regex_replace)
    (vars : List (Str × Str)) (halnum : ∀ var ∈ vars, var.1.all isalnum = true)
    (hnodup : (vars.map Prod.fst).Nodup) (text : Str)
    (hclean : ∀ i (h : i < vars.length), OccursAsReference (vars.take i) vars[i] text) :
    expandFilterExpr libs vars text = some (expandReferences vars text) := by
  have hloop := foldlM_regex_replace text hlibs vars [] halnum hnodup hclean
  rw [expandReferences_nil, List.nil_append] at hloop
  exact hloop

/-- `regex_replace` for `'$'` and a name, and formats that stand for a text. -/
def replaceName (expr format text : Str) : Option Str :=
  match formatLiteral format with
  | some v => some (replaceEach (expr.drop 1) v text)
  | none => if expr.drop 1 <:+: text then none else some text

/-- Libraries as they are on a host without services, for filters with such values. -/
def filterLibraries : Libraries where
  ipv4Address _ := 0
  ipv6Address _ := 0
  getservbyname _ := none
  regex_replace := replaceName

theorem replacesNames_filterLibraries : ReplacesNames filterLibraries.regex_replace := by
  constructor
  · intro name format v text _ hformat
    show replaceName (92 :: 36 :: name) format text = _
    rw [replaceName, hformat]
    rfl
  · intro name format text _ habsent
    show replaceName (92 :: 36 :: name) format text = _
    unfold replaceName
    cases formatLiteral format with
    | none => exact if_neg habsent
    | some v => exact congrArg some (replaceEach_of_absent _ v habsent)

/-- Two variables, one of them with a backslash and a `'$'` that is no reference. -/
theorem expandFilterExpr_eq_hosts :
    expandFilterExpr filterLibraries
        [(str "apps", str "ident = 'mc'"), (str "hosts", str "host = /a\\.b$/")]
        (str "($apps) && ($hosts)") =
      some (str "(ident = 'mc') && (host = /a\\.b$/)") := by
  have hexpand := expandFilterExpr_eq replacesNames_filterLibraries
    [(str "apps", str "ident = 'mc'"), (str "hosts", str "host = /a\\.b$/")] (by decide) (by decide)
    (str "($apps) && ($hosts)") (by decide)
  rw [hexpand]
  decide

/-- **A name that starts another one.**  The reference to `apps` is taken for one to `app`, with an
    `s` behind it. -/
theorem expands_shorter_name :
    ReplacesNames filterLibraries.regex_replace ∧
      expandFilterExpr filterLibraries [(str "app", str "pid = 1"), (str "apps", str "pid > 1")]
        (str "($apps)") = some (str "(pid = 1s)") ∧
      expandReferences [(str "app", str "pid = 1"), (str "apps", str "pid > 1")] (str "($apps)") =
        str "(pid > 1)" := by
  exact ⟨replacesNames_filterLibraries, by decide, by decide⟩

end ConfigFile

end Mclog
