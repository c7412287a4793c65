import Mathlib.Tactic
import Mathlib.Data.List.Infix

/-!
# Replacing every occurrence of a word

`replaceEach w v` goes through a text from the left and puts `v` for every occurrence of `w` it
meets.  `replaceEach_flatMap` says when this is a substitution: in a text made of pieces, with no
more occurrences of `w` than there are pieces marked as standing for `w`, exactly the marked pieces
are replaced.  What it rules out are occurrences inside another piece and across the border of two.
-/

namespace General

variable {α : Type} [DecidableEq α] (w v : List α)

/-- `text` with `v` for every occurrence of `w`, where the first `skip` characters belong to an
    occurrence replaced already. -/
def replaceFrom : Nat → List α → List α
  | _, [] => []
  | skip + 1, _ :: text => replaceFrom skip text
  | 0, c :: text =>
    if w <+: c :: text then v ++ replaceFrom (w.length - 1) text else c :: replaceFrom 0 text

/-- `text` with `v` for every occurrence of `w`. -/
def replaceEach (text : List α) : List α := replaceFrom w v 0 text

/-- The number of places where `w` occurs. -/
def occurrences : List α → Nat
  | [] => 0
  | c :: text => (if w <+: c :: text then 1 else 0) + occurrences text

/-! ### Occurrences -/

/-- Where `w` does not occur there is nothing to count. -/
theorem occurrences_eq_zero_iff (hw : w ≠ []) (text : List α) :
    occurrences w text = 0 ↔ ¬ w <:+: text := by
  induction text with
  | nil => simp [occurrences, hw]
  | cons c text ih =>
    rw [occurrences, List.infix_cons_iff, Nat.add_eq_zero_iff, ih, not_or]
    simp

/-- The occurrences in two parts of a text. -/
theorem occurrences_append_le (a b : List α) :
    occurrences w a + occurrences w b ≤ occurrences w (a ++ b) := by
  induction a with
  | nil => simp [occurrences]
  | cons c a ih =>
    have hstarts : (if w <+: c :: a then 1 else 0) ≤ if w <+: c :: (a ++ b) then 1 else 0 := by
      by_cases h : w <+: c :: a
      · have hlonger : w <+: c :: (a ++ b) := h.trans (List.prefix_append (c :: a) b)
        rw [if_pos h, if_pos hlonger]
      · rw [if_neg h]
        exact Nat.zero_le _
    rw [List.cons_append, occurrences, occurrences]
    omega

/-- A word occurs in itself. -/
theorem occurrences_self_pos (hw : w ≠ []) : 1 ≤ occurrences w w := by
  have hne : occurrences w w ≠ 0 := by
    rw [Ne, occurrences_eq_zero_iff w hw]
    exact not_not.mpr (List.infix_refl w)
  omega

/-- No occurrence of `w` starts in `a` and ends in `b`. -/
def Separated (a b : List α) : Prop := ∀ s, s ≠ [] → s <:+ a → w <+: s ++ b → w <+: s

/-- If nothing is gained by joining two texts, no occurrence crosses the border. -/
theorem separated_of_occurrences_eq {a b : List α}
    (h : occurrences w (a ++ b) = occurrences w a + occurrences w b) : Separated w a b := by
  induction a with
  | nil =>
    intro s hs hsuffix
    exact absurd (List.suffix_nil.mp hsuffix) hs
  | cons c a ih =>
    have hrest := occurrences_append_le w a b
    rw [List.cons_append, occurrences, occurrences] at h
    have hstarts : w <+: c :: a → w <+: c :: (a ++ b) :=
      fun hp => hp.trans (List.prefix_append (c :: a) b)
    have hhere : w <+: c :: (a ++ b) → w <+: c :: a := by
      intro hp
      by_contra hno
      rw [if_pos hp, if_neg hno] at h
      omega
    have hsame : occurrences w (a ++ b) = occurrences w a + occurrences w b := by
      by_cases hp : w <+: c :: a
      · rw [if_pos hp, if_pos (hstarts hp)] at h
        omega
      · rw [if_neg hp, if_neg fun hp' => hp (hhere hp')] at h
        omega
    intro s hs hsuffix hp
    rcases List.suffix_cons_iff.mp hsuffix with rfl | hsuffix
    · exact hhere hp
    · exact ih hsame s hs hsuffix hp

/-! ### Replacing -/

theorem replaceFrom_eq_drop (skip : Nat) (text : List α) :
    replaceFrom w v skip text = replaceEach w v (text.drop skip) := by
  induction skip generalizing text with
  | zero => rfl
  | succ skip ih =>
    cases text with
    | nil => rfl
    | cons c text => exact ih text

/-- A text without the word is left alone. -/
theorem replaceEach_of_absent {text : List α} (h : ¬ w <:+: text) :
    replaceEach w v text = text := by
  induction text with
  | nil => rfl
  | cons c text ih =>
    rw [List.infix_cons_iff, not_or] at h
    rw [replaceEach, replaceFrom, if_neg h.1]
    exact congrArg (c :: ·) (ih h.2)

/-- The word itself is replaced. -/
theorem replaceEach_self (hw : w ≠ []) : replaceEach w v w = v := by
  obtain ⟨c, w', rfl⟩ := List.exists_cons_of_ne_nil hw
  rw [replaceEach, replaceFrom, if_pos (List.prefix_refl _), replaceFrom_eq_drop, List.length_cons,
    Nat.add_sub_cancel, List.drop_length]
  exact List.append_nil v

/-- Parts with no occurrence across their border are replaced in one by one. -/
theorem replaceEach_append {a b : List α} (h : Separated w a b) :
    replaceEach w v (a ++ b) = replaceEach w v a ++ replaceEach w v b := by
  -- An occurrence takes more than one character off, hence the induction on the length.
  induction hn : a.length using Nat.strong_induction_on generalizing a with
  | _ n ih =>
  cases a with
  | nil => rfl
  | cons c a =>
    have hlater : ∀ k, Separated w (a.drop k) b := by
      intro k s hs hsuffix hp
      exact h s hs ((hsuffix.trans (List.drop_suffix k a)).trans (List.suffix_cons c a)) hp
    have hlen : ∀ k, (a.drop k).length < n := by
      intro k
      rw [← hn, List.length_drop, List.length_cons]
      omega
    have hiff : w <+: c :: (a ++ b) ↔ w <+: c :: a :=
      ⟨fun hp => h (c :: a) (List.cons_ne_nil c a) (List.suffix_refl _) hp,
        fun hp => hp.trans (List.prefix_append (c :: a) b)⟩
    have hfrom : ∀ k, k ≤ a.length → replaceFrom w v k (a ++ b) =
        replaceFrom w v k a ++ replaceEach w v b := by
      intro k hk
      rw [replaceFrom_eq_drop, replaceFrom_eq_drop, List.drop_append_of_le_length hk]
      exact ih _ (hlen k) (hlater k) rfl
    rw [List.cons_append, replaceEach, replaceEach, replaceFrom, replaceFrom]
    by_cases hp : w <+: c :: a
    · have hk : w.length - 1 ≤ a.length := by
        have := hp.length_le
        rw [List.length_cons] at this
        omega
      rw [if_pos hp, if_pos (hiff.mpr hp), hfrom _ hk, List.append_assoc]
    · rw [if_neg hp, if_neg fun hp' => hp (hiff.mp hp'), hfrom 0 (Nat.zero_le _)]
      rfl

/-! ### Texts made of pieces -/

section

variable {ι : Type} (text : ι → List α) (marked : ι → Bool)

/-- Every marked piece is an occurrence. -/
theorem countP_le_occurrences (hw : w ≠ []) (items : List ι)
    (hmarked : ∀ i ∈ items, marked i = true → text i = w) :
    items.countP marked ≤ occurrences w (items.flatMap text) := by
  induction items with
  | nil => exact Nat.zero_le _
  | cons i items ih =>
    have hrest := ih fun j hj => hmarked j (List.mem_cons_of_mem i hj)
    have happend := occurrences_append_le w (text i) (items.flatMap text)
    rw [List.flatMap_cons, List.countP_cons]
    by_cases hi : marked i = true
    · have hself := occurrences_self_pos w hw
      rw [hmarked i List.mem_cons_self hi] at happend ⊢
      rw [if_pos hi]
      omega
    · rw [if_neg hi]
      omega

/-- **Replacing is substituting**: if `w` occurs in a text only where a marked piece stands, then
    `v` is put for the marked pieces and the others stay. -/
theorem replaceEach_flatMap (hw : w ≠ []) (items : List ι)
    (hmarked : ∀ i ∈ items, marked i = true → text i = w)
    (hcount : occurrences w (items.flatMap text) = items.countP marked) :
    replaceEach w v (items.flatMap text) =
      items.flatMap fun i => if marked i then v else text i := by
  induction items with
  | nil => rfl
  | cons i items ih =>
    have hlater : ∀ j ∈ items, marked j = true → text j = w :=
      fun j hj => hmarked j (List.mem_cons_of_mem i hj)
    have hrest := countP_le_occurrences w text marked hw items hlater
    have happend := occurrences_append_le w (text i) (items.flatMap text)
    rw [List.flatMap_cons, List.countP_cons] at hcount
    rw [List.flatMap_cons, List.flatMap_cons]
    by_cases hi : marked i = true
    · have hself := occurrences_self_pos w hw
      rw [hmarked i List.mem_cons_self hi] at happend hcount ⊢
      rw [if_pos hi] at hcount ⊢
      have hseparated := separated_of_occurrences_eq w (a := w) (b := items.flatMap text) (by omega)
      rw [replaceEach_append w v hseparated, replaceEach_self w v hw, ih hlater (by omega)]
    · rw [if_neg hi] at hcount ⊢
      have hseparated :=
        separated_of_occurrences_eq w (a := text i) (b := items.flatMap text) (by omega)
      have hnone : ¬ w <:+: text i := by
        rw [← occurrences_eq_zero_iff w hw]
        omega
      rw [replaceEach_append w v hseparated, replaceEach_of_absent w v hnone,
        ih hlater (by omega)]

end

end General
