import Mathlib.Data.Set.Insert
import Mathlib.Tactic

/-!
# Shifting numbered slots

Things in numbered slots are moved up by one slot each, in a given order; those that would get to
`keep` or above are removed.  Numbers are taken modulo `bound`.  The order is safe if every step
finds its slot filled, and the one it moves to free.

Highest first is such an order, if all that is to be moved is there once and what stays is out of the
way: `shiftsSafely_iff` says exactly when.  `shiftsSafely_iff_of_lt` is the case without the highest
number, whose next one is 0.
-/

namespace General

/-- Moving up what is in the slots `nums`, in this order. -/
def ShiftsSafely (bound keep : ℕ) : List ℕ → Set ℕ → Prop
  | [], _ => True
  | n :: nums, slots =>
    n ∈ slots ∧
      if (n + 1) % bound ≥ keep then
        ShiftsSafely bound keep nums (slots \ {n})
      else
        (n + 1) % bound ∉ slots ∧
          ShiftsSafely bound keep nums (insert ((n + 1) % bound) (slots \ {n}))

variable {bound keep : ℕ}

/-- Without the highest number.  What has been moved is above all that is still to be moved. -/
theorem shiftsSafely_iff_of_lt (nums : List ℕ) (slots : Set ℕ) (hsorted : nums.Pairwise (· ≥ ·))
    (hlt : ∀ n ∈ nums, n + 1 < bound) :
    ShiftsSafely bound keep nums slots ↔
      nums.Nodup ∧ ∀ n ∈ nums, n ∈ slots ∧ (n + 1 < keep → n + 1 ∈ slots → n + 1 ∈ nums) := by
  induction nums generalizing slots with
  | nil => simp [ShiftsSafely]
  | cons a nums ih =>
    obtain ⟨hle, hsorted'⟩ := List.pairwise_cons.mp hsorted
    have ih := fun slots => ih slots hsorted' fun n hn => hlt n (List.mem_cons_of_mem _ hn)
    have hnext : (a + 1) % bound = a + 1 := Nat.mod_eq_of_lt (hlt a List.mem_cons_self)
    have habove : a + 1 ∉ nums := fun h => absurd (hle _ h) (by omega)
    -- The rest, in slots that differ from these at `a` and above only.
    have hrest : ∀ slots' : Set ℕ, (∀ n ≤ a, n ∈ slots' ↔ n ∈ slots ∧ n ≠ a) →
        (ShiftsSafely bound keep nums slots' ↔
          (a :: nums).Nodup ∧
            ∀ n ∈ nums, n ∈ slots ∧ (n + 1 < keep → n + 1 ∈ slots → n + 1 ∈ a :: nums)) := by
      intro slots' hslots'
      rw [ih, List.nodup_cons]
      constructor
      · rintro ⟨hnodup, hall⟩
        have hne : a ∉ nums := fun h => ((hslots' a le_rfl).mp (hall a h).1).2 rfl
        refine ⟨⟨hne, hnodup⟩, ?_⟩
        intro n hn
        have hna : n < a := lt_of_le_of_ne (hle n hn) fun h => hne (h ▸ hn)
        refine ⟨((hslots' n hna.le).mp (hall n hn).1).1, ?_⟩
        intro hkeep hup
        by_cases hnext' : n + 1 = a
        · rw [hnext']
          exact List.mem_cons_self
        · exact List.mem_cons_of_mem _
            ((hall n hn).2 hkeep ((hslots' (n + 1) (by omega)).mpr ⟨hup, hnext'⟩))
      · rintro ⟨⟨hne, hnodup⟩, hall⟩
        refine ⟨hnodup, ?_⟩
        intro n hn
        have hna : n < a := lt_of_le_of_ne (hle n hn) fun h => hne (h ▸ hn)
        refine ⟨(hslots' n hna.le).mpr ⟨(hall n hn).1, hna.ne⟩, ?_⟩
        intro hkeep hup
        obtain ⟨hup, hnext'⟩ := (hslots' (n + 1) (by omega)).mp hup
        exact (List.mem_cons.mp ((hall n hn).2 hkeep hup)).resolve_left hnext'
    unfold ShiftsSafely
    rw [hnext, List.forall_mem_cons]
    by_cases hkeep : a + 1 ≥ keep
    · rw [if_pos hkeep, hrest]
      · have hsmall : ¬ a + 1 < keep := by omega
        tauto
      · exact fun n hn => Iff.rfl
    · rw [if_neg hkeep, hrest]
      · have hup : a + 1 < keep := by omega
        have hself : ¬ a + 1 = a := by omega
        rw [List.mem_cons (a := a + 1)]
        tauto
      · intro n hn
        show n = a + 1 ∨ (n ∈ slots ∧ n ≠ a) ↔ n ∈ slots ∧ n ≠ a
        exact or_iff_right (by omega)

/-- The highest number comes first. -/
theorem eq_cons_of_mem {m : ℕ} {nums : List ℕ} (hsorted : nums.Pairwise (· ≥ ·))
    (hlt : ∀ n ∈ nums, n < m + 1) (hlast : m ∈ nums) : ∃ nums', nums = m :: nums' := by
  cases nums with
  | nil => cases hlast
  | cons a nums =>
    have ha := hlt a List.mem_cons_self
    refine ⟨nums, ?_⟩
    rcases List.mem_cons.mp hlast with heq | hmem
    · rw [heq]
    · have hle := (List.pairwise_cons.mp hsorted).1 _ hmem
      rw [show a = m by omega]

/-- **Moving up is safe**, highest first, exactly when every number occurs once and its slot is
    filled, and no next slot is taken by what stays.  The highest number is moved to 0, before what
    is there is moved. -/
theorem shiftsSafely_iff (nums : List ℕ) (slots : Set ℕ) (hsorted : nums.Pairwise (· ≥ ·))
    (hlt : ∀ n ∈ nums, n < bound) (hkeep : keep < bound) :
    ShiftsSafely bound keep nums slots ↔
      nums.Nodup ∧ ∀ n ∈ nums,
        (n ∈ slots ∨ n = 0 ∧ 0 < keep ∧ bound - 1 ∈ nums) ∧
        ((n + 1) % bound < keep → (n + 1) % bound ∈ slots → n + 1 < bound ∧ n + 1 ∈ nums) := by
  obtain ⟨m, rfl⟩ : ∃ m, bound = m + 1 := ⟨bound - 1, by omega⟩
  have hlt_of_notMem : ∀ {nums : List ℕ}, (∀ n ∈ nums, n < m + 1) → m ∉ nums →
      ∀ n ∈ nums, n + 1 < m + 1 := by
    intro nums hlt hlast n hn
    have hn' := hlt n hn
    have hne : n ≠ m := fun h => hlast (h ▸ hn)
    omega
  rw [Nat.add_sub_cancel]
  by_cases hlast : m ∈ nums
  · obtain ⟨nums, rfl⟩ := eq_cons_of_mem hsorted hlt hlast
    obtain ⟨-, hsorted'⟩ := List.pairwise_cons.mp hsorted
    have hlt' : ∀ n ∈ nums, n < m + 1 := fun n hn => hlt n (List.mem_cons_of_mem _ hn)
    unfold ShiftsSafely
    rw [Nat.mod_self]
    by_cases hagain : m ∈ nums
    · -- The second time its slot is empty.
      obtain ⟨nums, rfl⟩ := eq_cons_of_mem hsorted' hlt' hagain
      have hnodup : ¬ (m :: m :: nums).Nodup := by simp
      refine iff_of_false ?_ fun h => hnodup h.1
      rintro ⟨-, h⟩
      split_ifs at h with hzero
      · exact h.1.2 rfl
      · rcases h.2.1 with heq | hmem
        · omega
        · exact hmem.2 rfl
    · have hsmall := hlt_of_notMem hlt' hagain
      -- The rest, in slots that differ from these at `m` and 0 only.
      have hrest : ∀ slots' : Set ℕ, (∀ n < m, n ∈ slots' ↔ n ∈ slots ∨ n = 0 ∧ 0 < keep) →
          (ShiftsSafely (m + 1) keep nums slots' ↔
            nums.Nodup ∧ ∀ n ∈ nums, (n ∈ slots ∨ n = 0 ∧ 0 < keep ∧ m ∈ m :: nums) ∧
              ((n + 1) % (m + 1) < keep → (n + 1) % (m + 1) ∈ slots →
                n + 1 < m + 1 ∧ n + 1 ∈ m :: nums)) := by
        intro slots' hslots'
        rw [shiftsSafely_iff_of_lt nums slots' hsorted' hsmall]
        refine and_congr_right fun _ => forall₂_congr fun n hn => ?_
        have hn' := hsmall n hn
        have hmem : m ∈ m :: nums := List.mem_cons_self
        rw [Nat.mod_eq_of_lt hn', hslots' n (by omega)]
        refine and_congr (by tauto) (imp_congr_right fun hup => ?_)
        have hne : n + 1 ≠ m := by omega
        rw [hslots' (n + 1) (by omega), List.mem_cons]
        have hzero : ¬ n + 1 = 0 := by omega
        tauto
      rw [List.nodup_cons, List.forall_mem_cons, Nat.mod_self]
      by_cases hzero : 0 ≥ keep
      · rw [if_pos hzero, hrest]
        · have hpos : ¬ 0 < keep := by omega
          tauto
        · intro n hn
          show n ∈ slots ∧ n ≠ m ↔ _
          have hne : n ≠ m := by omega
          have hpos : ¬ 0 < keep := by omega
          tauto
      · rw [if_neg hzero, hrest]
        · have hpos : 0 < keep := by omega
          have hm : m ≠ 0 := by omega
          have hover : ¬ m + 1 < m + 1 := by omega
          tauto
        · intro n hn
          show n = 0 ∨ (n ∈ slots ∧ n ≠ m) ↔ _
          have hne : n ≠ m := by omega
          have hpos : 0 < keep := by omega
          tauto
  · have hsmall := hlt_of_notMem hlt hlast
    rw [shiftsSafely_iff_of_lt nums slots hsorted hsmall]
    refine and_congr_right fun _ => forall₂_congr fun n hn => ?_
    have hn' := hsmall n hn
    rw [Nat.mod_eq_of_lt hn']
    tauto

end General
