import Mathlib.Data.List.AList
import Mathlib.Tactic

/-!
# File stores

A store of files under hierarchical names: a name is the list of the components of an absolute path,
and stands for a node, which holds data and the time of its last modification.  A node can be open
while its name is moved or removed, so names and nodes are separate.  Every name has a node of its
own.  A directory is what other names are below; empty directories are not represented.

`find_rename_iff` says what every name stands for after a renaming, of a file or of a directory;
`find_rename_file` is the case of a file, and `find_rename_of_not_prefix` the frame rule.
`ChangesOnly` collects what a sequence of operations leaves alone.
-/

namespace General

/-- A file's data and the time of its last modification. -/
structure Node (α : Type) where
  data : α
  mtime : Int
deriving DecidableEq

/-- Files under hierarchical names. -/
structure FileStore (κ α : Type) [DecidableEq κ] where
  names : AList fun _ : List κ => Nat
  nodes : Nat → Node α
  next : Nat
  lookup_lt : ∀ k i, names.lookup k = some i → i < next
  lookup_injective : ∀ k k' i, names.lookup k = some i → names.lookup k' = some i → k = k'

namespace FileStore

variable {κ α : Type} [DecidableEq κ]

/-- The store without files.  Nodes that have no name hold `node`. -/
def empty (node : Node α) : FileStore κ α where
  names := ∅
  nodes _ := node
  next := 0
  lookup_lt := by simp
  lookup_injective := by simp

variable (s : FileStore κ α)

/-- The node of a file. -/
def find (k : List κ) : Option Nat := s.names.lookup k

/-- The data of a file. -/
def read (k : List κ) : Option α := (s.find k).map fun i => (s.nodes i).data

/-- Other names are below this one. -/
def IsDirectory (k : List κ) : Prop := ∃ k' ∈ s.names.keys, k <+: k' ∧ k ≠ k'

instance (k : List κ) : Decidable (s.IsDirectory k) :=
  inferInstanceAs (Decidable (∃ k' ∈ s.names.keys, k <+: k' ∧ k ≠ k'))

/-- This is the name of a file or of a directory. -/
def Present (k : List κ) : Prop := ∃ k' ∈ s.names.keys, k <+: k'

instance (k : List κ) : Decidable (s.Present k) :=
  inferInstanceAs (Decidable (∃ k' ∈ s.names.keys, k <+: k'))

/-- The files directly in a directory. -/
def listing (dir : List κ) : List κ :=
  s.names.keys.filterMap fun k => if k.dropLast = dir then k.getLast? else none

/-- What is directly in a directory, files and directories. -/
def entries (dir : List κ) : List κ :=
  s.names.keys.filterMap fun k => if dir <+: k then (k.drop dir.length).head? else none

/-- A new node under a name. -/
def create (k : List κ) (node : Node α) : FileStore κ α where
  names := s.names.insert k s.next
  nodes := Function.update s.nodes s.next node
  next := s.next + 1
  lookup_lt k' i h := by
    by_cases hk : k' = k
    · subst hk
      rw [AList.lookup_insert] at h
      obtain rfl := Option.some.inj h
      omega
    · rw [AList.lookup_insert_ne hk] at h
      exact Nat.lt_succ_of_lt (s.lookup_lt k' i h)
  lookup_injective k₁ k₂ i h₁ h₂ := by
    by_cases hk₁ : k₁ = k <;> by_cases hk₂ : k₂ = k
    · rw [hk₁, hk₂]
    · -- The new node has no other name.
      rw [hk₁, AList.lookup_insert] at h₁
      rw [AList.lookup_insert_ne hk₂] at h₂
      have := s.lookup_lt k₂ i h₂
      obtain rfl := Option.some.inj h₁
      omega
    · rw [hk₂, AList.lookup_insert] at h₂
      rw [AList.lookup_insert_ne hk₁] at h₁
      have := s.lookup_lt k₁ i h₁
      obtain rfl := Option.some.inj h₂
      omega
    · rw [AList.lookup_insert_ne hk₁] at h₁
      rw [AList.lookup_insert_ne hk₂] at h₂
      exact s.lookup_injective k₁ k₂ i h₁ h₂

/-- A node, written through an open file. -/
def setNode (i : Nat) (node : Node α) : FileStore κ α :=
  { s with nodes := Function.update s.nodes i node }

/-- A name removed; nothing, if it is not the name of a file. -/
def remove (k : List κ) : FileStore κ α where
  names := s.names.erase k
  nodes := s.nodes
  next := s.next
  lookup_lt k' i h := by
    by_cases hk : k' = k
    · rw [hk, AList.lookup_erase] at h
      cases h
    · rw [AList.lookup_erase_ne hk] at h
      exact s.lookup_lt k' i h
  lookup_injective k₁ k₂ i h₁ h₂ := by
    by_cases hk₁ : k₁ = k
    · rw [hk₁, AList.lookup_erase] at h₁
      cases h₁
    · by_cases hk₂ : k₂ = k
      · rw [hk₂, AList.lookup_erase] at h₂
        cases h₂
      · rw [AList.lookup_erase_ne hk₁] at h₁
        rw [AList.lookup_erase_ne hk₂] at h₂
        exact s.lookup_injective k₁ k₂ i h₁ h₂

/-- The name `k` when `a` has become `b`. -/
def rekey (a b k : List κ) : List κ := if a <+: k then b ++ k.drop a.length else k

/-- Names stay different, if there were none at or below `b`. -/
theorem rekey_injective {a b k k' : List κ} (hk : ¬ b <+: k) (hk' : ¬ b <+: k')
    (h : rekey a b k = rekey a b k') : k = k' := by
  unfold rekey at h
  split_ifs at h with ha ha' ha'
  · obtain ⟨r, rfl⟩ := ha
    obtain ⟨r', rfl⟩ := ha'
    simpa using h
  · exact absurd ⟨_, h⟩ hk'
  · exact absurd ⟨_, h.symm⟩ hk
  · exact h

/-- Everything at or below `a` moved to `b`, where nothing is. -/
def move (a b : List κ) (hb : ∀ k ∈ s.names.keys, ¬ b <+: k) : FileStore κ α where
  names := ⟨s.names.entries.map fun e => ⟨rekey a b e.1, e.2⟩, by
    rw [List.nodupKeys_iff_pairwise, List.pairwise_map]
    refine (List.nodupKeys_iff_pairwise.mp s.names.nodupKeys).imp_of_mem ?_
    intro e e' he he' hne heq
    exact hne (rekey_injective (hb _ (List.mem_map_of_mem he)) (hb _ (List.mem_map_of_mem he'))
      heq)⟩
  nodes := s.nodes
  next := s.next
  lookup_lt k i h := by
    obtain ⟨e, he, heq⟩ := List.mem_map.mp (AList.mem_lookup_iff.mp h)
    obtain ⟨-, rfl⟩ := Sigma.mk.inj heq
    exact s.lookup_lt e.1 _ (AList.mem_lookup_iff.mpr he)
  lookup_injective k k' i h h' := by
    obtain ⟨e, he, heq⟩ := List.mem_map.mp (AList.mem_lookup_iff.mp h)
    obtain ⟨e', he', heq'⟩ := List.mem_map.mp (AList.mem_lookup_iff.mp h')
    simp only [Sigma.mk.injEq, heq_eq_eq] at heq heq'
    obtain ⟨rfl, rfl⟩ := heq
    obtain ⟨rfl, hi⟩ := heq'
    have := s.lookup_injective e.1 e'.1 e.2 (AList.mem_lookup_iff.mpr he)
      (by rw [← hi]; exact AList.mem_lookup_iff.mpr he')
    rw [this]

/-- `rename`, of a file or of a directory: a file replaces a file; nothing replaces a directory, and
    nothing moves below itself. -/
def rename (a b : List κ) : Option (FileStore κ α) :=
  let cleared := if (s.find a).isSome then s.remove b else s
  if a = b then
    if s.Present a then some s else none
  else if h : (s.Present a ∧ ¬ a <+: b) ∧ ∀ k ∈ cleared.names.keys, ¬ b <+: k then
    some (cleared.move a b h.2)
  else
    none

/-! ### What names stand for -/

variable {s : FileStore κ α} {a b k k' : List κ} {i : Nat} {node : Node α}

theorem mem_keys_iff : k ∈ s.names.keys ↔ ∃ i, s.find k = some i := by
  rw [← AList.mem_keys, ← AList.lookup_isSome, Option.isSome_iff_exists]
  rfl

theorem mem_listing_iff {dir : List κ} {f : κ} :
    f ∈ s.listing dir ↔ ∃ i, s.find (dir ++ [f]) = some i := by
  unfold listing
  rw [List.mem_filterMap, ← mem_keys_iff]
  constructor
  · rintro ⟨k, hk, hf⟩
    split_ifs at hf with hdir
    rw [← hdir, List.dropLast_append_getLast? f hf]
    exact hk
  · intro hk
    exact ⟨_, hk, by simp⟩

theorem nodup_listing (dir : List κ) : (s.listing dir).Nodup := by
  refine (AList.keys_nodup s.names).filterMap ?_
  intro k k' f hf hf'
  simp only [Option.mem_def] at hf hf'
  split_ifs at hf hf' with hdir hdir'
  rw [← List.dropLast_append_getLast? f hf, ← List.dropLast_append_getLast? f hf', hdir, hdir']

theorem find_lt (h : s.find k = some i) : i < s.next := s.lookup_lt k i h

theorem find_injective (h : s.find k = some i) (h' : s.find k' = some i) : k = k' :=
  s.lookup_injective k k' i h h'

/-- No name is below a name that is no directory. -/
theorem find_eq_none_of_not_isDirectory (h : ¬ s.IsDirectory k) (hk : k <+: k') (hne : k ≠ k') :
    s.find k' = none := by
  by_contra hfind
  obtain ⟨i, hi⟩ := Option.ne_none_iff_exists'.mp hfind
  exact h ⟨k', mem_keys_iff.mpr ⟨i, hi⟩, hk, hne⟩

@[simp] theorem find_create_self : (s.create k node).find k = some s.next := AList.lookup_insert _

theorem find_create_of_ne (h : k' ≠ k) : (s.create k node).find k' = s.find k' :=
  AList.lookup_insert_ne h

/-- Whether a directory stands at a name depends on the names below it only. -/
theorem isDirectory_congr {s' : FileStore κ α}
    (h : ∀ k', k <+: k' → k ≠ k' → s'.find k' = s.find k') :
    s'.IsDirectory k ↔ s.IsDirectory k := by
  unfold IsDirectory
  simp only [mem_keys_iff]
  constructor
  · rintro ⟨k', ⟨i, hi⟩, hk, hne⟩
    exact ⟨k', ⟨i, by rw [← h k' hk hne]; exact hi⟩, hk, hne⟩
  · rintro ⟨k', ⟨i, hi⟩, hk, hne⟩
    exact ⟨k', ⟨i, by rw [h k' hk hne]; exact hi⟩, hk, hne⟩

@[simp] theorem find_setNode : (s.setNode i node).find k = s.find k := rfl

@[simp] theorem find_remove_self : (s.remove k).find k = none := AList.lookup_erase _ _

theorem find_remove_of_ne (h : k' ≠ k) : (s.remove k).find k' = s.find k' := AList.lookup_erase_ne h

theorem find_move_iff {hb : ∀ k ∈ s.names.keys, ¬ b <+: k} :
    (s.move a b hb).find k = some i ↔ ∃ k₀, s.find k₀ = some i ∧ rekey a b k₀ = k := by
  constructor
  · intro h
    obtain ⟨e, he, heq⟩ := List.mem_map.mp (AList.mem_lookup_iff.mp h)
    simp only [Sigma.mk.injEq, heq_eq_eq] at heq
    obtain ⟨rfl, rfl⟩ := heq
    exact ⟨e.1, AList.mem_lookup_iff.mpr he, rfl⟩
  · rintro ⟨k₀, h, rfl⟩
    exact AList.mem_lookup_iff.mpr (List.mem_map.mpr ⟨_, AList.mem_lookup_iff.mp h, rfl⟩)

theorem nodes_rename {s' : FileStore κ α} (h : s.rename a b = some s') : s'.nodes = s.nodes := by
  unfold rename at h
  dsimp only at h
  split_ifs at h <;> obtain rfl := Option.some.inj h <;> rfl

theorem next_rename {s' : FileStore κ α} (h : s.rename a b = some s') : s'.next = s.next := by
  unfold rename at h
  dsimp only at h
  split_ifs at h <;> obtain rfl := Option.some.inj h <;> rfl

/-- **What a renaming does**: what was at or below `a` is at or below `b`, what was there is gone,
    and all else is as it was. -/
theorem find_rename_iff {s' : FileStore κ α} (h : s.rename a b = some s') (hne : a ≠ b) :
    s'.find k = some i ↔ (¬ a <+: k ∧ ¬ b <+: k ∧ s.find k = some i) ∨
      ∃ r, k = b ++ r ∧ s.find (a ++ r) = some i := by
  unfold rename at h
  simp only [if_neg hne] at h
  split_ifs at h with hfile hmove hmove
  all_goals
    obtain rfl := Option.some.inj h
    obtain ⟨⟨-, hab⟩, hb⟩ := hmove
    rw [find_move_iff]
  -- The file at `b` is cleared away before a file is moved there.
  have hcleared : ∀ k₀, ¬ b <+: k₀ → (s.remove b).find k₀ = s.find k₀ := by
    intro k₀ hk₀
    refine find_remove_of_ne ?_
    rintro rfl
    exact hk₀ (List.prefix_refl _)
  · constructor
    · rintro ⟨k₀, hk₀, rfl⟩
      have hnot := hb k₀ (mem_keys_iff.mpr ⟨i, hk₀⟩)
      rw [hcleared k₀ hnot] at hk₀
      unfold rekey
      split_ifs with ha
      · obtain ⟨r, rfl⟩ := ha
        exact Or.inr ⟨r, by simp, hk₀⟩
      · exact Or.inl ⟨ha, hnot, hk₀⟩
    · rintro (⟨ha, hnot, hk⟩ | ⟨r, rfl, hk⟩)
      · exact ⟨k, by rw [hcleared k hnot]; exact hk, if_neg ha⟩
      · refine ⟨a ++ r, ?_, ?_⟩
        · rw [find_remove_of_ne]
          · exact hk
          · rintro rfl
            exact hab (List.prefix_append a r)
        · unfold rekey
          rw [if_pos (List.prefix_append a r), List.drop_left]
  · constructor
    · rintro ⟨k₀, hk₀, rfl⟩
      unfold rekey
      split_ifs with ha
      · obtain ⟨r, rfl⟩ := ha
        exact Or.inr ⟨r, by simp, hk₀⟩
      · exact Or.inl ⟨ha, hb k₀ (mem_keys_iff.mpr ⟨i, hk₀⟩), hk₀⟩
    · rintro (⟨ha, hnot, hk⟩ | ⟨r, rfl, hk⟩)
      · exact ⟨k, hk, if_neg ha⟩
      · refine ⟨a ++ r, hk, ?_⟩
        unfold rekey
        rw [if_pos (List.prefix_append a r), List.drop_left]

/-- **The frame rule**: a renaming changes nothing but what is at or below its two names. -/
theorem find_rename_of_not_prefix {s' : FileStore κ α} (h : s.rename a b = some s')
    (ha : ¬ a <+: k) (hb : ¬ b <+: k) : s'.find k = s.find k := by
  by_cases hab : a = b
  · subst hab
    unfold rename at h
    simp only [if_true] at h
    split_ifs at h
    rw [Option.some.inj h]
  · refine Option.ext fun i => ?_
    rw [find_rename_iff h hab]
    constructor
    · rintro (⟨-, -, hk⟩ | ⟨r, rfl, -⟩)
      · exact hk
      · exact absurd (List.prefix_append b r) hb
    · exact fun hk => Or.inl ⟨ha, hb, hk⟩

/-- A file can be renamed, if no directory stands at its new name. -/
theorem rename_isSome (hfind : s.find a = some i) (hb : ¬ s.IsDirectory b) (hab : ¬ a <+: b) :
    ∃ s', s.rename a b = some s' := by
  have hne : a ≠ b := by
    rintro rfl
    exact hab (List.prefix_refl _)
  have hpresent : s.Present a := ⟨a, mem_keys_iff.mpr ⟨i, hfind⟩, List.prefix_refl _⟩
  have hclear : ∀ k ∈ (s.remove b).names.keys, ¬ b <+: k := by
    intro k hk hbk
    obtain ⟨j, hj⟩ := mem_keys_iff.mp hk
    by_cases hkb : k = b
    · subst hkb
      simp at hj
    · rw [find_remove_of_ne hkb] at hj
      exact hb ⟨k, mem_keys_iff.mpr ⟨j, hj⟩, hbk, fun h => hkb h.symm⟩
  refine ⟨(s.remove b).move a b hclear, ?_⟩
  unfold rename
  have hfile : (s.find a).isSome = true := by rw [hfind]; rfl
  simp only [if_neg hne, hfile, if_true]
  rw [dif_pos ⟨⟨hpresent, hab⟩, hclear⟩]

/-- **A file renamed**: its new name stands for its node, its old one for none, and all else is as
    it was. -/
theorem find_rename_file {s' : FileStore κ α} (h : s.rename a b = some s')
    (ha : ¬ s.IsDirectory a) (hb : ¬ s.IsDirectory b) (hab : ¬ a <+: b) (hba : ¬ b <+: a)
    (k : List κ) :
    s'.find k = if k = b then s.find a else if k = a then none else s.find k := by
  have hne : a ≠ b := by
    rintro rfl
    exact hab (List.prefix_refl _)
  refine Option.ext fun i => ?_
  rw [find_rename_iff h hne]
  -- Nothing is below either name.
  have hbelow : ∀ {d r : List κ}, ¬ s.IsDirectory d → s.find (d ++ r) = some i → r = [] := by
    intro d r hd hi
    by_contra hr
    rw [find_eq_none_of_not_isDirectory hd (List.prefix_append d r) (by simpa using hr)] at hi
    cases hi
  split_ifs with hkb hka
  · subst hkb
    constructor
    · rintro (⟨-, hb', -⟩ | ⟨r, hr, hi⟩)
      · exact absurd (List.prefix_refl k) hb'
      · obtain rfl : r = [] := by simpa using hr
        simpa using hi
    · exact fun hi => Or.inr ⟨[], by simp, by simpa using hi⟩
  · subst hka
    constructor
    · rintro (⟨ha', -, -⟩ | ⟨r, hr, -⟩)
      · exact absurd (List.prefix_refl k) ha'
      · exact absurd ⟨r, hr.symm⟩ hba
    · intro hi
      cases hi
  · constructor
    · rintro (⟨-, -, hi⟩ | ⟨r, rfl, hi⟩)
      · exact hi
      · rw [hbelow ha hi, List.append_nil] at hkb
        exact absurd rfl hkb
    · intro hi
      refine Or.inl ⟨?_, ?_, hi⟩
      · rintro ⟨r, rfl⟩
        rw [hbelow ha hi, List.append_nil] at hka
        exact hka rfl
      · rintro ⟨r, rfl⟩
        rw [hbelow hb hi, List.append_nil] at hkb
        exact hkb rfl

/-! ### What is there -/

theorem present_iff : s.Present k ↔ ∃ r i, s.find (k ++ r) = some i := by
  constructor
  · rintro ⟨k', hk', r, rfl⟩
    obtain ⟨i, hi⟩ := mem_keys_iff.mp hk'
    exact ⟨r, i, hi⟩
  · rintro ⟨r, i, hi⟩
    exact ⟨k ++ r, mem_keys_iff.mpr ⟨i, hi⟩, List.prefix_append k r⟩

theorem mem_entries_iff {dir : List κ} {f : κ} :
    f ∈ s.entries dir ↔ s.Present (dir ++ [f]) := by
  unfold entries
  rw [List.mem_filterMap]
  constructor
  · rintro ⟨k, hk, hf⟩
    split_ifs at hf with hdir
    obtain ⟨r, rfl⟩ := hdir
    rw [List.drop_left] at hf
    obtain ⟨r', rfl⟩ := List.head?_eq_some_iff.mp hf
    exact ⟨_, hk, by simp⟩
  · rintro ⟨k, hk, r, rfl⟩
    refine ⟨_, hk, ?_⟩
    have hdir : dir <+: dir ++ [f] ++ r := by
      rw [List.append_assoc]
      exact List.prefix_append _ _
    rw [if_pos hdir]
    simp

theorem find_eq_none_of_not_present (h : ¬ s.Present k) : s.find k = none := by
  rw [Option.eq_none_iff_forall_ne_some]
  intro i hi
  exact h (present_iff.mpr ⟨[], i, by rwa [List.append_nil]⟩)

theorem not_isDirectory_of_not_present (h : ¬ s.Present k) : ¬ s.IsDirectory k := by
  rintro ⟨k', hk', hpre, -⟩
  exact h ⟨k', hk', hpre⟩

theorem present_create_iff : (s.create k node).Present k' ↔ k' <+: k ∨ s.Present k' := by
  constructor
  · intro h
    obtain ⟨r, i, hi⟩ := present_iff.mp h
    by_cases hk : k' ++ r = k
    · exact Or.inl ⟨r, hk⟩
    · rw [find_create_of_ne hk] at hi
      exact Or.inr (present_iff.mpr ⟨r, i, hi⟩)
  · rintro (⟨r, rfl⟩ | h)
    · exact present_iff.mpr ⟨r, _, find_create_self⟩
    · obtain ⟨r, i, hi⟩ := present_iff.mp h
      by_cases hk : k' ++ r = k
      · subst hk
        exact present_iff.mpr ⟨r, _, find_create_self⟩
      · exact present_iff.mpr ⟨r, i, by rwa [find_create_of_ne hk]⟩

omit [DecidableEq κ] in
/-- Files of one directory. -/
theorem entry_prefix_append_iff {dir r : List κ} {f g : κ} :
    dir ++ [f] <+: dir ++ [g] ++ r ↔ f = g := by
  rw [List.append_assoc, List.prefix_append_right_inj, List.singleton_append,
    List.cons_prefix_cons]
  simp

/-- Another entry of a directory removed. -/
theorem present_remove_of_ne {dir : List κ} {f g : κ} (hne : g ≠ f) :
    (s.remove (dir ++ [f])).Present (dir ++ [g]) ↔ s.Present (dir ++ [g]) := by
  have hkey : ∀ r, dir ++ [g] ++ r ≠ dir ++ [f] := by
    intro r hk
    have hpre : dir ++ [g] <+: dir ++ [f] ++ [] := ⟨r, by rw [hk, List.append_nil]⟩
    exact hne (entry_prefix_append_iff.mp hpre)
  rw [present_iff, present_iff]
  constructor
  · rintro ⟨r, i, hi⟩
    rw [find_remove_of_ne (hkey r)] at hi
    exact ⟨r, i, hi⟩
  · rintro ⟨r, i, hi⟩
    exact ⟨r, i, by rwa [find_remove_of_ne (hkey r)]⟩

theorem not_present_remove (h : ¬ s.IsDirectory k) : ¬ (s.remove k).Present k := by
  intro hpresent
  obtain ⟨r, i, hi⟩ := present_iff.mp hpresent
  by_cases hk : k ++ r = k
  · rw [hk, find_remove_self] at hi
    cases hi
  · rw [find_remove_of_ne hk,
      find_eq_none_of_not_isDirectory h (List.prefix_append k r) (Ne.symm hk)] at hi
    cases hi

/-- What is renamed is there, and does not move below itself. -/
theorem of_rename {s' : FileStore κ α} (h : s.rename a b = some s') :
    s.Present a ∧ (a ≠ b → ¬ a <+: b) := by
  unfold rename at h
  dsimp only at h
  by_cases hab : a = b
  · rw [if_pos hab] at h
    refine ⟨?_, fun hne => absurd hab hne⟩
    by_contra hnot
    rw [if_neg hnot] at h
    cases h
  · rw [if_neg hab] at h
    by_cases hmove : (s.Present a ∧ ¬ a <+: b) ∧
        ∀ k ∈ (if (s.find a).isSome then s.remove b else s).names.keys, ¬ b <+: k
    · exact ⟨hmove.1.1, fun _ => hmove.1.2⟩
    · rw [dif_neg hmove] at h
      cases h

/-- **An entry renamed**: it is there under its new name, and all else is as it was. -/
theorem present_rename_iff {s' : FileStore κ α} {dir : List κ} {f g x : κ} (hne : f ≠ g)
    (h : s.rename (dir ++ [f]) (dir ++ [g]) = some s') :
    s'.Present (dir ++ [x]) ↔ x = g ∨ x ≠ f ∧ s.Present (dir ++ [x]) := by
  have hne' : dir ++ [f] ≠ dir ++ [g] := by simpa using hne
  constructor
  · intro hx
    obtain ⟨r, i, hi⟩ := present_iff.mp hx
    rcases (find_rename_iff h hne').mp hi with ⟨hf, -, hi⟩ | ⟨r', hr', -⟩
    · refine Or.inr ⟨?_, present_iff.mpr ⟨r, i, hi⟩⟩
      rintro rfl
      exact hf (List.prefix_append _ r)
    · exact Or.inl (entry_prefix_append_iff.mp ⟨r, hr'⟩)
  · rintro (rfl | ⟨hxf, hx⟩)
    · obtain ⟨r, i, hi⟩ := present_iff.mp (of_rename h).1
      exact present_iff.mpr ⟨r, i, (find_rename_iff h hne').mpr (Or.inr ⟨r, rfl, hi⟩)⟩
    · by_cases hxg : x = g
      · subst hxg
        obtain ⟨r, i, hi⟩ := present_iff.mp (of_rename h).1
        exact present_iff.mpr ⟨r, i, (find_rename_iff h hne').mpr (Or.inr ⟨r, rfl, hi⟩)⟩
      · obtain ⟨r, i, hi⟩ := present_iff.mp hx
        refine present_iff.mpr ⟨r, i, (find_rename_iff h hne').mpr (Or.inl ⟨?_, ?_, hi⟩)⟩
        · exact fun hpre => hxf (entry_prefix_append_iff.mp hpre).symm
        · exact fun hpre => hxg (entry_prefix_append_iff.mp hpre).symm

/-! ### What files hold -/

theorem read_of_find (h : s.find k = some i) : s.read k = some (s.nodes i).data := by
  rw [read, h]
  rfl

theorem read_eq_none_of_notMem (h : k ∉ s.names.keys) : s.read k = none := by
  have hfind : s.find k = none := by
    by_contra hfind
    exact h (mem_keys_iff.mpr (Option.ne_none_iff_exists'.mp hfind))
  rw [read, hfind]
  rfl

/-- A file is what its name stands for. -/
theorem read_congr {s' : FileStore κ α} (hnodes : s'.nodes = s.nodes) (h : s'.find k' = s.find k) :
    s'.read k' = s.read k := by
  rw [read, read, hnodes, h]

theorem read_create_self : (s.create k node).read k = some node.data := by
  rw [read_of_find find_create_self]
  simp [create]

theorem read_create_of_ne (h : k' ≠ k) : (s.create k node).read k' = s.read k' := by
  unfold read
  rw [find_create_of_ne h]
  refine Option.map_congr fun i hi => ?_
  have : i ≠ s.next := (s.find_lt hi).ne
  simp [create, this]

theorem read_setNode_of_find (h : s.find k = some i) :
    (s.setNode i node).read k = some node.data := by
  rw [read_of_find (s := s.setNode i node) h]
  simp [setNode]

/-- Writing to a node changes the file with its name only. -/
theorem read_setNode_of_ne (h : s.find k = some i) (hne : k' ≠ k) :
    (s.setNode i node).read k' = s.read k' := by
  unfold read
  rw [find_setNode]
  refine Option.map_congr fun j hj => ?_
  have : j ≠ i := by
    rintro rfl
    exact hne (find_injective hj h)
  simp [setNode, this]

/-! ### What changes -/

/-- The stores differ at or below the names in `T` only. -/
def ChangesOnly (T : List κ → Prop) (s s' : FileStore κ α) : Prop :=
  ∀ k, (∀ t, T t → ¬ t <+: k) → s'.find k = s.find k ∧ s'.read k = s.read k

theorem ChangesOnly.refl (T : List κ → Prop) (s : FileStore κ α) : ChangesOnly T s s :=
  fun _ _ => ⟨rfl, rfl⟩

theorem ChangesOnly.trans {T : List κ → Prop} {s s' s'' : FileStore κ α} (h : ChangesOnly T s s')
    (h' : ChangesOnly T s' s'') : ChangesOnly T s s'' := by
  intro k hk
  obtain ⟨hfind, hread⟩ := h k hk
  obtain ⟨hfind', hread'⟩ := h' k hk
  exact ⟨hfind'.trans hfind, hread'.trans hread⟩

theorem changesOnly_create {T : List κ → Prop} (hk : T k) : ChangesOnly T s (s.create k node) := by
  intro k' hk'
  have hne : k' ≠ k := by
    rintro rfl
    exact hk' k' hk (List.prefix_refl _)
  exact ⟨find_create_of_ne hne, read_create_of_ne hne⟩

theorem changesOnly_remove {T : List κ → Prop} (hk : T k) : ChangesOnly T s (s.remove k) := by
  intro k' hk'
  have hne : k' ≠ k := by
    rintro rfl
    exact hk' k' hk (List.prefix_refl _)
  exact ⟨find_remove_of_ne hne, read_congr rfl (find_remove_of_ne hne)⟩

theorem changesOnly_rename {T : List κ → Prop} {s' : FileStore κ α} (h : s.rename a b = some s')
    (ha : T a) (hb : T b) : ChangesOnly T s s' := by
  intro k hk
  have hfind := find_rename_of_not_prefix h (hk a ha) (hk b hb)
  exact ⟨hfind, read_congr (nodes_rename h) hfind⟩

end FileStore

end General
