import Mathlib.Data.List.Sort
import Mclog.Equiv.ArchiveNames

/-!
# What a roll does

`moveArchives_spec` says where every archive is after the loop of `RollArchives`: because the
highest number is moved first, no archive is moved onto one that is still to be moved, and the one
that would exceed `keep` is removed.  `getArchives_spec` says that the loop is run on the numbers of
all archives, and `rollFiles_spec` what a whole roll makes of the directory.
-/

namespace Mclog

open General

/-- The files of a log file: the live file, the rolled file and the archives. -/
def liveKey (plat : Platform) (path : Str) : List Str := directoryOf plat path ++ [filename path]

/-- `path.0`. -/
def rolledKey (plat : Platform) (path : Str) : List Str := directoryOf plat path ++ [rolledName path]

/-- `path.<num>.<ext>`. -/
def archiveKey (plat : Platform) (path compress : Str) (num : Nat) : List Str :=
  directoryOf plat path ++ [archiveName path compress num]

/-- Files of one directory are not below each other. -/
theorem entry_prefix_iff {base : List Str} {f g : Str} : base ++ [f] <+: base ++ [g] ↔ f = g := by
  simp [List.prefix_append_right_inj]

theorem archiveKey_injective {plat : Platform} {path compress : Str} {m n : Nat}
    (h : archiveKey plat path compress m = archiveKey plat path compress n) : m = n := by
  unfold archiveKey at h
  have := List.append_cancel_left h
  exact archiveName_injective (List.singleton_inj.mp this)

theorem archiveKey_ne_liveKey (plat : Platform) (path compress : Str) (num : Nat) :
    archiveKey plat path compress num ≠ liveKey plat path := by
  intro h
  exact archiveName_ne_filename path compress num
    (List.singleton_inj.mp (List.append_cancel_left h))

theorem archiveKey_ne_rolledKey (plat : Platform) (path compress : Str) (num : Nat) :
    archiveKey plat path compress num ≠ rolledKey plat path := by
  intro h
  exact archiveName_ne_rolledName path compress num
    (List.singleton_inj.mp (List.append_cancel_left h))

theorem rolledKey_ne_liveKey (plat : Platform) (path : Str) :
    rolledKey plat path ≠ liveKey plat path := by
  intro h
  exact rolledName_ne_filename path (List.singleton_inj.mp (List.append_cancel_left h))

/-- The system calls of a call succeed. -/
structure Env.Succeeds (env : Env) : Prop where
  fails : ∀ op, env.fails op = false
  ensureParentDirectory : env.ensureParentDirectory = some true

/-- No directory stands at a file of the log file. -/
structure NoDirectories (plat : Platform) (path compress : Str) (disk : Disk) : Prop where
  live : ¬ disk.IsDirectory (liveKey plat path)
  rolled : ¬ disk.IsDirectory (rolledKey plat path)
  archive : ∀ num, ¬ disk.IsDirectory (archiveKey plat path compress num)

/-- Changes of files directly in the directory make no directory. -/
theorem NoDirectories.of_find_eq {plat : Platform} {path compress : Str} {disk disk' : Disk}
    (h : NoDirectories plat path compress disk)
    (hsame : ∀ k, (∀ f, k ≠ directoryOf plat path ++ [f]) → disk'.find k = disk.find k) :
    NoDirectories plat path compress disk' := by
  have hkeep : ∀ f, ¬ disk.IsDirectory (directoryOf plat path ++ [f]) →
      ¬ disk'.IsDirectory (directoryOf plat path ++ [f]) := by
    intro f hf
    rw [FileStore.isDirectory_congr]
    · exact hf
    · intro k hk hne
      refine hsame k fun g => ?_
      rintro rfl
      exact hne (by rw [entry_prefix_iff.mp hk])
  exact ⟨hkeep _ h.live, hkeep _ h.rolled, fun num => hkeep _ (h.archive num)⟩

namespace LogFile

variable {plat : Platform} {env : Env} {lf : LogFile}

/-- One round of the loop: the archive moves up, or is removed. -/
theorem moveArchives_cons (henv : env.Succeeds) {a : Nat} (nums : List Nat) {disk : Disk}
    (hsmall : a + 1 < 2 ^ 64) (hfind : (disk.find (archiveKey plat lf.path lf.compress a)).isSome)
    (hdirs : NoDirectories plat lf.path lf.compress disk) :
    ∃ disk' : Disk,
      lf.moveArchives plat env (a :: nums) disk = lf.moveArchives plat env nums disk' ∧
      disk'.nodes = disk.nodes ∧
      (∀ num, disk'.find (archiveKey plat lf.path lf.compress num) =
        if num = a + 1 ∧ a + 1 < lf.keep.toNat then
          disk.find (archiveKey plat lf.path lf.compress a)
        else if num = a then none
        else disk.find (archiveKey plat lf.path lf.compress num)) ∧
      ∀ k, (∀ num, k ≠ archiveKey plat lf.path lf.compress num) → disk'.find k = disk.find k := by
  have hnext : (a + 1) % 2 ^ 64 = a + 1 := Nat.mod_eq_of_lt hsmall
  have hkey : ∀ num, key plat (archiveString lf.path num lf.compress) =
      archiveKey plat lf.path lf.compress num :=
    fun num => key_archiveString plat _ num lf.compress
  have hne : ∀ {m n}, m ≠ n → archiveKey plat lf.path lf.compress m ≠
      archiveKey plat lf.path lf.compress n := fun hmn h => hmn (archiveKey_injective h)
  by_cases hkeep : a + 1 ≥ lf.keep.toNat
  · -- It would be one too many.
    refine ⟨disk.remove (archiveKey plat lf.path lf.compress a), ?_, rfl, ?_, ?_⟩
    · simp only [moveArchives, hnext, hkey, if_pos hkeep]
      rw [if_neg (by simp [henv.fails, hdirs.archive])]
    · intro num
      rw [if_neg (by omega)]
      split_ifs with hnum
      · rw [hnum, FileStore.find_remove_self]
      · rw [FileStore.find_remove_of_ne (hne hnum)]
    · intro k hk
      rw [FileStore.find_remove_of_ne (hk a)]
  · -- It is renamed: no archive's name is that of a directory above another one.
    have hpre : ∀ {m n}, m ≠ n → ¬ archiveKey plat lf.path lf.compress m <+:
        archiveKey plat lf.path lf.compress n := by
      intro m n hmn h
      exact hmn (archiveName_injective (entry_prefix_iff.mp h))
    obtain ⟨i, hi⟩ := Option.isSome_iff_exists.mp hfind
    obtain ⟨disk', hrename⟩ := FileStore.rename_isSome hi (hdirs.archive (a + 1))
      (hpre (by omega))
    have hfile := FileStore.find_rename_file hrename (hdirs.archive a) (hdirs.archive (a + 1))
      (hpre (by omega)) (hpre (by omega))
    refine ⟨disk', ?_, FileStore.nodes_rename hrename, ?_, ?_⟩
    · simp only [moveArchives, hnext, hkey, if_neg hkeep, hrename, henv.fails,
        Bool.false_eq_true, if_false]
    · intro num
      rw [hfile]
      by_cases hnum : num = a + 1
      · rw [hnum, if_pos rfl, if_pos ⟨rfl, by omega⟩]
      · have hup : ¬ (num = a + 1 ∧ a + 1 < lf.keep.toNat) := fun h => hnum h.1
        rw [if_neg (hne hnum), if_neg hup]
        by_cases hnum' : num = a
        · rw [hnum', if_pos rfl, if_pos rfl]
        · rw [if_neg (hne hnum'), if_neg hnum']
    · intro k hk
      rw [hfile, if_neg (hk _), if_neg (hk _)]

/-- **The loop of `RollArchives`.**  On archives that exist, highest number first, each moves up by
    one number, and the one that would get the number `keep` is removed. -/
theorem moveArchives_spec (henv : env.Succeeds) (nums : List Nat) (disk : Disk)
    (hsorted : nums.Pairwise (· > ·)) (hsmall : ∀ num ∈ nums, num + 1 < 2 ^ 64)
    (hfind : ∀ num ∈ nums, (disk.find (archiveKey plat lf.path lf.compress num)).isSome)
    (hdirs : NoDirectories plat lf.path lf.compress disk) :
    ∃ disk', lf.moveArchives plat env nums disk = (true, disk') ∧ disk'.nodes = disk.nodes ∧
      (∀ num, disk'.find (archiveKey plat lf.path lf.compress num) =
        if 1 ≤ num ∧ num - 1 ∈ nums ∧ num < lf.keep.toNat then
          disk.find (archiveKey plat lf.path lf.compress (num - 1))
        else if num ∈ nums then none
        else disk.find (archiveKey plat lf.path lf.compress num)) ∧
      ∀ k, (∀ num, k ≠ archiveKey plat lf.path lf.compress num) → disk'.find k = disk.find k := by
  induction nums generalizing disk with
  | nil => exact ⟨disk, rfl, rfl, fun num => by simp, fun k hk => rfl⟩
  | cons a nums ih =>
    obtain ⟨hlt, hsorted'⟩ := List.pairwise_cons.mp hsorted
    obtain ⟨disk₁, hstep, hnodes, harch, hother⟩ := moveArchives_cons henv nums
      (hsmall a (by simp)) (hfind a (by simp)) hdirs
    have hdirs₁ : NoDirectories plat lf.path lf.compress disk₁ :=
      hdirs.of_find_eq fun k hk => hother k fun num => hk _
    -- The others have lower numbers, so they are where they were.
    have hlower : ∀ num, num < a → disk₁.find (archiveKey plat lf.path lf.compress num) =
        disk.find (archiveKey plat lf.path lf.compress num) := by
      intro num hnum
      rw [harch, if_neg (by omega), if_neg (by omega)]
    obtain ⟨disk', hmove, hnodes', harch', hother'⟩ := ih disk₁ hsorted'
      (fun num hnum => hsmall num (by simp [hnum]))
      (fun num hnum => by rw [hlower num (hlt num hnum)]; exact hfind num (by simp [hnum])) hdirs₁
    refine ⟨disk', hstep.trans hmove, hnodes'.trans hnodes, ?_, ?_⟩
    · intro num
      rw [harch' num]
      have hnotMem : ∀ n, a ≤ n → n ∉ nums := fun n hn hmem => absurd (hlt n hmem) (by omega)
      by_cases hup : num = a + 1 ∧ a + 1 < lf.keep.toNat
      · -- The place above the first archive.
        obtain ⟨rfl, hkeep⟩ := hup
        have hnot : ¬ (1 ≤ a + 1 ∧ a + 1 - 1 ∈ nums ∧ a + 1 < lf.keep.toNat) :=
          fun h => hnotMem a le_rfl (by simpa using h.2.1)
        rw [if_neg hnot, if_neg (hnotMem _ (by omega)), harch, if_pos ⟨rfl, hkeep⟩,
          if_pos ⟨by omega, by simp, hkeep⟩, Nat.add_sub_cancel]
      · by_cases hmem : 1 ≤ num ∧ num - 1 ∈ nums ∧ num < lf.keep.toNat
        · have hbelow := hlt _ hmem.2.1
          rw [if_pos hmem, if_pos ⟨hmem.1, by simp [hmem.2.1], hmem.2.2⟩, hlower _ (by omega)]
        · have hmem' : ¬ (1 ≤ num ∧ num - 1 ∈ a :: nums ∧ num < lf.keep.toNat) := by
            rintro ⟨h₁, h₂, h₃⟩
            rcases List.mem_cons.mp h₂ with h₂ | h₂
            · exact hup ⟨by omega, by omega⟩
            · exact hmem ⟨h₁, h₂, h₃⟩
          rw [if_neg hmem, if_neg hmem']
          by_cases hin : num ∈ nums
          · rw [if_pos hin, if_pos (by simp [hin])]
          · rw [if_neg hin, harch, if_neg hup]
            by_cases hnum : num = a
            · rw [if_pos hnum, if_pos (by simp [hnum])]
            · rw [if_neg hnum, if_neg (by simp [hnum, hin])]
    · intro k hk
      rw [hother' k hk, hother k hk]

/-- Reading all numbers that a pattern finds. -/
theorem mapM_filterMap_eq_some_iff {β γ δ : Type} (f : β → Option γ) (g : γ → Option δ) (l : List β)
    (ds : List δ) :
    (l.filterMap f).mapM g = some ds ↔
      (∀ b ∈ l, ∀ c, f b = some c → (g c).isSome) ∧ ds = l.filterMap fun b => (f b).bind g := by
  induction l generalizing ds with
  | nil =>
    constructor
    · intro h
      exact ⟨fun b hb => absurd hb List.not_mem_nil, (Option.some.inj h).symm⟩
    · rintro ⟨-, rfl⟩
      rfl
  | cons b l ih =>
    rw [List.forall_mem_cons]
    cases hf : f b with
    | none =>
      rw [List.filterMap_cons_none hf, List.filterMap_cons_none (by rw [hf, Option.bind_none]), ih]
      simp
    | some c =>
      rw [List.filterMap_cons_some hf, List.mapM_cons]
      cases hg : g c with
      | none =>
        refine iff_of_false (fun h => by cases h) fun h => ?_
        have hc := h.1.1 c rfl
        rw [hg] at hc
        cases hc
      | some d =>
        rw [List.filterMap_cons_some (by rw [hf, Option.bind_some]; exact hg)]
        have hhead : ∀ c', some c = some c' → (g c').isSome := by
          intro c' hc'
          rw [← Option.some.inj hc', hg]
          rfl
        constructor
        · intro h
          obtain ⟨d', hd', hrest⟩ := Option.bind_eq_some_iff.mp h
          obtain rfl := Option.some.inj hd'
          obtain ⟨ds', hds', heq⟩ := Option.bind_eq_some_iff.mp hrest
          obtain ⟨hall, rfl⟩ := (ih ds').mp hds'
          exact ⟨⟨hhead, hall⟩, (Option.some.inj heq).symm⟩
        · rintro ⟨⟨-, hall⟩, rfl⟩
          refine Option.bind_eq_some_iff.mpr ⟨d, rfl, Option.bind_eq_some_iff.mpr ?_⟩
          exact ⟨_, (ih _).mpr ⟨hall, rfl⟩, rfl⟩

/-- **`GetArchives`** returns if the directory can be listed, the file name is a regular expression,
    and the numbers found fit. -/
theorem getArchives_eq_some_iff {disk : Disk} {nums : List Nat} :
    lf.getArchives plat env disk = some nums ↔
      (parentPath lf.path ≠ [] ∧ env.fails .list = false) ∧ ∃ sm,
        archiveRegex plat (filename lf.path) (archiveExtension lf.compress) = some sm ∧
        (∀ f ∈ disk.listing (directoryOf plat lf.path), ∀ digits, sm f = some digits →
          (stoull digits).isSome) ∧
        nums = ((disk.listing (directoryOf plat lf.path)).filterMap fun f =>
          (sm f).bind stoull).insertionSort (· ≥ ·) := by
  unfold getArchives
  dsimp only
  by_cases hfail : (parentPath lf.path).isEmpty = true ∨ env.fails .list = true
  · rw [if_pos hfail]
    refine iff_of_false (fun h => by cases h) ?_
    rintro ⟨⟨hparent, hlist⟩, -⟩
    rcases hfail with hempty | hfails
    · exact hparent (List.isEmpty_iff.mp hempty)
    · rw [hlist] at hfails
      cases hfails
  · rw [if_neg hfail]
    rw [not_or, List.isEmpty_iff, Bool.not_eq_true] at hfail
    constructor
    · intro h
      obtain ⟨sm, hsm, h⟩ := Option.bind_eq_some_iff.mp h
      obtain ⟨nums', hnums', heq⟩ := Option.bind_eq_some_iff.mp h
      obtain ⟨hfits, rfl⟩ := (mapM_filterMap_eq_some_iff sm stoull _ _).mp hnums'
      exact ⟨hfail, sm, hsm, hfits, (Option.some.inj heq).symm⟩
    · rintro ⟨-, sm, hsm, hfits, rfl⟩
      refine Option.bind_eq_some_iff.mpr ⟨sm, hsm, Option.bind_eq_some_iff.mpr ⟨_, ?_, rfl⟩⟩
      exact (mapM_filterMap_eq_some_iff sm stoull _ _).mpr ⟨hfits, rfl⟩

/-- Archives have numbers of 64 bits. -/
theorem getArchives_lt {disk : Disk} {nums : List Nat}
    (h : lf.getArchives plat env disk = some nums) : ∀ num ∈ nums, num < 2 ^ 64 := by
  obtain ⟨-, sm, -, -, rfl⟩ := getArchives_eq_some_iff.mp h
  intro num hnum
  obtain ⟨f, -, hf⟩ :=
    List.mem_filterMap.mp ((List.perm_insertionSort _ _).mem_iff.mp hnum)
  obtain ⟨digits, -, hdigits⟩ := Option.bind_eq_some_iff.mp hf
  exact stoull_lt hdigits

/-- All files that `GetArchives` takes for archives of the path are so: they have the name of one,
    with a number that can grow. -/
def CanonicalArchives (plat : Platform) (path compress : Str) (sm : Str → Option Str)
    (disk : Disk) : Prop :=
  ∀ f digits, (disk.find (directoryOf plat path ++ [f])).isSome → sm f = some digits →
    ∃ num, f = archiveName path compress num ∧ num + 1 < 2 ^ 64

/-- **`GetArchives`** finds the numbers of all archives, highest first. -/
theorem getArchives_spec {sm : Str → Option Str} (hparent : parentPath lf.path ≠ [])
    (hown : RecognizesOwn plat lf.path lf.compress sm) (henv : env.Succeeds) {disk : Disk}
    (hcanonical : CanonicalArchives plat lf.path lf.compress sm disk) :
    ∃ nums, lf.getArchives plat env disk = some nums ∧ nums.Pairwise (· > ·) ∧
      (∀ num, num ∈ nums ↔ (disk.find (archiveKey plat lf.path lf.compress num)).isSome) ∧
      ∀ num ∈ nums, num + 1 < 2 ^ 64 := by
  -- The numbers, in the order of the directory.
  let found := (disk.listing (directoryOf plat lf.path)).filterMap fun f => (sm f).bind stoull
  have hlisted : ∀ f ∈ disk.listing (directoryOf plat lf.path), ∀ digits, sm f = some digits →
      ∃ num, f = archiveName lf.path lf.compress num ∧ num + 1 < 2 ^ 64 ∧
        (sm f).bind stoull = some num := by
    intro f hf digits hdigits
    have hfind := FileStore.mem_listing_iff.mp hf
    obtain ⟨num, rfl, hnum⟩ :=
      hcanonical f digits (Option.isSome_iff_exists.mpr hfind) hdigits
    refine ⟨num, rfl, hnum, ?_⟩
    rw [hown.archive, Option.bind_some, stoull_decimal (by omega)]
  have hget : lf.getArchives plat env disk = some (found.insertionSort (· ≥ ·)) := by
    refine getArchives_eq_some_iff.mpr ⟨⟨hparent, henv.fails _⟩, sm, hown.regex, ?_, rfl⟩
    intro f hf digits hdigits
    obtain ⟨num, -, -, hbind⟩ := hlisted f hf digits hdigits
    rw [hdigits, Option.bind_some] at hbind
    rw [hbind]
    rfl
  have hnodup : found.Nodup := by
    unfold found
    rw [List.Nodup, List.pairwise_filterMap]
    refine (FileStore.nodup_listing (s := disk) _).imp_of_mem ?_
    intro f f' hf hf' hne num hnum num' hnum' heq
    subst heq
    obtain ⟨digits, hdigits, -⟩ := Option.bind_eq_some_iff.mp hnum
    obtain ⟨digits', hdigits', -⟩ := Option.bind_eq_some_iff.mp hnum'
    obtain ⟨n, rfl, -, hn⟩ := hlisted f hf digits hdigits
    obtain ⟨n', rfl, -, hn'⟩ := hlisted f' hf' digits' hdigits'
    rw [hn] at hnum
    rw [hn'] at hnum'
    exact hne (by rw [Option.some.inj hnum, Option.some.inj hnum'])
  have hmem : ∀ num, num ∈ found ↔
      (disk.find (archiveKey plat lf.path lf.compress num)).isSome ∧ num + 1 < 2 ^ 64 := by
    intro num
    unfold found
    rw [List.mem_filterMap]
    constructor
    · rintro ⟨f, hf, hnum⟩
      obtain ⟨digits, hdigits, -⟩ := Option.bind_eq_some_iff.mp hnum
      obtain ⟨n, rfl, hsmall, hn⟩ := hlisted f hf digits hdigits
      rw [hn] at hnum
      obtain rfl := Option.some.inj hnum
      exact ⟨Option.isSome_iff_exists.mpr (FileStore.mem_listing_iff.mp hf), hsmall⟩
    · rintro ⟨hfind, hsmall⟩
      refine ⟨archiveName lf.path lf.compress num,
        FileStore.mem_listing_iff.mpr (Option.isSome_iff_exists.mp hfind), ?_⟩
      rw [hown.archive, Option.bind_some, stoull_decimal (by omega)]
  have hsmall : ∀ num, (disk.find (archiveKey plat lf.path lf.compress num)).isSome →
      num + 1 < 2 ^ 64 := by
    intro num hfind
    obtain ⟨n, hn, hlt⟩ := hcanonical _ _ hfind (hown.archive num)
    rw [archiveName_injective hn]
    exact hlt
  have hperm := List.perm_insertionSort (· ≥ ·) found
  refine ⟨_, hget, ?_, ?_, ?_⟩
  · have hsorted := List.pairwise_insertionSort (· ≥ ·) found
    exact (hsorted.and (hperm.nodup_iff.mpr hnodup)).imp fun h => lt_of_le_of_ne h.1 h.2.symm
  · intro num
    rw [hperm.mem_iff, hmem]
    exact ⟨fun h => h.1, fun h => ⟨h, hsmall num h⟩⟩
  · intro num hnum
    exact ((hmem num).mp (hperm.mem_iff.mp hnum)).2

/-- **What a roll does.**  The live file becomes the rolled file, every archive moves up by one
    number or is removed, and a compressor of the rolled file is started. -/
theorem rollFiles_spec (lf : LogFile) (w : World) {sm : Str → Option Str} (hparent : parentPath lf.path ≠ [])
    (hordinary : Ordinary (filename lf.path)) (hown : RecognizesOwn plat lf.path lf.compress sm)
    (hshell : compressorArguments plat (rolledString lf.path) = [rolledString lf.path])
    (henv : env.Succeeds) (hdirs : NoDirectories plat lf.path lf.compress w.disk)
    (hcanonical : CanonicalArchives plat lf.path lf.compress sm w.disk)
    (hlive : (w.disk.find (liveKey plat lf.path)).isSome) :
    ∃ disk : Disk, lf.rollFiles plat env w = (true,
        { w with
          disk
          jobs := w.jobs ++ [⟨lf.path, rolledString lf.path, lf.compress, .started⟩]
          rolls := w.rolls ++ [⟨lf.path, lf.compress, w.disk, disk⟩] }) ∧
      disk.nodes = w.disk.nodes ∧
      (∀ num, disk.find (archiveKey plat lf.path lf.compress num) =
        if 1 ≤ num ∧ num < lf.keep.toNat then
          w.disk.find (archiveKey plat lf.path lf.compress (num - 1))
        else none) ∧
      disk.find (rolledKey plat lf.path) = w.disk.find (liveKey plat lf.path) ∧
      disk.find (liveKey plat lf.path) = none ∧
      ∀ k, k ≠ liveKey plat lf.path → k ≠ rolledKey plat lf.path →
        (∀ num, k ≠ archiveKey plat lf.path lf.compress num) → disk.find k = w.disk.find k := by
  obtain ⟨nums, hget, hsorted, hmem, hsmall⟩ := getArchives_spec hparent hown henv hcanonical
  obtain ⟨disk₁, hmove, hnodes, harch, hother⟩ := moveArchives_spec henv nums w.disk
    hsorted hsmall (fun num hnum => (hmem num).mp hnum) hdirs
  have hlive₁ : disk₁.find (liveKey plat lf.path) = w.disk.find (liveKey plat lf.path) :=
    hother _ fun num h => archiveKey_ne_liveKey plat lf.path lf.compress num h.symm
  have hdirs₁ : NoDirectories plat lf.path lf.compress disk₁ :=
    hdirs.of_find_eq fun k hk => hother k fun num => hk _
  -- The live file is renamed.
  have hpre : ¬ liveKey plat lf.path <+: rolledKey plat lf.path := by
    intro h
    exact rolledName_ne_filename lf.path (entry_prefix_iff.mp h).symm
  have hpre' : ¬ rolledKey plat lf.path <+: liveKey plat lf.path := by
    intro h
    exact rolledName_ne_filename lf.path (entry_prefix_iff.mp h)
  obtain ⟨i, hi⟩ := Option.isSome_iff_exists.mp (by rw [← hlive₁] at hlive; exact hlive)
  obtain ⟨disk, hrename⟩ := FileStore.rename_isSome hi hdirs₁.rolled hpre
  have hfile := FileStore.find_rename_file hrename hdirs₁.live hdirs₁.rolled hpre hpre'
  refine ⟨disk, ?_, (FileStore.nodes_rename hrename).trans hnodes, ?_, ?_, ?_, ?_⟩
  · have hroll : rollArchives plat env lf w.disk = (true, disk₁) := by
      unfold rollArchives
      rw [hget]
      exact hmove
    unfold rollFiles
    rw [hroll]
    have hkeys : disk₁.rename (key plat lf.path) (key plat (rolledString lf.path)) = some disk := by
      rw [key_path plat hordinary, key_rolledString plat hordinary]
      exact hrename
    simp [rollCurrent, hkeys, henv.fails, hshell]
  · intro num
    rw [hfile, if_neg (archiveKey_ne_rolledKey _ _ _ _), if_neg (archiveKey_ne_liveKey _ _ _ _),
      harch]
    by_cases hup : 1 ≤ num ∧ num < lf.keep.toNat
    · rw [if_pos hup]
      by_cases hin : num - 1 ∈ nums
      · rw [if_pos ⟨hup.1, hin, hup.2⟩]
      · -- There was nothing to move here.
        have hnone : ∀ {n}, n ∉ nums →
            w.disk.find (archiveKey plat lf.path lf.compress n) = none := by
          intro n hn
          rwa [hmem, Option.not_isSome_iff_eq_none] at hn
        rw [if_neg fun h => hin h.2.1, hnone hin]
        split_ifs with hnum
        · rfl
        · exact hnone hnum
    · rw [if_neg hup, if_neg fun h => hup ⟨h.1, h.2.2⟩]
      split_ifs with hnum
      · rfl
      · rwa [hmem, Option.not_isSome_iff_eq_none] at hnum
  · rw [hfile, if_pos rfl, hlive₁]
  · rw [hfile, if_neg (rolledKey_ne_liveKey _ _).symm, if_pos rfl]
  · intro k hlivek hrolledk hk
    rw [hfile, if_neg hrolledk, if_neg hlivek, hother k hk]

end LogFile

end Mclog
