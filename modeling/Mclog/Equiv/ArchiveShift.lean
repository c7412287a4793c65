import Mclog.Equiv.LogFileCalls
import Mclog.Equiv.LogFile
import Mclog.General.SlotShift

/-!
# Shifting archives

`RollArchives` goes through the archives it has found, highest number first, and names each by the
number it has read.  Seen as slots, the archives are moved up in this order, so `ShiftsSafely` says
when every call names a file that is there, and no file is overwritten (`safely_moveArchives_iff`).
What is found is a matter of the pattern, and what is there one of the names: an archive can be found
under a name that is not the one made of its number.  `shifts_iff` says for which directories all
goes well.
-/

namespace Mclog

open General Program

open LogFile (CanonicalArchives plainPlatform emptyDisk)
open LogFileCall (handle)

namespace LogFileProgram

variable {plat : Platform} {lf : LogFile} {disk : Disk}

/-- An archive of the log that is there. -/
def NamesArchive (plat : Platform) (lf : LogFile) (archive : Archive) (disk : Disk) : Prop :=
  (∃ num, archive.string = archiveString lf.path num lf.compress) ∧
    (disk.find (LogFile.key plat archive.string)).isSome

/-- Removals and renamings name an archive of the log that is there, and nothing is overwritten. -/
def ShiftsArchives (plat : Platform) (lf : LogFile) :
    ⦃ρ : Type⦄ → LogFileCall ρ → Disk × List Job → Prop
  | _, .remove archive, s => NamesArchive plat lf archive s.1
  | _, .rename archive next, s =>
    NamesArchive plat lf archive s.1 ∧ ¬ s.1.Present (LogFile.key plat next.string)
  | _, _, _ => True

/-- The numbers whose archives are there. -/
def archiveSlots (plat : Platform) (lf : LogFile) (disk : Disk) : Set ℕ :=
  fun num => (disk.find (archiveKey plat lf.path lf.compress num)).isSome

/-- The directory of the log holds regular files. -/
def RegularFiles (plat : Platform) (lf : LogFile) (disk : Disk) : Prop :=
  ∀ f, ¬ disk.IsDirectory (directoryOf plat lf.path ++ [f])

theorem RegularFiles.archive (h : RegularFiles plat lf disk) (num : ℕ) :
    ¬ disk.IsDirectory (archiveKey plat lf.path lf.compress num) := h _

theorem RegularFiles.present_iff (h : RegularFiles plat lf disk) (num : ℕ) :
    disk.Present (archiveKey plat lf.path lf.compress num) ↔ num ∈ archiveSlots plat lf disk := by
  rw [FileStore.present_iff]
  constructor
  · rintro ⟨r, i, hi⟩
    cases r with
    | nil =>
      rw [List.append_nil] at hi
      exact Option.isSome_iff_exists.mpr ⟨i, hi⟩
    | cons c r =>
      rw [FileStore.find_eq_none_of_not_isDirectory (h.archive num) (List.prefix_append _ _)
        (by simp)] at hi
      cases hi
  · intro hnum
    obtain ⟨i, hi⟩ := Option.isSome_iff_exists.mp hnum
    exact ⟨[], i, by rwa [List.append_nil]⟩

/-- Changes of files directly in the directory make no directory there. -/
theorem RegularFiles.of_find_eq {disk' : Disk} (h : RegularFiles plat lf disk)
    (hsame : ∀ k, (∀ num, k ≠ archiveKey plat lf.path lf.compress num) →
      disk'.find k = disk.find k) : RegularFiles plat lf disk' := by
  intro f
  rw [FileStore.isDirectory_congr]
  · exact h f
  · intro k hk hne
    refine hsame k fun num => ?_
    rintro rfl
    exact hne (by rw [archiveKey, entry_prefix_iff.mp hk])

/-- An archive removed. -/
theorem archiveSlots_remove (disk : Disk) (num : ℕ) :
    archiveSlots plat lf (disk.remove (archiveKey plat lf.path lf.compress num)) =
      archiveSlots plat lf disk \ {num} := by
  ext n
  show Option.isSome _ = true ↔ Option.isSome _ = true ∧ ¬ n = num
  by_cases hn : n = num
  · rw [hn, FileStore.find_remove_self]
    simp
  · rw [FileStore.find_remove_of_ne fun h => hn (archiveKey_injective h)]
    exact (and_iff_left hn).symm

/-- An archive renamed. -/
theorem rename_archive {num next : ℕ} (hne : num ≠ next) (h : RegularFiles plat lf disk)
    (hnum : num ∈ archiveSlots plat lf disk) :
    ∃ disk' : Disk,
      disk.rename (archiveKey plat lf.path lf.compress num)
        (archiveKey plat lf.path lf.compress next) = some disk' ∧
      archiveSlots plat lf disk' = insert next (archiveSlots plat lf disk \ {num}) ∧
      RegularFiles plat lf disk' := by
  have hpre : ∀ {m n}, m ≠ n → ¬ archiveKey plat lf.path lf.compress m <+:
      archiveKey plat lf.path lf.compress n :=
    fun hmn hk => hmn (archiveName_injective (entry_prefix_iff.mp hk))
  obtain ⟨i, hi⟩ := Option.isSome_iff_exists.mp hnum
  obtain ⟨disk', hrename⟩ := FileStore.rename_isSome hi (h.archive next) (hpre hne)
  have hfile := FileStore.find_rename_file hrename (h.archive num) (h.archive next) (hpre hne)
    (hpre hne.symm)
  refine ⟨disk', hrename, ?_, ?_⟩
  · ext n
    show Option.isSome _ = true ↔ n = next ∨ (Option.isSome _ = true ∧ ¬ n = num)
    rw [hfile]
    by_cases hnext : n = next
    · rw [hnext, if_pos rfl, hi]
      simp
    · rw [if_neg fun hk => hnext (archiveKey_injective hk)]
      by_cases hn : n = num
      · rw [hn, if_pos rfl]
        simp [hne]
      · rw [if_neg fun hk => hn (archiveKey_injective hk)]
        tauto
  · refine h.of_find_eq fun k hk => ?_
    rw [hfile, if_neg (hk next), if_neg (hk num)]

/-! ### The loop -/

theorem safely_attempt {α : Type} {env : Env}
    {P : ⦃ρ : Type⦄ → LogFileCall ρ → Disk × List Job → Prop} (op : LogFileCall (Option α))
    (s : Disk × List Job) :
    Safely (handle plat env) P (attempt op) s ↔ P op s ∧ (handle plat env op s).1.isSome := by
  unfold attempt
  rw [perform_bind, safely_call]
  refine and_congr_right fun _ => ?_
  cases (handle plat env op s).1 with
  | none => exact iff_of_false id (by simp)
  | some a => exact iff_of_true trivial rfl

/-- An archive that may not move up is removed: this asks for it to be there. -/
theorem moveArchive_remove {num : ℕ} (hkeep : (num + 1) % 2 ^ 64 ≥ lf.keep.toNat)
    (jobs : List Job) (h : RegularFiles plat lf disk) :
    exec (handle plat {}) (moveArchive lf.keep ⟨lf.path, num, lf.compress⟩) (disk, jobs) =
        (some (), disk.remove (archiveKey plat lf.path lf.compress num), jobs) ∧
      (Safely (handle plat {}) (ShiftsArchives plat lf)
          (moveArchive lf.keep ⟨lf.path, num, lf.compress⟩) (disk, jobs) ↔
        NamesArchive plat lf ⟨lf.path, num, lf.compress⟩ disk) := by
  have hkey : LogFile.key plat (archiveString lf.path num lf.compress) =
      archiveKey plat lf.path lf.compress num := key_archiveString plat _ num lf.compress
  have hremove : handle plat {} (.remove ⟨lf.path, num, lf.compress⟩) (disk, jobs) =
      (some (disk.find (archiveKey plat lf.path lf.compress num)).isSome,
        disk.remove (archiveKey plat lf.path lf.compress num), jobs) := by
    rw [handle_remove, hkey]
    dsimp only
    rw [if_neg]
    rintro (hfails | hdir)
    · cases hfails
    · exact h.archive num hdir
  have hmove : moveArchive lf.keep ⟨lf.path, num, lf.compress⟩ =
      attempt (.remove ⟨lf.path, num, lf.compress⟩) >>= fun _ => pure () := by
    unfold moveArchive
    rw [if_pos hkeep]
  constructor
  · rw [hmove, exec_bind, exec_attempt, hremove]
    rfl
  · rw [hmove, safely_bind_of_some _ ((exec_attempt _).trans hremove), safely_attempt, hremove,
      safely_pure, and_true]
    exact and_iff_left rfl

/-- **The loop of `RollArchives`** moves the slots up. -/
theorem safely_moveArchives_iff (nums : List ℕ) (jobs : List Job)
    (h : RegularFiles plat lf disk) :
    Safely (handle plat {}) (ShiftsArchives plat lf)
        (moveArchives lf.keep (nums.map fun num => ⟨lf.path, num, lf.compress⟩)) (disk, jobs) ↔
      ShiftsSafely (2 ^ 64) lf.keep.toNat nums (archiveSlots plat lf disk) := by
  have hkey : ∀ num, LogFile.key plat (archiveString lf.path num lf.compress) =
      archiveKey plat lf.path lf.compress num :=
    fun num => key_archiveString plat _ num lf.compress
  induction nums generalizing disk with
  | nil => exact iff_of_true trivial trivial
  | cons num nums ih =>
    have hnames : NamesArchive plat lf ⟨lf.path, num, lf.compress⟩ disk ↔
        num ∈ archiveSlots plat lf disk := by
      unfold NamesArchive Archive.string
      rw [hkey]
      exact and_iff_right ⟨num, rfl⟩
    rw [List.map_cons, moveArchives, ShiftsSafely]
    by_cases hkeep : (num + 1) % 2 ^ 64 ≥ lf.keep.toNat
    · -- The archive is removed.
      obtain ⟨hexec, hsafely⟩ := moveArchive_remove hkeep jobs h
      rw [safely_bind_of_some _ hexec, hsafely, hnames, if_pos hkeep, ← archiveSlots_remove]
      refine and_congr_right fun _ => ih ?_
      exact h.of_find_eq fun k hk => FileStore.find_remove_of_ne (hk num)
    · -- It is renamed, which is asked for only if the next slot is free.
      have hne : num ≠ (num + 1) % 2 ^ 64 := by omega
      have hmove : moveArchive lf.keep ⟨lf.path, num, lf.compress⟩ =
          attempt (.rename ⟨lf.path, num, lf.compress⟩
            ⟨lf.path, (num + 1) % 2 ^ 64, lf.compress⟩) := by
        unfold moveArchive
        rw [if_neg hkeep]
        rfl
      have hasked : ShiftsArchives plat lf (.rename ⟨lf.path, num, lf.compress⟩
          ⟨lf.path, (num + 1) % 2 ^ 64, lf.compress⟩) (disk, jobs) ↔
            num ∈ archiveSlots plat lf disk ∧
              (num + 1) % 2 ^ 64 ∉ archiveSlots plat lf disk := by
        rw [← hnames, ← h.present_iff, ← hkey]
        exact Iff.rfl
      rw [if_neg hkeep, ← and_assoc]
      by_cases hfree : num ∈ archiveSlots plat lf disk ∧
          (num + 1) % 2 ^ 64 ∉ archiveSlots plat lf disk
      · obtain ⟨disk', hrename, hslots, hregular⟩ := rename_archive hne h hfree.1
        have hhandle : handle plat {} (.rename ⟨lf.path, num, lf.compress⟩
            ⟨lf.path, (num + 1) % 2 ^ 64, lf.compress⟩) (disk, jobs) = (some (), disk', jobs) := by
          simp only [handle, Archive.string, hkey, hrename]
          rfl
        have hexec : exec (handle plat {}) (moveArchive lf.keep ⟨lf.path, num, lf.compress⟩)
            (disk, jobs) = (some (), disk', jobs) := by
          rw [hmove, exec_attempt, hhandle]
        rw [safely_bind_of_some _ hexec, hmove, safely_attempt, hhandle, hasked, ← hslots]
        exact and_congr (and_iff_left rfl) (ih hregular)
      · refine iff_of_false (fun hsafely => ?_) fun hboth => hfree hboth.1
        have hfirst := ((safely_bind _ _ _ _).mp hsafely).1
        rw [hmove, safely_attempt, hasked] at hfirst
        exact hfree hfirst.1

/-! ### The archives found -/

/-- A call that removes and renames nothing. -/
def Looks : ⦃ρ : Type⦄ → LogFileCall ρ → Prop
  | _, .remove _ => False
  | _, .rename _ _ => False
  | _, _ => True

theorem makesOnly_attempt {α : Type} {op : LogFileCall (Option α)} (hop : Looks op) :
    (attempt op).MakesOnly Looks := by
  refine ⟨hop, fun r => ?_⟩
  cases r with
  | none => trivial
  | some a => trivial

theorem makesOnly_findArchives (dir : Str) (rgx : Str → Option Str) (names : List Str) :
    (findArchives dir rgx names).MakesOnly Looks := by
  induction names with
  | nil => trivial
  | cons fname names ih =>
    rw [findArchives]
    refine (makesOnly_attempt (by trivial)).bind fun regular => ?_
    cases regular with
    | false => exact ih
    | true =>
      cases rgx fname with
      | none => exact ih
      | some digits =>
        exact (makesOnly_attempt (by trivial)).bind fun num => ih.bind fun nums => trivial

theorem makesOnly_getArchives (lf : LogFile) : (getArchives lf).MakesOnly Looks := by
  refine (makesOnly_attempt (by trivial)).bind fun rgx => ⟨trivial, fun listing => ?_⟩
  apply (makesOnly_findArchives (parentPath lf.path) rgx listing.names).bind
  intro nums
  split_ifs
  · trivial
  · trivial

/-- `GetArchives` finds a file, and takes it for the archive of a number. -/
def FoundAs (plat : Platform) (lf : LogFile) (disk : Disk) (sm : Str → Option Str) (f : Str)
    (num : ℕ) : Prop :=
  f ∈ disk.listing (directoryOf plat lf.path) ∧ (sm f).bind stoull = some num

/-- A directory whose archives can be shifted. -/
structure Shiftable (plat : Platform) (lf : LogFile) (disk : Disk) (sm : Str → Option Str) :
    Prop where
  /-- The numbers found have 64 bits. -/
  fits : ∀ f ∈ disk.listing (directoryOf plat lf.path), ∀ digits, sm f = some digits →
    (stoull digits).isSome
  /-- No number is found twice. -/
  distinct : ∀ f g num, FoundAs plat lf disk sm f num → FoundAs plat lf disk sm g num → f = g
  /-- What is found is there, under the name of its number, or 0 is put there from the highest
      number. -/
  there : ∀ f num, FoundAs plat lf disk sm f num → num ∈ archiveSlots plat lf disk ∨
    num = 0 ∧ 0 < lf.keep.toNat ∧ ∃ g, FoundAs plat lf disk sm g (2 ^ 64 - 1)
  /-- Where it moves is free, or what is there is found as well, and so moved first. -/
  free : ∀ f num, FoundAs plat lf disk sm f num → (num + 1) % 2 ^ 64 < lf.keep.toNat →
    (num + 1) % 2 ^ 64 ∈ archiveSlots plat lf disk →
      num + 1 < 2 ^ 64 ∧ ∃ g, FoundAs plat lf disk sm g (num + 1)

/-- The numbers found, in the order of the directory. -/
theorem shifts_found_iff {sm : Str → Option Str}
    (hfits : ∀ f ∈ disk.listing (directoryOf plat lf.path), ∀ digits, sm f = some digits →
      (stoull digits).isSome) :
    ShiftsSafely (2 ^ 64) lf.keep.toNat
        (((disk.listing (directoryOf plat lf.path)).filterMap fun f =>
          (sm f).bind stoull).insertionSort (· ≥ ·)) (archiveSlots plat lf disk) ↔
      Shiftable plat lf disk sm := by
  have hperm := List.perm_insertionSort (· ≥ ·)
    ((disk.listing (directoryOf plat lf.path)).filterMap fun f => (sm f).bind stoull)
  have hmem : ∀ num, num ∈ ((disk.listing (directoryOf plat lf.path)).filterMap fun f =>
      (sm f).bind stoull).insertionSort (· ≥ ·) ↔ ∃ f, FoundAs plat lf disk sm f num := by
    intro num
    rw [hperm.mem_iff, List.mem_filterMap]
    rfl
  have hlt : ∀ f num, FoundAs plat lf disk sm f num → num < 2 ^ 64 := by
    rintro f num ⟨-, hf⟩
    obtain ⟨digits, -, hdigits⟩ := Option.bind_eq_some_iff.mp hf
    exact stoull_lt hdigits
  have hnodup : (((disk.listing (directoryOf plat lf.path)).filterMap fun f =>
      (sm f).bind stoull).insertionSort (· ≥ ·)).Nodup ↔
        ∀ f g num, FoundAs plat lf disk sm f num → FoundAs plat lf disk sm g num → f = g := by
    rw [hperm.nodup_iff, List.Nodup, List.pairwise_filterMap]
    constructor
    · intro hpairwise f g num hf hg
      by_contra hne
      have hsymm : Std.Symm fun f g => ∀ m, (sm f).bind stoull = some m →
          ∀ n, (sm g).bind stoull = some n → m ≠ n :=
        ⟨fun f g h m hm n hn heq => h n hn m hm heq.symm⟩
      exact hpairwise.forall hf.1 hg.1 hne num hf.2 num hg.2 rfl
    · intro hdistinct
      refine (FileStore.nodup_listing (directoryOf plat lf.path)).pairwise_of_forall_ne ?_
      intro f hf g hg hne m hm n hn heq
      subst heq
      exact hne (hdistinct f g m ⟨hf, hm⟩ ⟨hg, hn⟩)
  rw [shiftsSafely_iff _ _ (List.pairwise_insertionSort _ _)
    (fun num hnum => (hmem num).mp hnum |>.elim fun f hf => hlt f num hf)
    (lt_trans lf.keep.toNat_lt (by norm_num)), hnodup]
  simp only [hmem]
  constructor
  · rintro ⟨hdistinct, hall⟩
    exact ⟨hfits, hdistinct, fun f num hf => (hall num ⟨f, hf⟩).1,
      fun f num hf => (hall num ⟨f, hf⟩).2⟩
  · intro h
    refine ⟨h.distinct, ?_⟩
    rintro num ⟨f, hf⟩
    exact ⟨h.there f num hf, h.free f num hf⟩

/-- **When shifting archives is safe.**  Whatever regular files the directory of a log holds,
    `RollArchives` meets no exception, names only archives of the log that are there, and overwrites
    none, if and only if the path has a directory, the file name is a regular expression and the
    directory is `Shiftable`. -/
theorem shifts_iff (plat : Platform) (lf : LogFile) (disk : Disk) (jobs : List Job)
    (hregular : RegularFiles plat lf disk) :
    Safely (handle plat {}) (ShiftsArchives plat lf) (rollArchives lf) (disk, jobs) ↔
      parentPath lf.path ≠ [] ∧ ∃ sm,
        archiveRegex plat (filename lf.path) (archiveExtension lf.compress) = some sm ∧
        Shiftable plat lf disk sm := by
  have hlooks : ∀ ⦃ρ : Type⦄ (op : LogFileCall ρ) (s : Disk × List Job), Looks op →
      ShiftsArchives plat lf op s := by
    intro ρ op s hop
    cases op <;> trivial
  have hget : exec (handle plat {}) (getArchives lf) (disk, jobs) = _ := exec_getArchives
  unfold rollArchives
  rw [safely_bind, safely_iff_of_makesOnly _ hlooks (makesOnly_getArchives lf), hget]
  cases harchives : lf.getArchives plat {} disk with
  | none =>
    refine iff_of_false (fun h => by simp at h) ?_
    rintro ⟨hparent, sm, hsm, hshift⟩
    have hsome : lf.getArchives plat {} disk = some _ :=
      LogFile.getArchives_eq_some_iff.mpr ⟨⟨hparent, rfl⟩, sm, hsm, hshift.fits, rfl⟩
    rw [harchives] at hsome
    cases hsome
  | some nums =>
    obtain ⟨⟨hparent, -⟩, sm, hsm, hfits, hnums⟩ := LogFile.getArchives_eq_some_iff.mp harchives
    have hslots := safely_moveArchives_iff nums jobs hregular
    have hshift := shifts_found_iff hfits
    rw [← hnums] at hshift
    constructor
    · rintro ⟨-, hmoves⟩
      have hmoves := hmoves _ _ rfl
      exact ⟨hparent, sm, hsm, hshift.mp (hslots.mp hmoves)⟩
    · rintro ⟨-, sm', hsm', hshift'⟩
      obtain rfl : sm = sm' := Option.some.inj (hsm.symm.trans hsm')
      refine ⟨rfl, ?_⟩
      intro archives s' heq
      obtain ⟨hfound, rfl⟩ := Prod.mk.inj heq
      obtain rfl := Option.some.inj hfound
      exact hslots.mpr (hshift.mpr hshift')

/-- If the pattern takes the archives of the log for such, and nothing else, they can be shifted. -/
theorem shiftable_of_canonical {sm : Str → Option Str}
    (hown : RecognizesOwn plat lf.path lf.compress sm)
    (hcanonical : CanonicalArchives plat lf.path lf.compress sm disk) :
    Shiftable plat lf disk sm := by
  have hlisted : ∀ f num, FoundAs plat lf disk sm f num →
      f = archiveName lf.path lf.compress num ∧ num + 1 < 2 ^ 64 := by
    rintro f num ⟨hf, hnum⟩
    obtain ⟨digits, hdigits, hread⟩ := Option.bind_eq_some_iff.mp hnum
    obtain ⟨num', rfl, hlt⟩ :=
      hcanonical f digits (Option.isSome_iff_exists.mpr (FileStore.mem_listing_iff.mp hf)) hdigits
    rw [hown.archive, Option.some.injEq] at hdigits
    rw [← hdigits, stoull_decimal (by omega), Option.some.injEq] at hread
    rw [← hread]
    exact ⟨rfl, hlt⟩
  have hfound : ∀ num, num ∈ archiveSlots plat lf disk →
      ∃ g, FoundAs plat lf disk sm g num := by
    intro num hnum
    obtain ⟨num', hname, hlt⟩ := hcanonical _ _ hnum (hown.archive num)
    obtain rfl := archiveName_injective hname
    refine ⟨_, FileStore.mem_listing_iff.mpr (Option.isSome_iff_exists.mp hnum), ?_⟩
    rw [hown.archive, Option.bind_some, stoull_decimal (by omega)]
  refine ⟨?_, ?_, ?_, ?_⟩
  · intro f hf digits hdigits
    obtain ⟨num, rfl, hlt⟩ :=
      hcanonical f digits (Option.isSome_iff_exists.mpr (FileStore.mem_listing_iff.mp hf)) hdigits
    rw [hown.archive, Option.some.injEq] at hdigits
    rw [← hdigits, stoull_decimal (by omega)]
    rfl
  · intro f g num hf hg
    rw [(hlisted f num hf).1, (hlisted g num hg).1]
  · intro f num hf
    refine Or.inl (Option.isSome_iff_exists.mpr ?_)
    have hmem := FileStore.mem_listing_iff.mp hf.1
    rwa [(hlisted f num hf).1] at hmem
  · intro f num hf hkeep hnext
    have hlt := (hlisted f num hf).2
    rw [Nat.mod_eq_of_lt hlt] at hnext
    exact ⟨hlt, hfound _ hnext⟩

/-- A log file that keeps ten archives. -/
def tenArchives : LogFile := .of plainPlatform (str "/log/app") { keep := 10 } 0

/-- A directory with two archives of the log, and one of another. -/
def threeArchives : Disk :=
  ((emptyDisk.create [str "log", str "app.0.bz2"] ⟨[], 0⟩).create
    [str "log", str "app.1.bz2"] ⟨[], 0⟩).create [str "log", str "other.0.bz2"] ⟨[], 0⟩

/-- A file whose name is that of an archive, with leading zeros. -/
def paddedArchive : Disk := emptyDisk.create [str "log", str "app.007.bz2"] ⟨[], 0⟩

/-- Where all names have two components, nothing is below the files. -/
theorem regularFiles_of_length {lf : LogFile} {disk : Disk}
    (hlf : (directoryOf plainPlatform lf.path).length = 1)
    (hdisk : ∀ k ∈ disk.names.keys, k.length = 2) : RegularFiles plainPlatform lf disk := by
  rintro f ⟨k, hk, hpre, hne⟩
  refine hne (hpre.eq_of_length ?_)
  rw [hdisk k hk, List.length_append, hlf]
  rfl

/-- Two archives of the log are shifted. -/
theorem shifts_iff_two :
    Safely (handle plainPlatform {}) (ShiftsArchives plainPlatform tenArchives)
      (rollArchives tenArchives) (threeArchives, []) := by
  have hregular : RegularFiles plainPlatform tenArchives threeArchives :=
    regularFiles_of_length (by decide) (by decide)
  refine (shifts_iff plainPlatform tenArchives threeArchives [] hregular).mpr ⟨by decide, ?_⟩
  have hplain : ∃ sm, RecognizesOwn plainPlatform tenArchives.path tenArchives.compress sm :=
    recognizesOwn_of_plain plainPlatform tenArchives.compress (by decide)
  obtain ⟨sm, hown⟩ := hplain
  refine ⟨sm, hown.regex, shiftable_of_canonical hown ?_⟩
  intro f digits hf hdigits
  have hlisting : threeArchives.listing (directoryOf plainPlatform tenArchives.path) =
      [str "other.0.bz2", str "app.1.bz2", str "app.0.bz2"] := by decide
  have hmem := FileStore.mem_listing_iff.mpr (Option.isSome_iff_exists.mp hf)
  have hpre := prefix_of_archiveRegex (by decide) (by decide) hown.regex hdigits
  rw [hlisting] at hmem
  simp only [List.mem_cons, List.not_mem_nil, or_false] at hmem
  rcases hmem with rfl | rfl | rfl
  · exact absurd hpre (by decide)
  · exact ⟨1, by decide, by norm_num⟩
  · exact ⟨0, by decide, by norm_num⟩

/-- `RollArchives` throws: it renames `app.7.bz2`, but the file it has found is `app.007.bz2`. -/
theorem shift_renames_missing :
    RegularFiles plainPlatform tenArchives paddedArchive ∧
    (exec (handle plainPlatform {}) (rollArchives tenArchives) (paddedArchive, [])).1 = none ∧
    ¬ Safely (handle plainPlatform {}) (ShiftsArchives plainPlatform tenArchives)
      (rollArchives tenArchives) (paddedArchive, []) := by
  have hthrows :
      (exec (handle plainPlatform {}) (rollArchives tenArchives) (paddedArchive, [])).1 = none := by
    decide
  refine ⟨regularFiles_of_length (by decide) (by decide), hthrows, ?_⟩
  intro hsafely
  obtain ⟨a, s', hexec⟩ := exec_of_safely _ hsafely
  rw [hexec] at hthrows
  cases hthrows

end LogFileProgram

end Mclog
