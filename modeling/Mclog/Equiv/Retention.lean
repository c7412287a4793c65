import Mclog.Equiv.CompletedRoll
import Mclog.Equiv.LogFile

/-!
# How many archives there are

The setting `keep` is the number of archives to keep, and a roll makes room for one more by moving
the archives up and removing those that would get a number from `keep` on.  It sees those with the
extension of the current setting only, and it always makes one.  `retention_iff` says after which
rolls no more than `keep` are left; it is enough that they find all archives (`retains_of_findsAll`).
-/

namespace Mclog

open General

namespace LogFile

/-! ### Archives -/

/-- The name of an archive: `<file name>.<number>.<ext>`, with the extension of either compressor. -/
def IsArchive (path f : Str) : Prop :=
  filename path <+: f ∧ ∃ ext ∈ sg_compressionExt.map Prod.snd,
    (archiveDigits ext (f.drop (filename path).length)).isSome

instance (path f : Str) : Decidable (IsArchive path f) :=
  inferInstanceAs (Decidable (_ ∧ _))

/-- The archives of a path that are in its directory. -/
def archives (plat : Platform) (path : Str) (disk : Disk) : Finset Str :=
  ((disk.entries (directoryOf plat path)).filter fun f => IsArchive path f).toFinset

theorem mem_archives_iff {plat : Platform} {path f : Str} {disk : Disk} :
    f ∈ archives plat path disk ↔
      disk.Present (directoryOf plat path ++ [f]) ∧ IsArchive path f := by
  unfold archives
  rw [List.mem_toFinset, List.mem_filter, FileStore.mem_entries_iff, decide_eq_true_eq]

theorem isArchive_archiveName (path compress : Str) (num : Nat) :
    IsArchive path (archiveName path compress num) := by
  refine ⟨prefix_archiveName path compress num, archiveExtension compress, ?_, ?_⟩
  · rcases archiveExtension_eq compress with h | h <;> rw [h] <;> decide
  · unfold archiveName
    rw [List.append_assoc, List.cons_append, List.drop_left]
    have := archiveDigits_archive (archiveExtension compress) num
    rw [List.cons_append] at this
    rw [this]
    rfl

theorem IsArchive.ne_filename {path f : Str} (h : IsArchive path f) : f ≠ filename path := by
  rintro rfl
  obtain ⟨-, ext, -, hdigits⟩ := h
  rw [List.drop_length] at hdigits
  cases hdigits

theorem IsArchive.ne_rolledName {path f : Str} (h : IsArchive path f) : f ≠ rolledName path := by
  rintro rfl
  obtain ⟨-, ext, hext, hdigits⟩ := h
  unfold rolledName at hdigits
  rw [List.drop_left] at hdigits
  fin_cases hext <;> cases hdigits

/-- Archives that are there before and after are the same. -/
theorem archives_congr {plat : Platform} {path : Str} {disk disk' : Disk}
    (h : ∀ f, IsArchive path f →
      (disk'.Present (directoryOf plat path ++ [f]) ↔
        disk.Present (directoryOf plat path ++ [f]))) :
    archives plat path disk' = archives plat path disk := by
  ext f
  rw [mem_archives_iff, mem_archives_iff]
  constructor
  · rintro ⟨hpresent, harchive⟩
    exact ⟨(h f harchive).mp hpresent, harchive⟩
  · rintro ⟨hpresent, harchive⟩
    exact ⟨(h f harchive).mpr hpresent, harchive⟩

/-! ### What is left by a roll -/

/-- The archives that a roll leaves: those it does not find, and those that have moved up. -/
def surviving (plat : Platform) (lf : LogFile) (disk : Disk) : Finset Str :=
  archives plat lf.path disk \ (lf.found plat disk).image (archiveName lf.path lf.compress) ∪
    ((lf.found plat disk).filter fun num => num + 1 < lf.keep.toNat).image fun num =>
      archiveName lf.path lf.compress (num + 1)

/-- What the file names are decides what survives. -/
theorem surviving_congr (plat : Platform) {lf lf' : LogFile} {disk disk' : Disk}
    (hlf : lf' = { lf with ofs := lf'.ofs }) (hnames : disk'.names = disk.names) :
    surviving plat lf' disk' = surviving plat lf disk := by
  rw [hlf]
  unfold surviving found archives FileStore.entries FileStore.listing
  rw [hnames]

/-- If a roll finds all archives there are, it leaves less than `keep`, if anything is kept. -/
theorem card_surviving_lt {plat : Platform} {lf : LogFile} {disk : Disk}
    (hfound : ∀ f ∈ archives plat lf.path disk,
      ∃ num ∈ lf.found plat disk, f = archiveName lf.path lf.compress num)
    (hkeep : 1 ≤ lf.keep.toNat) :
    ((surviving plat lf disk).erase (archiveName lf.path lf.compress 0)).card <
      lf.keep.toNat := by
  have hsub : surviving plat lf disk ⊆ (Finset.range (lf.keep.toNat - 1)).image fun num =>
      archiveName lf.path lf.compress (num + 1) := by
    intro f hf
    rcases Finset.mem_union.mp hf with hold | hmoved
    · obtain ⟨hold, hnot⟩ := Finset.mem_sdiff.mp hold
      obtain ⟨num, hnum, rfl⟩ := hfound f hold
      exact absurd (Finset.mem_image_of_mem _ hnum) hnot
    · obtain ⟨num, hnum, rfl⟩ := Finset.mem_image.mp hmoved
      have hlt := (Finset.mem_filter.mp hnum).2
      refine Finset.mem_image.mpr ⟨num, ?_, rfl⟩
      rw [Finset.mem_range]
      omega
  calc ((surviving plat lf disk).erase _).card
      ≤ (surviving plat lf disk).card := Finset.card_erase_le
    _ ≤ _ := Finset.card_le_card hsub
    _ ≤ (Finset.range (lf.keep.toNat - 1)).card := Finset.card_image_le
    _ < lf.keep.toNat := by
      rw [Finset.card_range]
      omega

section

variable {plat : Platform} {env : Env} {lf lf' : LogFile} {w w' : World}

/-- After a roll there are the archives that survive, the first one left out. -/
theorem RollDone.archives (h : RollDone plat env lf w lf' w') :
    (archives plat lf.path w'.disk).erase (archiveName lf.path lf.compress 0) =
      (surviving plat lf w.disk).erase (archiveName lf.path lf.compress 0) := by
  ext f
  rw [Finset.mem_erase, Finset.mem_erase, and_congr_right_iff]
  intro hzero
  unfold surviving
  rw [mem_archives_iff, Finset.mem_union, Finset.mem_sdiff, mem_archives_iff, Finset.mem_image,
    Finset.mem_image]
  constructor
  · rintro ⟨hpresent, harchive⟩
    rcases (h.entries f harchive.ne_filename harchive.ne_rolledName hzero).mp hpresent with
      ⟨num, hnum, hlt, rfl⟩ | ⟨hold, hnot⟩
    · exact Or.inr ⟨num, Finset.mem_filter.mpr ⟨hnum, hlt⟩, rfl⟩
    · refine Or.inl ⟨⟨hold, harchive⟩, ?_⟩
      rintro ⟨num, hnum, rfl⟩
      exact hnot num hnum rfl
  · intro hf
    have harchive : IsArchive lf.path f := by
      rcases hf with ⟨⟨-, harchive⟩, -⟩ | ⟨num, -, rfl⟩
      · exact harchive
      · exact isArchive_archiveName _ _ _
    refine ⟨(h.entries f harchive.ne_filename harchive.ne_rolledName hzero).mpr ?_, harchive⟩
    rcases hf with ⟨⟨hold, -⟩, hnot⟩ | ⟨num, hnum, rfl⟩
    · exact Or.inr ⟨hold, fun num hnum heq => hnot ⟨num, hnum, heq.symm⟩⟩
    · obtain ⟨hnum, hlt⟩ := Finset.mem_filter.mp hnum
      exact Or.inl ⟨num, hnum, hlt, rfl⟩

/-! ### What changes no archives -/

/-- Nothing but the live file has changed in the directory, no roll was made and no compressor
    started. -/
structure Quiet (plat : Platform) (path : Str) (w w' : World) : Prop where
  jobs : w'.jobs = w.jobs
  rolls : w'.rolls = w.rolls
  entries : ∀ f, f ≠ filename path →
    (w'.disk.Present (directoryOf plat path ++ [f]) ↔
      w.disk.Present (directoryOf plat path ++ [f]))

theorem Quiet.refl (plat : Platform) (path : Str) (w : World) : Quiet plat path w w :=
  ⟨rfl, rfl, fun _ _ => Iff.rfl⟩

theorem Quiet.trans {path : Str} {w'' : World} (h : Quiet plat path w w')
    (h' : Quiet plat path w' w'') : Quiet plat path w w'' :=
  ⟨h'.jobs.trans h.jobs, h'.rolls.trans h.rolls,
    fun f hf => (h'.entries f hf).trans (h.entries f hf)⟩

theorem Quiet.archives_eq {path : Str} (h : Quiet plat path w w') :
    archives plat path w'.disk = archives plat path w.disk :=
  archives_congr fun f hf => h.entries f hf.ne_filename

/-- Opening the file creates it at most. -/
theorem openFile_quiet {rc : Bool} (h : lf.openFile plat env w = (some rc, lf', w')) :
    lf'.path = lf.path ∧ w'.rolls = w.rolls ∧
      (Ordinary (filename lf.path) → Quiet plat lf.path w w') := by
  unfold openFile at h
  split at h
  · simp at h
  · simp only [Prod.mk.injEq] at h
    obtain ⟨-, rfl, rfl⟩ := h
    exact ⟨rfl, rfl, fun _ => .refl _ _ _⟩
  · dsimp only at h
    split_ifs at h with hfail
    · simp only [Prod.mk.injEq] at h
      obtain ⟨-, rfl, rfl⟩ := h
      exact ⟨rfl, rfl, fun _ => .refl _ _ _⟩
    · split at h
      · simp only [Prod.mk.injEq] at h
        obtain ⟨-, rfl, rfl⟩ := h
        exact ⟨rfl, rfl, fun _ => .refl _ _ _⟩
      · simp only [Prod.mk.injEq] at h
        obtain ⟨-, rfl, rfl⟩ := h
        refine ⟨rfl, rfl, fun hordinary => ⟨rfl, rfl, ?_⟩⟩
        intro f hf
        show (w.disk.create (key plat lf.path) _).Present _ ↔ _
        rw [FileStore.present_create_iff, key_path plat hordinary, entry_prefix_iff,
          or_iff_right hf]

theorem writeRecord_quiet (plat : Platform) {msg : Message} {rc : Bool}
    (h : lf.writeRecord plat env w msg = (rc, lf', w')) :
    lf'.path = lf.path ∧ Quiet plat lf.path w w' := by
  unfold writeRecord at h
  split at h
  · simp only [Prod.mk.injEq] at h
    obtain ⟨-, rfl, rfl⟩ := h
    exact ⟨rfl, .refl _ _ _⟩
  · dsimp only at h
    split_ifs at h
    all_goals
      simp only [Prod.mk.injEq] at h
      obtain ⟨-, rfl, rfl⟩ := h
      exact ⟨rfl, rfl, rfl, fun _ _ => Iff.rfl⟩

theorem close_quiet (plat : Platform) (env : Env) (lf : LogFile) (w : World) :
    Quiet plat lf.path w (lf.close env w).2 := by
  obtain ⟨-, hnames, hjobs, hrolls⟩ := close_spec env lf w
  refine ⟨hjobs, hrolls, ?_⟩
  intro f _
  unfold FileStore.Present
  rw [hnames]

end

/-! ### Rolls with their compressors -/

/-- The event makes the log file roll. -/
def LifetimeRolls (plat : Platform) (s : LogFile × World) : LifetimeEvent → Prop
  | .call e => Rolls plat s e
  | .restart _ _ _ => False

instance (plat : Platform) (s : LogFile × World) : ∀ e, Decidable (LifetimeRolls plat s e)
  | .call _ => inferInstanceAs (Decidable (Rolls plat s _))
  | .restart _ _ _ => instDecidableFalse

/-- The `i`-th compressor would give up: it does not find its file, or there is an archive already. -/
def GivesUp (plat : Platform) (w : World) (i : Nat) : Prop :=
  ∃ job ∈ w.jobs[i]?,
    (job.phase = .started ∧ w.disk.find (resolve plat.cwd job.file) = none) ∨
      (job.phase ≠ .started ∧ job.phase ≠ .created ∧
        w.disk.Present (resolve plat.cwd (job.file ++ dot :: archiveExtension job.compress)))

instance (plat : Platform) (w : World) (i : Nat) : Decidable (GivesUp plat w i) :=
  inferInstanceAs (Decidable (∃ job ∈ w.jobs[i]?, _))

/-- All system calls succeed. -/
def LifetimeSucceeds : LifetimeEvent → Prop
  | .call e => EventSucceeds e
  | .restart _ _ _ => True

/-- A compressor that takes a step does not give up. -/
def CompressorWorks (plat : Platform) (w : World) : LifetimeEvent → Prop
  | .call (.compressor i) => ¬ GivesUp plat w i
  | _ => True

instance (plat : Platform) (w : World) : ∀ e, Decidable (CompressorWorks plat w e)
  | .call (.compressor _) => instDecidableNot
  | .call (.open _) => instDecidableTrue
  | .call (.process _ _) => instDecidableTrue
  | .call (.close _) => instDecidableTrue
  | .restart _ _ _ => instDecidableTrue

/-- All file operations succeed, those of the compressors too, and no compressor is running when the
    log file rolls. -/
def Conforms (plat : Platform) (s : LogFile × World) (e : LifetimeEvent) : Prop :=
  LifetimeSucceeds e ∧ (LifetimeRolls plat s e → s.2.jobs = []) ∧ CompressorWorks plat s.2 e

/-- At a roll, less than `keep` archives survive. -/
def Fits (plat : Platform) (s : LogFile × World) (e : LifetimeEvent) : Prop :=
  LifetimeRolls plat s e →
    ((surviving plat s.1 s.2.disk).erase (archiveName s.1.path s.1.compress 0)).card <
      s.1.keep.toNat

instance (plat : Platform) (s : LogFile × World) (e : LifetimeEvent) : Decidable (Fits plat s e) :=
  inferInstanceAs (Decidable (_ → _))

/-- What there is after a roll with the setting `compress`: the archives `S`, and the first one as
    soon as the compressor has created it. -/
structure Settling (plat : Platform) (path compress : Str) (S : Finset Str)
    (s : LogFile × World) : Prop where
  ordinary : Ordinary (filename path)
  path_eq : s.1.path = path
  phase : (s.2.jobs = [] ∧
      archives plat path s.2.disk = insert (archiveName path compress 0) S) ∨
    ∃ job, s.2.jobs = [job] ∧ job.file = rolledString path ∧ job.compress = compress ∧
      archives plat path s.2.disk =
        if job.phase = .created then insert (archiveName path compress 0) S else S

/-- A set with an element, which it may have had already. -/
theorem card_insert_eq (f : Str) (S : Finset Str) : (insert f S).card = (S.erase f).card + 1 := by
  rw [← Finset.card_insert_of_notMem (Finset.notMem_erase f S)]
  congr 1
  ext g
  by_cases hg : g = f <;> simp [hg]

section

variable {plat : Platform} {path compress : Str} {S : Finset Str} {s s' : LogFile × World}

theorem Settling.quiet (h : Settling plat path compress S s) (hpath : s'.1.path = path)
    (hquiet : Quiet plat path s.2 s'.2) : Settling plat path compress S s' := by
  refine ⟨h.ordinary, hpath, ?_⟩
  rw [hquiet.jobs, hquiet.archives_eq]
  exact h.phase

/-- Whatever the compressor has done, no more archives are there than at its end. -/
theorem Settling.card_le (h : Settling plat path compress S s) :
    (archives plat path s.2.disk).card ≤ (S.erase (archiveName path compress 0)).card + 1 := by
  have hsub : archives plat path s.2.disk ⊆ insert (archiveName path compress 0) S := by
    rcases h.phase with ⟨-, heq⟩ | ⟨job, -, -, -, heq⟩
    · rw [heq]
    · rw [heq]
      split_ifs
      · exact Finset.Subset.refl _
      · exact Finset.subset_insert _ _
  calc (archives plat path s.2.disk).card
      ≤ (insert (archiveName path compress 0) S).card := Finset.card_le_card hsub
    _ = (S.erase (archiveName path compress 0)).card + 1 := card_insert_eq _ _

/-- When no compressor is running, the first archive is there, too. -/
theorem Settling.card_eq (h : Settling plat path compress S s) (hidle : s.2.jobs = []) :
    (archives plat path s.2.disk).card = (S.erase (archiveName path compress 0)).card + 1 := by
  rcases h.phase with ⟨-, heq⟩ | ⟨job, hjob, -⟩
  · rw [heq, card_insert_eq]
  · rw [hidle] at hjob
    cases hjob

/-- A compressor that does not give up creates the first archive. -/
theorem Settling.compressor (h : Settling plat path compress S s) (i : Nat)
    (hworks : ¬ GivesUp plat s.2 i) :
    Settling plat path compress S (s.1, s.2.compressorStep plat i) := by
  obtain ⟨lf, w⟩ := s
  unfold World.compressorStep
  cases hjob : w.jobs[i]? with
  | none => exact h
  | some job =>
    rcases h.phase with ⟨hidle, -⟩ | ⟨job', hjobs, hfile, hcompress, harchives⟩
    · simp only at hidle
      rw [hidle] at hjob
      cases hjob
    simp only at hjobs harchives
    obtain ⟨rfl, rfl⟩ : i = 0 ∧ job = job' := by
      rw [hjobs, List.getElem?_singleton] at hjob
      split_ifs at hjob with hi
      exact ⟨hi, (Option.some.inj hjob).symm⟩
    have hsrc : resolve plat.cwd job.file = rolledKey plat path := by
      rw [hfile]
      exact key_rolledString plat h.ordinary
    have hdst : resolve plat.cwd (job.file ++ dot :: archiveExtension job.compress) =
        archiveKey plat path compress 0 := by
      rw [hfile, hcompress, rolledString_append_extension]
      exact key_archiveString plat _ 0 compress
    cases hphase : job.phase with
    | started =>
      cases hfind : w.disk.find (resolve plat.cwd job.file) with
      | none => exact absurd ⟨job, hjob, Or.inl ⟨hphase, hfind⟩⟩ hworks
      | some node =>
        simp only [hphase, hfind]
        refine ⟨h.ordinary, h.path_eq, Or.inr ⟨{ job with phase := .opened node }, ?_, hfile,
          hcompress, ?_⟩⟩
        · simp [hjobs]
        · simpa [hphase] using harchives
    | opened node =>
      have hpresent :
          ¬ w.disk.Present (resolve plat.cwd (job.file ++ dot :: archiveExtension job.compress)) :=
        fun hpresent => hworks ⟨job, hjob, Or.inr ⟨by simp [hphase], by simp [hphase], hpresent⟩⟩
      simp only [hphase, if_neg hpresent]
      refine ⟨h.ordinary, h.path_eq, Or.inr ⟨{ job with phase := .created }, ?_, hfile, hcompress,
        ?_⟩⟩
      · simp [hjobs]
      · -- The first archive is new, and all else is as it was.
        have hold : archives plat path w.disk = S := by simpa [hphase] using harchives
        rw [if_pos rfl, ← hold, hdst]
        ext f
        rw [Finset.mem_insert, mem_archives_iff, mem_archives_iff, FileStore.present_create_iff]
        unfold archiveKey
        rw [entry_prefix_iff]
        constructor
        · rintro ⟨rfl | hpresent, harchive⟩
          · exact Or.inl rfl
          · exact Or.inr ⟨hpresent, harchive⟩
        · rintro (rfl | ⟨hpresent, harchive⟩)
          · exact ⟨Or.inl rfl, isArchive_archiveName _ _ _⟩
          · exact ⟨Or.inr hpresent, harchive⟩
    | created =>
      simp only [hphase]
      refine ⟨h.ordinary, h.path_eq, Or.inl ⟨by simp [hjobs], ?_⟩⟩
      -- Only the rolled file is removed.
      have hold : archives plat path w.disk = insert (archiveName path compress 0) S := by
        simpa [hphase] using harchives
      rw [← hold]
      refine archives_congr fun f hf => ?_
      show (w.disk.remove (resolve plat.cwd job.file)).Present _ ↔ _
      rw [hsrc]
      exact FileStore.present_remove_of_ne hf.ne_rolledName

/-- What a call does to the archives: nothing, or it is a roll. -/
theorem machine_cases {e : LogFileEvent} {out : List Str}
    (hnot : ∀ i, e ≠ .compressor i) (hstep : machine plat s e = some (s', out)) :
    s'.1.path = s.1.path ∧
      ((¬ Rolls plat s e ∧ s'.2.rolls = s.2.rolls ∧
          (Ordinary (filename s.1.path) → Quiet plat s.1.path s.2 s'.2)) ∨
        (Rolls plat s e ∧ ∃ env lf w lf₁ w₁, lf = { s.1 with ofs := lf.ofs } ∧
          w.disk.names = s.2.disk.names ∧ w.jobs = s.2.jobs ∧ w.rolls = s.2.rolls ∧
          (EventSucceeds e → env.Succeeds) ∧
          RollDone plat env lf w lf₁ w₁ ∧ Quiet plat s.1.path w₁ s'.2)) := by
  obtain ⟨lf, w⟩ := s
  cases e with
  | compressor i => exact absurd rfl (hnot i)
  | close env =>
    obtain ⟨rfl, -⟩ := Prod.mk.inj (Option.some.inj hstep)
    obtain ⟨hlf, -⟩ := close_spec env lf w
    have hpath : (lf.close env w).1.path = lf.path := by rw [hlf]
    have hquiet := close_quiet plat env lf w
    exact ⟨hpath, Or.inl ⟨id, hquiet.rolls, fun _ => hquiet⟩⟩
  | «open» env =>
    unfold machine at hstep
    simp only at hstep
    split at hstep
    swap
    · cases hstep
    rename_i rc t hopen
    obtain ⟨rfl, -⟩ := Prod.mk.inj (Option.some.inj hstep)
    rcases openNoLock_cases hopen with ⟨hofs, -, hlf, hw⟩ | ⟨hofs, hneed, hfile⟩ |
      ⟨hofs, hneed, lf₁, w₁, hdone, hfile⟩
    · -- The file is open already.
      have hnone : ¬ Rolls plat (lf, w) (.open env) := by
        rintro ⟨hnone, -⟩
        simp only at hnone
        rw [hnone] at hofs
        cases hofs
      have hquiet : Quiet plat lf.path w t.2 := by
        rw [hw]
        exact .refl _ _ _
      exact ⟨congrArg LogFile.path hlf, Or.inl ⟨hnone, hquiet.rolls, fun _ => hquiet⟩⟩
    · -- It is opened as it is.
      have hnone : ¬ Rolls plat (lf, w) (.open env) := by
        rintro ⟨-, hneed'⟩
        simp only at hneed'
        rw [hneed] at hneed'
        cases hneed'
      obtain ⟨hpath, hrolls, hquiet⟩ := openFile_quiet hfile
      exact ⟨hpath, Or.inl ⟨hnone, hrolls, hquiet⟩⟩
    · -- It is rolled before it is opened.
      have hpath₁ := hdone.path_eq
      obtain ⟨hpath, -, hquiet⟩ := openFile_quiet hfile
      rw [hpath₁] at hpath hquiet
      exact ⟨hpath, Or.inr ⟨⟨hofs, hneed⟩, env, lf, w, lf₁, w₁, rfl, rfl, rfl, rfl, id, hdone,
        hquiet hdone.ordinary⟩⟩
  | process env msg =>
    unfold machine at hstep
    simp only at hstep
    split at hstep
    swap
    · cases hstep
    rename_i rc t hprocess
    obtain ⟨rfl, -⟩ := Prod.mk.inj (Option.some.inj hstep)
    rcases process_cases hprocess with ⟨hofs, -, hlf, hw⟩ | ⟨hofs, hcriteria, hwrite⟩ |
      ⟨hofs, hcriteria, lf₁, w₁, opened, lf₂, w₂, hdone, hfile, hwrite⟩
    · -- No file is open, and nothing is written.
      have hnone : ¬ Rolls plat (lf, w) (.process env msg) := by
        rintro ⟨hsome, -⟩
        simp only at hsome
        rw [hofs] at hsome
        cases hsome
      have hquiet : Quiet plat lf.path w t.2 := by
        rw [hw]
        exact .refl _ _ _
      exact ⟨congrArg LogFile.path hlf, Or.inl ⟨hnone, hquiet.rolls, fun _ => hquiet⟩⟩
    · -- The criteria are not met: the record is appended.
      have hnone : ¬ Rolls plat (lf, w) (.process env msg) := by
        rintro ⟨-, hcriteria'⟩
        simp only at hcriteria'
        rw [hcriteria] at hcriteria'
        cases hcriteria'
      obtain ⟨hpath, hquiet⟩ := writeRecord_quiet plat hwrite
      exact ⟨hpath, Or.inl ⟨hnone, hquiet.rolls, fun _ => hquiet⟩⟩
    · -- They are met: the roll is of the file as `close` has left it.
      obtain ⟨hlf, hnames, hjobs, hrolls⟩ := close_spec env lf w
      have hclosed : (lf.close env w).1.path = lf.path := by rw [hlf]
      have hordinary := hdone.ordinary
      have hpath₁ := hdone.path_eq.trans hclosed
      rw [hclosed] at hordinary
      obtain ⟨hpath₂, -, hquiet₂⟩ := openFile_quiet hfile
      obtain ⟨hpath, hquiet⟩ := writeRecord_quiet plat hwrite
      rw [hpath₂, hpath₁] at hpath hquiet
      rw [hpath₁] at hquiet₂
      refine ⟨hpath, Or.inr ⟨⟨hofs, hcriteria⟩, env, _, _, lf₁, w₁, ?_, hnames, hjobs, hrolls, id,
        hdone, (hquiet₂ hordinary).trans hquiet⟩⟩
      rw [hlf]

/-- A call that is no roll is a step of a compressor, or leaves the archives as they are. -/
theorem quiet_of_not_rolls {e : LogFileEvent} {out : List Str} (hrolls : ¬ Rolls plat s e)
    (hstep : machine plat s e = some (s', out)) :
    (∃ i, e = .compressor i ∧ s' = (s.1, s.2.compressorStep plat i)) ∨
      s'.1.path = s.1.path ∧ s'.2.rolls = s.2.rolls ∧
        (Ordinary (filename s.1.path) → Quiet plat s.1.path s.2 s'.2) := by
  by_cases hcompressor : ∃ i, e = .compressor i
  · obtain ⟨i, rfl⟩ := hcompressor
    exact Or.inl ⟨i, rfl, (Prod.mk.inj (Option.some.inj hstep)).1.symm⟩
  · obtain ⟨hpath, ⟨-, hsame, hquiet⟩ | ⟨hrolls', -⟩⟩ :=
      machine_cases (fun i hi => hcompressor ⟨i, hi⟩) hstep
    · exact Or.inr ⟨hpath, hsame, hquiet⟩
    · exact absurd hrolls' hrolls

variable {e : LifetimeEvent} {out : List UInt32}

theorem lifetimes_call_eq_some {e : LogFileEvent} (h : lifetimes plat s (.call e) = some (s', out)) :
    ∃ written, machine plat s e = some (s', written) ∧
      out = (s'.2.rolls.drop s.2.rolls.length).map fun _ => s.1.keep := by
  obtain ⟨q, hq, heq⟩ := Option.map_eq_some_iff.mp h
  obtain ⟨rfl, rfl⟩ := Prod.mk.inj heq
  exact ⟨q.2, hq, rfl⟩

theorem rolls_compressorStep (w : World) (i : Nat) : (w.compressorStep plat i).rolls = w.rolls := by
  unfold World.compressorStep
  split
  · rfl
  · dsimp only
    split
    · split <;> rfl
    · split_ifs <;> rfl
    · rfl

/-- A step that is no roll emits nothing. -/
theorem eq_nil_of_not_rolls (hrolls : ¬ LifetimeRolls plat s e)
    (hstep : lifetimes plat s e = some (s', out)) : out = [] := by
  cases e with
  | restart env cfg t => exact (Prod.mk.inj (Option.some.inj hstep)).2.symm
  | call e =>
    obtain ⟨written, hmachine, rfl⟩ := lifetimes_call_eq_some hstep
    have hsame : s'.2.rolls = s.2.rolls := by
      obtain ⟨i, -, rfl⟩ | ⟨-, hsame, -⟩ := quiet_of_not_rolls hrolls hmachine
      · exact rolls_compressorStep s.2 i
      · exact hsame
    rw [hsame, List.drop_length, List.map_nil]

/-- **A step that is no roll** lets the archives settle. -/
theorem Settling.step (h : Settling plat path compress S s) (hconforms : Conforms plat s e)
    (hrolls : ¬ LifetimeRolls plat s e) (hstep : lifetimes plat s e = some (s', out)) :
    Settling plat path compress S s' := by
  have hordinary : Ordinary (filename s.1.path) := by
    rw [h.path_eq]
    exact h.ordinary
  cases e with
  | restart env cfg t =>
    obtain ⟨rfl, -⟩ := Prod.mk.inj (Option.some.inj hstep)
    obtain ⟨hlf, -⟩ := close_spec env s.1 s.2
    have hquiet := close_quiet plat env s.1 s.2
    rw [h.path_eq] at hquiet
    refine h.quiet ?_ hquiet
    show (s.1.close env s.2).1.path = path
    rw [hlf]
    exact h.path_eq
  | call e =>
    obtain ⟨written, hmachine, -⟩ := lifetimes_call_eq_some hstep
    obtain ⟨i, rfl, rfl⟩ | ⟨hpath, -, hquiet⟩ := quiet_of_not_rolls hrolls hmachine
    · exact h.compressor i hconforms.2.2
    · have hquiet := hquiet hordinary
      rw [h.path_eq] at hquiet hpath
      exact h.quiet hpath hquiet

/-- **A roll** leaves the archives that survive, and makes one. -/
theorem settling_of_roll
    (hshell : compressorArguments plat (rolledString s.1.path) = [rolledString s.1.path])
    (hconforms : Conforms plat s e) (hrolls : LifetimeRolls plat s e)
    (hstep : lifetimes plat s e = some (s', out)) :
    out = [s.1.keep] ∧ ∃ S, Settling plat s.1.path s.1.compress S s' ∧
      S.erase (archiveName s.1.path s.1.compress 0) =
        (surviving plat s.1 s.2.disk).erase (archiveName s.1.path s.1.compress 0) := by
  cases e with
  | restart env cfg t => exact absurd hrolls id
  | call e =>
    obtain ⟨written, hmachine, rfl⟩ := lifetimes_call_eq_some hstep
    have hnot : ∀ i, e ≠ .compressor i := by
      rintro i rfl
      exact hrolls
    obtain ⟨hsucceeds, hidle, -⟩ := hconforms
    obtain ⟨hpath, ⟨hnone, -⟩ | ⟨-, env, lf, w, lf₁, w₁, hlf, hnames, hjobs, hold, henv, hdone,
      hquiet⟩⟩ := machine_cases hnot hmachine
    · exact absurd hrolls hnone
    obtain ⟨hlfpath, hlfcompress⟩ : lf.path = s.1.path ∧ lf.compress = s.1.compress := by
      rw [hlf]
      exact ⟨rfl, rfl⟩
    -- The roll leaves the archives that survive it, and a compressor that will make one more.
    have hsystem := (henv hsucceeds).fails .system
    have harchives := hdone.archives
    have hordinary := hdone.ordinary
    have hjob := hdone.jobs
    have hrecord := hdone.rolls
    rw [hlfpath] at hordinary
    rw [surviving_congr plat hlf hnames, hlfpath, hlfcompress] at harchives
    rw [hlfpath, hlfcompress, hsystem, hjobs, hidle hrolls, hshell] at hjob
    refine ⟨?_, archives plat s.1.path w₁.disk, ⟨hordinary, hpath, Or.inr ?_⟩, harchives⟩
    · rw [hquiet.rolls, hrecord, hold, List.drop_left]
      rfl
    · refine ⟨_, hquiet.jobs.trans hjob, rfl, rfl, ?_⟩
      rw [hquiet.archives_eq, if_neg (by simp)]

theorem path_lifetimes (hstep : lifetimes plat s e = some (s', out)) : s'.1.path = s.1.path := by
  cases e with
  | restart env cfg t =>
    obtain ⟨rfl, -⟩ := Prod.mk.inj (Option.some.inj hstep)
    obtain ⟨hlf, -⟩ := close_spec env s.1 s.2
    show (s.1.close env s.2).1.path = s.1.path
    rw [hlf]
  | call e =>
    obtain ⟨written, hmachine, -⟩ := lifetimes_call_eq_some hstep
    by_cases hcompressor : ∃ i, e = .compressor i
    · obtain ⟨i, rfl⟩ := hcompressor
      obtain ⟨rfl, -⟩ := Prod.mk.inj (Option.some.inj hmachine)
      rfl
    · exact (machine_cases (fun i hi => hcompressor ⟨i, hi⟩) hmachine).1

end

/-! ### Runs -/

section

variable {plat : Platform} {path compress : Str} {S : Finset Str} {s s' : LogFile × World}
  {kept : List UInt32}

/-- No more archives than the setting `keep` of the last roll. -/
def Retains (plat : Platform) (path : Str) (s : LogFile × World) (kept : List UInt32) : Prop :=
  ∀ keep, kept.getLast? = some keep → (archives plat path s.2.disk).card ≤ keep.toNat

/-- In a run that ends without a compressor running, one that has been started comes to its end
    before the next roll. -/
theorem Settling.exists_idle (events : List LifetimeEvent) (h : Settling plat path compress S s)
    (hmeets : (lifetimes plat).Meets (Conforms plat) s events)
    (hrun : (lifetimes plat).run s events = some (s', kept)) (hidle : s'.2.jobs = []) :
    ∃ before after s₁, events = before ++ after ∧ (lifetimes plat).run s before = some (s₁, []) ∧
      Settling plat path compress S s₁ ∧ s₁.2.jobs = [] := by
  induction events generalizing s kept with
  | nil =>
    obtain ⟨rfl, -⟩ := Prod.mk.inj (Option.some.inj hrun)
    exact ⟨[], [], s, rfl, rfl, h, hidle⟩
  | cons e events ih =>
    by_cases hjobs : s.2.jobs = []
    · exact ⟨[], e :: events, s, rfl, rfl, h, hjobs⟩
    obtain ⟨hconforms, hrest⟩ := hmeets
    obtain ⟨s₁, out, kept', hstep, hrun', rfl⟩ := (lifetimes plat).run_cons_eq_some hrun
    rw [hstep] at hrest
    have hrolls : ¬ LifetimeRolls plat s e := fun hrolls => hjobs (hconforms.2.1 hrolls)
    obtain rfl := eq_nil_of_not_rolls hrolls hstep
    have h₁ := h.step hconforms hrolls hstep
    obtain ⟨before, after, s₂, rfl, hbefore, h₂, hidle₂⟩ := ih h₁ hrest hrun'
    refine ⟨e :: before, after, s₂, rfl, ?_, h₂, hidle₂⟩
    rw [(lifetimes plat).run_cons_of_some hstep, hbefore]
    rfl

/-- If less than `keep` archives survive each roll, there are never more than `keep`. -/
theorem retains_of_fits
    (hshell : compressorArguments plat (rolledString s.1.path) = [rolledString s.1.path])
    (events : List LifetimeEvent) (hmeets : (lifetimes plat).Meets (Conforms plat) s events)
    (hfits : (lifetimes plat).Meets (Fits plat) s events)
    (hrun : (lifetimes plat).run s events = some (s', kept)) : Retains plat s.1.path s' kept := by
  -- Since the last roll, nothing but the archive that it makes has been added.
  let R : List LifetimeEvent → List UInt32 → LogFile × World → Prop := fun _ kept t =>
    t.1.path = s.1.path ∧ ∀ keep, kept.getLast? = some keep → ∃ compress S,
      Settling plat s.1.path compress S t ∧
      (S.erase (archiveName s.1.path compress 0)).card < keep.toNat
  have hstep : ∀ before emitted t e t' out, R before emitted t → Conforms plat t e ∧ Fits plat t e →
      lifetimes plat t e = some (t', out) → R (before ++ [e]) (emitted ++ out) t' := by
    rintro before emitted t e t' out ⟨hpath, hlast⟩ ⟨hconforms, hfit⟩ hstep
    refine ⟨(path_lifetimes hstep).trans hpath, ?_⟩
    intro keep hkeep
    by_cases hrolls : LifetimeRolls plat t e
    · obtain ⟨rfl, S, hsettling, hS⟩ := settling_of_roll (by rw [hpath]; exact hshell) hconforms
        hrolls hstep
      obtain rfl : t.1.keep = keep := by simpa using hkeep
      refine ⟨t.1.compress, S, by rw [← hpath]; exact hsettling, ?_⟩
      rw [← hpath, hS]
      exact hfit hrolls
    · obtain rfl := eq_nil_of_not_rolls hrolls hstep
      rw [List.append_nil] at hkeep
      obtain ⟨compress, S, hsettling, hlt⟩ := hlast keep hkeep
      exact ⟨compress, S, hsettling.step hconforms hrolls hstep, hlt⟩
  obtain ⟨-, hlast⟩ := (lifetimes plat).history_of_run hstep events [] [] s s' kept
    ⟨rfl, fun keep hkeep => by simp at hkeep⟩ (hmeets.and hfits) hrun
  intro keep hkeep
  obtain ⟨compress, S, hsettling, hlt⟩ := hlast keep hkeep
  have := hsettling.card_le
  omega

/-- If there are never more than `keep`, less than `keep` survive each roll. -/
theorem fits_of_retains {path : Str}
    (hshell : compressorArguments plat (rolledString path) = [rolledString path])
    (events : List LifetimeEvent) (hpath : s.1.path = path)
    (hmeets : (lifetimes plat).Meets (Conforms plat) s events)
    (hrun : (lifetimes plat).run s events = some (s', kept)) (hidle : s'.2.jobs = [])
    (hretains : ∀ before after s₁ kept₁, events = before ++ after →
      (lifetimes plat).run s before = some (s₁, kept₁) → Retains plat path s₁ kept₁) :
    (lifetimes plat).Meets (Fits plat) s events := by
  induction events generalizing s kept with
  | nil => trivial
  | cons e events ih =>
    obtain ⟨hconforms, hrest⟩ := hmeets
    obtain ⟨t, out, kept', hstep, hrun', rfl⟩ := (lifetimes plat).run_cons_eq_some hrun
    rw [hstep] at hrest
    refine ⟨?_, ?_⟩
    · -- When its compressor has ended, there are the archives that survive and the new one.
      intro hrolls
      obtain ⟨rfl, S, hsettling, hS⟩ :=
        settling_of_roll (by rw [hpath]; exact hshell) hconforms hrolls hstep
      obtain ⟨before, after, s₁, rfl, hbefore, hsettling₁, hidle₁⟩ :=
        hsettling.exists_idle events hrest hrun' hidle
      have hcard := hretains (e :: before) after s₁ [s.1.keep] rfl (by
        rw [(lifetimes plat).run_cons_of_some hstep, hbefore]
        rfl) s.1.keep rfl
      rw [← hpath, hsettling₁.card_eq hidle₁] at hcard
      rw [← hS]
      omega
    · rw [hstep]
      refine ih ((path_lifetimes hstep).trans hpath) hrest hrun' ?_
      intro before after s₁ kept₁ heq hbefore keep hkeep
      refine hretains (e :: before) after s₁ (out ++ kept₁) (by rw [heq]; rfl) ?_ keep ?_
      · rw [(lifetimes plat).run_cons_of_some hstep, hbefore]
        rfl
      · rw [List.getLast?_append, hkeep]
        rfl

end

/-- **When no more than `keep` archives are left.**  Take any log files of one path, one after another,
    each with its own settings, and any calls of them, such that all file operations succeed and
    every compressor ends before the next roll.  Then after each roll there are at most as many
    archives as it is to keep if and only if at each roll less than that survive. -/
theorem retention_iff (plat : Platform) (lf : LogFile) (disk : Disk) (events : List LifetimeEvent)
    (s : LogFile × World) (kept : List UInt32)
    (hshell : compressorArguments plat (rolledString lf.path) = [rolledString lf.path])
    (hmeets : (lifetimes plat).Meets (Conforms plat) (lf, { disk }) events)
    (hrun : (lifetimes plat).run (lf, { disk }) events = some (s, kept))
    (hidle : s.2.jobs = []) :
    (∀ before after s' kept', events = before ++ after →
        (lifetimes plat).run (lf, { disk }) before = some (s', kept') →
        ∀ keep, kept'.getLast? = some keep →
          (archives plat lf.path s'.2.disk).card ≤ keep.toNat) ↔
      (lifetimes plat).Meets (Fits plat) (lf, { disk }) events := by
  constructor
  · exact fits_of_retains hshell events rfl hmeets hrun hidle
  · rintro hfits before after s' kept' rfl hbefore
    exact retains_of_fits (s := (lf, { disk })) hshell before hmeets.of_append hfits.of_append
      hbefore

/-- At a roll something is to be kept, and the roll finds all the archives there are. -/
def FindsAll (plat : Platform) (s : LogFile × World) (e : LifetimeEvent) : Prop :=
  LifetimeRolls plat s e → 1 ≤ s.1.keep.toNat ∧ ∀ f ∈ archives plat s.1.path s.2.disk,
    ∃ num ∈ s.1.found plat s.2.disk, f = archiveName s.1.path s.1.compress num

/-- **Rolls that find all archives keep no more than they are to.**  If each roll finds all the
    archives there are, with the extension of its own setting and a number that is read as it is
    written, and `keep` is at least 1, there are never more than `keep`. -/
theorem retains_of_findsAll (plat : Platform) (lf : LogFile) (disk : Disk)
    (events : List LifetimeEvent) {s : LogFile × World} {kept : List UInt32}
    (hshell : compressorArguments plat (rolledString lf.path) = [rolledString lf.path])
    (hmeets : (lifetimes plat).Meets (Conforms plat) (lf, { disk }) events)
    (hfinds : (lifetimes plat).Meets (FindsAll plat) (lf, { disk }) events)
    (hrun : (lifetimes plat).run (lf, { disk }) events = some (s, kept)) {keep : UInt32}
    (hkeep : kept.getLast? = some keep) :
    (archives plat lf.path s.2.disk).card ≤ keep.toNat := by
  have hfits : (lifetimes plat).Meets (Fits plat) (lf, { disk }) events := by
    refine hfinds.mono fun t e hfinds hrolls => ?_
    obtain ⟨hone, hfound⟩ := hfinds hrolls
    exact card_surviving_lt hfound hone
  exact retains_of_fits (s := (lf, { disk })) hshell events hmeets hfits hrun keep hkeep

/-- Two rolls, the second by a log file with other settings. -/
def changesCompression (keep : UInt32) : List LifetimeEvent :=
  [.call (.open {}), .call (.process {} (messageAt 1)),
   .call (.process { tellp := 29 } (messageAt 2)), .call (.compressor 0), .call (.compressor 0),
   .call (.compressor 0), .restart {} { size := 1, keep, compress := str "gzip" } 0,
   .call (.open {}), .call (.process { tellp := 29 } (messageAt 3)), .call (.compressor 0),
   .call (.compressor 0), .call (.compressor 0)]

theorem lifetimeSucceeds_changesCompression (keep : UInt32) :
    ∀ e ∈ changesCompression keep, LifetimeSucceeds e := by
  intro e he
  fin_cases he
  all_goals first | trivial | exact ⟨fun _ => rfl, rfl⟩

theorem conforms_changesCompression (keep : UInt32)
    (h : (lifetimes plainPlatform).Meets (fun t e =>
      (LifetimeRolls plainPlatform t e → t.2.jobs = []) ∧ CompressorWorks plainPlatform t.2 e)
      (appLog, { disk := emptyDisk }) (changesCompression keep)) :
    (lifetimes plainPlatform).Meets (Conforms plainPlatform) (appLog, { disk := emptyDisk })
      (changesCompression keep) :=
  h.and_forall (lifetimeSucceeds_changesCompression keep)

theorem retention_iff_changesCompression :
    ∃ s, (lifetimes plainPlatform).run (appLog, { disk := emptyDisk }) (changesCompression 2) =
        some (s, [7, 2]) ∧
      (archives plainPlatform appLog.path s.2.disk).card ≤ 2 := by
  have hend : ((lifetimes plainPlatform).run (appLog, { disk := emptyDisk })
      (changesCompression 2)).map (fun p => (p.1.2.jobs, p.2)) = some ([], [7, 2]) := by decide
  obtain ⟨⟨s, kept⟩, hrun, hvalues⟩ := Option.map_eq_some_iff.mp hend
  obtain ⟨hidle, rfl⟩ := Prod.mk.inj hvalues
  have hretains := (retention_iff plainPlatform appLog emptyDisk (changesCompression 2) s [7, 2]
    (by decide) (conforms_changesCompression 2 (by decide)) hrun hidle).mpr (by decide)
  exact ⟨s, hrun, hretains _ [] s [7, 2] (by simp) hrun 2 rfl⟩

/-- **More archives than are to be kept.**  When the setting `compress` has changed, the archives with
    the other extension stay: after a roll that is to keep one archive there are two. -/
theorem archives_exceed_keep :
    (lifetimes plainPlatform).Meets (Conforms plainPlatform) (appLog, { disk := emptyDisk })
        (changesCompression 1) ∧
      ∃ s, (lifetimes plainPlatform).run (appLog, { disk := emptyDisk }) (changesCompression 1) =
          some (s, [7, 1]) ∧
        s.2.jobs = [] ∧
        archives plainPlatform appLog.path s.2.disk = {str "app.0.bz2", str "app.0.gz"} := by
  refine ⟨conforms_changesCompression 1 (by decide), ?_⟩
  have hend : ((lifetimes plainPlatform).run (appLog, { disk := emptyDisk })
      (changesCompression 1)).map
        (fun p => (p.2, p.1.2.jobs, archives plainPlatform appLog.path p.1.2.disk)) =
      some ([7, 1], [], {str "app.0.bz2", str "app.0.gz"}) := by decide
  obtain ⟨⟨s, kept⟩, hrun, hvalues⟩ := Option.map_eq_some_iff.mp hend
  obtain ⟨rfl, hvalues⟩ := Prod.mk.inj hvalues
  obtain ⟨hidle, harchives⟩ := Prod.mk.inj hvalues
  exact ⟨s, hrun, hidle, harchives⟩

end LogFile

end Mclog
