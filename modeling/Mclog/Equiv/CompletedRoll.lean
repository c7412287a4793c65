import Mclog.Equiv.Rolling

/-!
# A roll that completes

What a roll has done if none of its renamings and removals failed, whatever the directory held: every
archive that was found has moved up by one number or is gone (`moveArchives_completed`), and the live
file has become `path.0` (`roll_completed`).  A call rolls at most once, because there is no live file
after a roll (`process_cases`).
-/

namespace Mclog

open General

namespace LogFile

variable {plat : Platform} {env : Env} {lf lf' : LogFile} {w w' : World}

/-! ### Names -/

/-- A last component that is no name leads nowhere below the directory. -/
theorem key_prefix_of_not_ordinary (plat : Platform) {path : Str} (h : ¬ Ordinary (filename path)) :
    key plat path <+: directoryOf plat path := by
  have hslash := slash_notMem_filename path
  have hsplit : (filename path).splitOn slash = [filename path] :=
    List.splitOn_eq_singleton hslash
  have hempty : ([] : Str).splitOn slash = [[]] := rfl
  have hstay : ∀ l : Location UInt8, l.walk dot [[]] = l := fun l => rfl
  -- Staying or going up from a location leads to it or above it.
  have hwalk : ∀ l : Location UInt8, (l.walk dot [filename path]).names <+: l.names := by
    intro l
    unfold Ordinary at h
    rw [Location.walk_cons, Location.walk_nil]
    by_cases hup : filename path = [dot, dot]
    · have hstep : pathStep dot (filename path) = .up := by
        rw [hup]
        rfl
      rw [hstep]
      unfold Location.step
      dsimp only
      split_ifs with hnil habsolute
      · exact List.prefix_refl _
      · exact List.prefix_refl _
      · exact List.dropLast_prefix _
    · have hstep : pathStep dot (filename path) = .stay := by
        unfold pathStep
        rw [if_pos]
        tauto
      rw [hstep]
      exact List.prefix_refl _
  unfold key directoryOf
  rcases path_cases path with ⟨-, hdir, hfile⟩ | ⟨q, hdir, -, hpath⟩
  · have hhead : path.head? ≠ some slash := by
      intro hhead
      rw [hfile] at hslash
      exact hslash (List.mem_of_mem_head? hhead)
    have hhead' : ([] : Str).head? ≠ some slash := by simp
    unfold resolve
    dsimp only
    rw [hdir, if_neg hhead, if_neg hhead', hempty, hstay, ← hfile, hsplit]
    exact hwalk _
  · have hhead : path.head? = (q ++ [slash]).head? := by
      rw [hpath]
      cases q <;> rfl
    have hcomponents : path.splitOn slash = q.splitOn slash ++ [filename path] := by
      conv_lhs => rw [hpath, List.splitOn_append_cons_self, hsplit]
    unfold resolve
    dsimp only
    rw [hdir, hhead, hcomponents, List.splitOn_append_cons_self, hempty, Location.walk_append,
      Location.walk_append, hstay]
    exact hwalk _

/-- What can be renamed to `path.0` has an ordinary name: a directory does not move into itself. -/
theorem ordinary_of_rename {path : Str} {disk disk' : Disk}
    (h : disk.rename (key plat path) (key plat (rolledString path)) = some disk') :
    Ordinary (filename path) := by
  by_contra hordinary
  have hslash : slash ∉ filename path ++ str ".0" := by
    rw [List.mem_append, not_or]
    exact ⟨slash_notMem_filename path, by decide⟩
  have hname : Ordinary (filename path ++ str ".0") := by
    unfold Ordinary at hordinary
    by_cases hnil : filename path = []
    · rw [hnil]
      decide
    · by_cases hdot : filename path = [dot]
      · rw [hdot]
        decide
      · have hdots : filename path = [dot, dot] := by tauto
        rw [hdots]
        decide
  have hrolled : key plat (rolledString path) =
      directoryOf plat path ++ [filename path ++ str ".0"] := by
    unfold key directoryOf rolledString
    conv_lhs => rw [← parentPath_append_filename path, List.append_assoc]
    exact resolve_append plat.cwd (isDirectoryPath_parentPath path) hslash hname
  have hpre := key_prefix_of_not_ordinary plat hordinary
  have hlen := hpre.length_le
  rw [hrolled] at h
  refine (FileStore.of_rename h).2 ?_ (hpre.trans (List.prefix_append _ _))
  intro heq
  rw [heq, List.length_append, List.length_singleton] at hlen
  omega

/-! ### The archives -/

/-- **The loop of `RollArchives`, if it completes.**  Of the archives found, those that get a number
    below `keep` have moved up, and the others are gone.  The first archive is left out: a number
    that wraps becomes 0. -/
theorem moveArchives_completed (nums : List Nat)
    (disk disk' : Disk) (hsorted : nums.Pairwise (· ≥ ·)) (hsmall : ∀ num ∈ nums, num < 2 ^ 64)
    (h : lf.moveArchives plat env nums disk = (true, disk')) (f : Str)
    (hf : f ≠ archiveName lf.path lf.compress 0) :
    disk'.Present (directoryOf plat lf.path ++ [f]) ↔
      (∃ num ∈ nums, num + 1 < lf.keep.toNat ∧ f = archiveName lf.path lf.compress (num + 1)) ∨
        (disk.Present (directoryOf plat lf.path ++ [f]) ∧
          ∀ num ∈ nums, f ≠ archiveName lf.path lf.compress num) := by
  induction nums generalizing disk with
  | nil =>
    obtain ⟨-, rfl⟩ := Prod.mk.inj h
    simp
  | cons a nums ih =>
    obtain ⟨hle, hsorted'⟩ := List.pairwise_cons.mp hsorted
    have hkeep := lf.keep.toNat_lt
    have hkey : ∀ num, key plat (archiveString lf.path num lf.compress) =
        directoryOf plat lf.path ++ [archiveName lf.path lf.compress num] :=
      fun num => key_archiveString plat _ num lf.compress
    -- After the first round.
    obtain ⟨disk₁, hrest, hfirst⟩ : ∃ disk₁ : Disk,
        lf.moveArchives plat env nums disk₁ = (true, disk') ∧
        (disk₁.Present (directoryOf plat lf.path ++ [f]) ↔
          (a + 1 < lf.keep.toNat ∧ f = archiveName lf.path lf.compress (a + 1)) ∨
            (disk.Present (directoryOf plat lf.path ++ [f]) ∧
              f ≠ archiveName lf.path lf.compress a)) := by
      unfold moveArchives at h
      simp only [hkey] at h
      by_cases hnext : (a + 1) % 2 ^ 64 ≥ lf.keep.toNat
      · rw [if_pos hnext] at h
        split_ifs at h with hfail
        · cases h
        · push Not at hfail
          refine ⟨_, h, ?_⟩
          have hlarge : ¬ a + 1 < lf.keep.toNat := by
            intro hlt
            rw [Nat.mod_eq_of_lt (by omega)] at hnext
            omega
          rw [or_iff_right fun h => hlarge h.1]
          by_cases hfa : f = archiveName lf.path lf.compress a
          · rw [hfa]
            exact iff_of_false (FileStore.not_present_remove hfail.2) fun h => h.2 rfl
          · rw [FileStore.present_remove_of_ne hfa]
            exact (and_iff_left hfa).symm
      · rw [if_neg hnext] at h
        split at h
        · rename_i disk₁ hrename
          split_ifs at h with hfail
          · cases h
          refine ⟨disk₁, h, ?_⟩
          have hne : archiveName lf.path lf.compress a ≠
              archiveName lf.path lf.compress ((a + 1) % 2 ^ 64) := by
            intro heq
            have := archiveName_injective heq
            omega
          rw [FileStore.present_rename_iff hne hrename, and_comm (a := f ≠ _)]
          by_cases hlt : a + 1 < 2 ^ 64
          · rw [Nat.mod_eq_of_lt hlt] at hnext ⊢
            simp [not_le.mp hnext]
          · -- The number wraps.
            have hlarge : ¬ a + 1 < lf.keep.toNat := by omega
            have hother : f ≠ archiveName lf.path lf.compress ((a + 1) % 2 ^ 64) := by
              have hzero : (a + 1) % 2 ^ 64 = 0 := by
                have := hsmall a (by simp)
                omega
              rw [hzero]
              exact hf
            rw [or_iff_right hother, or_iff_right fun h => hlarge h.1]
        · cases h
    rw [ih disk₁ hsorted' (fun num hnum => hsmall num (by simp [hnum])) hrest, hfirst]
    constructor
    · rintro (⟨num, hnum, hlt, heq⟩ | ⟨⟨hlt, heq⟩ | ⟨hpresent, hne⟩, hnot⟩)
      · exact Or.inl ⟨num, List.mem_cons_of_mem _ hnum, hlt, heq⟩
      · exact Or.inl ⟨a, by simp, hlt, heq⟩
      · refine Or.inr ⟨hpresent, ?_⟩
        intro num hnum
        rcases List.mem_cons.mp hnum with rfl | hnum
        · exact hne
        · exact hnot num hnum
    · rintro (⟨num, hnum, hlt, heq⟩ | ⟨hpresent, hnot⟩)
      · rcases List.mem_cons.mp hnum with rfl | hnum
        · refine Or.inr ⟨Or.inl ⟨hlt, heq⟩, ?_⟩
          intro m hm heq'
          have := archiveName_injective (heq.symm.trans heq')
          have := hle m hm
          omega
        · exact Or.inl ⟨num, hnum, hlt, heq⟩
      · refine Or.inr ⟨Or.inr ⟨hpresent, hnot a (by simp)⟩, ?_⟩
        exact fun num hnum => hnot num (List.mem_cons_of_mem _ hnum)

/-- The numbers of the archives that `GetArchives` finds. -/
def found (plat : Platform) (lf : LogFile) (disk : Disk) : Finset Nat :=
  match archiveRegex plat (filename lf.path) (archiveExtension lf.compress) with
  | none => ∅
  | some sm =>
    ((disk.listing (directoryOf plat lf.path)).filterMap fun f => (sm f).bind stoull).toFinset

theorem mem_found_of_getArchives {disk : Disk} {nums : List Nat}
    (h : lf.getArchives plat env disk = some nums) (num : Nat) :
    num ∈ nums ↔ num ∈ lf.found plat disk := by
  obtain ⟨-, sm, hsm, -, rfl⟩ := getArchives_eq_some_iff.mp h
  unfold found
  rw [hsm, List.mem_toFinset, (List.perm_insertionSort _ _).mem_iff]

/-! ### The roll -/

/-- What a roll that completes has done: `lf'` and `w'` come from `lf` and `w`. -/
structure RollDone (plat : Platform) (env : Env) (lf : LogFile) (w : World) (lf' : LogFile)
    (w' : World) : Prop where
  ordinary : Ordinary (filename lf.path)
  logFile : lf' = { lf with
    rollInterval := lf.rollInterval.setToCurrent plat.calendar env.rollTime }
  rolls : w'.rolls = w.rolls ++ [⟨lf.path, lf.compress, w.disk, w'.disk⟩]
  jobs : w'.jobs = w.jobs ++
    (if env.fails .system then [] else compressorArguments plat (rolledString lf.path)).map
      fun file => ⟨lf.path, file, lf.compress, .started⟩
  /-- There is no live file. -/
  live : ¬ w'.disk.Present (liveKey plat lf.path)
  /-- The archives found that get a number below `keep` have moved up, and the others are gone. -/
  entries : ∀ f, f ≠ filename lf.path → f ≠ rolledName lf.path →
    f ≠ archiveName lf.path lf.compress 0 →
    (w'.disk.Present (directoryOf plat lf.path ++ [f]) ↔
      (∃ num ∈ lf.found plat w.disk, num + 1 < lf.keep.toNat ∧
        f = archiveName lf.path lf.compress (num + 1)) ∨
      (w.disk.Present (directoryOf plat lf.path ++ [f]) ∧
        ∀ num ∈ lf.found plat w.disk, f ≠ archiveName lf.path lf.compress num))

/-- **A roll that completes.** -/
theorem roll_completed (h : lf.roll plat env w = (true, lf', w')) :
    RollDone plat env lf w lf' w' := by
  unfold roll rollFiles rollArchives at h
  cases hget : lf.getArchives plat env w.disk with
  | none =>
    rw [hget] at h
    simp at h
  | some nums =>
    rw [hget] at h
    dsimp only at h
    generalize hmove : lf.moveArchives plat env nums w.disk = p at h
    obtain ⟨completed, disk₁⟩ := p
    cases completed with
    | false => simp at h
    | true =>
      unfold rollCurrent at h
      simp only [if_true] at h
      split at h
      swap
      · simp at h
      rename_i disk hrename
      have hfail : env.fails .renameCurrent = false := by
        rw [← Bool.not_eq_true]
        intro hfail
        rw [if_pos hfail] at h
        simp at h
      simp only [hfail, Bool.false_eq_true, if_false, if_true, Prod.mk.injEq, true_and] at h
      obtain ⟨rfl, rfl⟩ := h
      have hordinary := ordinary_of_rename hrename
      rw [key_path plat hordinary, key_rolledString plat hordinary] at hrename
      have hne : filename lf.path ≠ rolledName lf.path := (rolledName_ne_filename lf.path).symm
      refine ⟨hordinary, rfl, rfl, rfl, ?_, ?_⟩
      · show ¬ disk.Present (directoryOf plat lf.path ++ [filename lf.path])
        rw [FileStore.present_rename_iff hne hrename]
        rintro (heq | ⟨hself, -⟩)
        · exact hne heq
        · exact hself rfl
      · intro f hlive hrolled hzero
        show disk.Present (directoryOf plat lf.path ++ [f]) ↔ _
        have hsorted : nums.Pairwise (· ≥ ·) := by
          obtain ⟨-, sm, -, -, rfl⟩ := getArchives_eq_some_iff.mp hget
          exact List.pairwise_insertionSort _ _
        rw [FileStore.present_rename_iff hne hrename, or_iff_right hrolled, and_iff_right hlive,
          moveArchives_completed nums w.disk disk₁ hsorted (getArchives_lt hget) hmove f
            hzero]
        simp only [mem_found_of_getArchives hget]

theorem RollDone.path_eq (h : RollDone plat env lf w lf' w') : lf'.path = lf.path := by
  rw [h.logFile]

/-- There is no live file after a roll, so opening it rolls nothing. -/
theorem RollDone.needRollBeforeOpen (h : RollDone plat env lf w lf' w') (env' : Env) :
    lf'.needRollBeforeOpen plat env' w'.disk = false := by
  have hfind := FileStore.find_eq_none_of_not_present h.live
  have hdirectory := FileStore.not_isDirectory_of_not_present h.live
  unfold LogFile.needRollBeforeOpen
  rw [h.path_eq, key_path plat h.ordinary]
  unfold liveKey at hfind hdirectory
  simp [hfind, hdirectory]

/-! ### The calls -/

/-- Closing the file changes no names. -/
theorem close_spec (env : Env) (lf : LogFile) (w : World) :
    (lf.close env w).1 = { lf with ofs := none } ∧
      (lf.close env w).2.disk.names = w.disk.names ∧ (lf.close env w).2.jobs = w.jobs ∧
      (lf.close env w).2.rolls = w.rolls := by
  unfold close
  split
  · rename_i hofs
    rw [← hofs]
    exact ⟨rfl, rfl, rfl, rfl⟩
  · dsimp only
    split_ifs <;> exact ⟨rfl, rfl, rfl, rfl⟩

/-- A file needs a roll before it is opened, if it is older than the interval. -/
theorem needRollBeforeOpen_of_find {disk : Disk} {node : Nat}
    (hfind : disk.find (key plat lf.path) = some node) :
    lf.needRollBeforeOpen plat env disk =
      decide (lf.rollInterval.startTime > (disk.nodes node).mtime) := by
  unfold LogFile.needRollBeforeOpen
  dsimp only
  rw [hfind]

/-- `openFile` opens the file there is, or creates one. -/
theorem openFile_cases (h : lf.openFile plat env w = (some true, lf', w')) :
    (∃ node, w.disk.find (key plat lf.path) = some node ∧ lf' = { lf with ofs := some { node } } ∧
        w' = w) ∨
      (w.disk.find (key plat lf.path) = none ∧
        lf' = { lf with ofs := some { node := w.disk.next } } ∧
        w' = { w with disk := w.disk.create (key plat lf.path) ⟨[], env.writeTime⟩ }) := by
  unfold openFile at h
  split at h
  · simp at h
  · simp at h
  · dsimp only at h
    split_ifs at h with hfail
    · simp at h
    · split at h
      · rename_i node hfind
        simp only [Prod.mk.injEq, true_and] at h
        obtain ⟨rfl, rfl⟩ := h
        exact Or.inl ⟨node, hfind, rfl, rfl⟩
      · rename_i hfind
        simp only [Prod.mk.injEq, true_and] at h
        obtain ⟨rfl, rfl⟩ := h
        exact Or.inr ⟨hfind, rfl, rfl⟩

theorem openFile_false (h : lf.openFile plat env w = (some false, lf', w')) :
    lf' = lf ∧ w' = w := by
  unfold openFile at h
  split at h
  · simp at h
  · simp only [Prod.mk.injEq, true_and] at h
    exact ⟨h.1.symm, h.2.symm⟩
  · dsimp only at h
    split_ifs at h with hfail
    · simp only [Prod.mk.injEq, true_and] at h
      exact ⟨h.1.symm, h.2.symm⟩
    · split at h <;> simp at h

/-- A record that is written is appended to the open file. -/
theorem writeRecord_cases {msg : Message}
    (h : lf.writeRecord plat env w msg = (true, lf', w')) :
    ∃ st, lf.ofs = some st ∧ lf' = lf ∧
      w' = { w with disk := append env w.disk st.node (record plat lf.format msg) } := by
  unfold writeRecord at h
  split at h
  · simp at h
  · rename_i st hst
    by_cases hgood : st.good = true
    · by_cases hfail : env.fails .write = true
      · simp [hgood, hfail] at h
      · simp only [hgood, hfail, not_true_eq_false, if_false, Bool.false_eq_true, Prod.mk.injEq,
          true_and] at h
        obtain ⟨rfl, rfl⟩ := h
        exact ⟨st, hst, rfl, rfl⟩
    · simp [hgood] at h

/-- `OpenNoLock` opens the file, after a roll if it is an old one. -/
theorem openNoLock_cases {rc : Bool} (h : lf.openNoLock plat env w = (some rc, lf', w')) :
    (lf.ofs.isSome ∧ rc = true ∧ lf' = lf ∧ w' = w) ∨
      (lf.ofs = none ∧ lf.needRollBeforeOpen plat env w.disk = false ∧
        lf.openFile plat env w = (some rc, lf', w')) ∨
      (lf.ofs = none ∧ lf.needRollBeforeOpen plat env w.disk = true ∧
        ∃ lf₁ w₁, RollDone plat env lf w lf₁ w₁ ∧
          lf₁.openFile plat env w₁ = (some rc, lf', w')) := by
  unfold openNoLock at h
  by_cases hofs : lf.ofs.isSome
  · rw [if_pos hofs] at h
    simp only [Prod.mk.injEq, Option.some.injEq] at h
    obtain ⟨rfl, rfl, rfl⟩ := h
    exact Or.inl ⟨hofs, rfl, rfl, rfl⟩
  · rw [if_neg hofs] at h
    rw [Option.not_isSome_iff_eq_none] at hofs
    by_cases hneed : lf.needRollBeforeOpen plat env w.disk = true
    · rw [if_pos hneed] at h
      cases hroll : lf.roll plat env w with
      | mk completed s =>
        rw [hroll] at h
        cases completed with
        | false => simp at h
        | true => exact Or.inr (Or.inr ⟨hofs, hneed, s.1, s.2, roll_completed hroll, h⟩)
    · rw [if_neg hneed] at h
      exact Or.inr (Or.inl ⟨hofs, Bool.eq_false_iff.mpr hneed, h⟩)

/-- `Process` writes the message, after a roll if the criteria are met: then the live file is closed,
    rolled and opened, and not rolled again. -/
theorem process_cases {msg : Message} {rc : Bool}
    (h : lf.process plat env w msg = (some rc, lf', w')) :
    (lf.ofs = none ∧ rc = false ∧ lf' = lf ∧ w' = w) ∨
      (lf.ofs.isSome ∧ lf.rollCriteriaMet env msg = false ∧
        lf.writeRecord plat env w msg = (rc, lf', w')) ∨
      (lf.ofs.isSome ∧ lf.rollCriteriaMet env msg = true ∧
        ∃ lf₁ w₁ opened lf₂ w₂,
          RollDone plat env (lf.close env w).1 (lf.close env w).2 lf₁ w₁ ∧
          lf₁.openFile plat env w₁ = (some opened, lf₂, w₂) ∧
          lf₂.writeRecord plat env w₂ msg = (rc, lf', w')) := by
  unfold process at h
  by_cases hofs : lf.ofs.isSome
  swap
  · rw [if_neg hofs] at h
    simp only [Prod.mk.injEq, Option.some.injEq] at h
    obtain ⟨rfl, rfl, rfl⟩ := h
    exact Or.inl ⟨Option.not_isSome_iff_eq_none.mp hofs, rfl, rfl, rfl⟩
  rw [if_pos hofs] at h
  by_cases hroll : lf.rollCriteriaMet env msg = true
  swap
  · rw [if_neg hroll] at h
    simp only [Prod.mk.injEq, Option.some.injEq] at h
    obtain ⟨hrc, hlf, hw⟩ := h
    refine Or.inr (Or.inl ⟨hofs, Bool.eq_false_iff.mpr hroll, ?_⟩)
    rw [← hrc, ← hlf, ← hw]
  rw [if_pos hroll] at h
  -- The roll is of a closed file, which is opened afterwards and so is not found open.
  have hclosed : (lf.close env w).1.ofs = none := by
    unfold close
    split
    · assumption
    · rfl
  dsimp only at h
  cases hrolled : (lf.close env w).1.roll plat env (lf.close env w).2 with
  | mk completed s =>
    rw [hrolled] at h
    cases completed with
    | false => simp at h
    | true =>
      have hdone := roll_completed hrolled
      dsimp only at h
      cases hopen : s.1.openNoLock plat env s.2 with
      | mk opened s' =>
        rw [hopen] at h
        cases opened with
        | none => simp at h
        | some opened =>
          simp only [Prod.mk.injEq, Option.some.injEq] at h
          obtain ⟨hrc, hlf, hw⟩ := h
          have hnone : s.1.ofs = none := by
            rw [hdone.logFile]
            exact hclosed
          rcases openNoLock_cases hopen with ⟨hsome, -⟩ | ⟨-, -, hfile⟩ | ⟨-, hneed, -⟩
          · -- It is not open.
            rw [hnone] at hsome
            cases hsome
          · refine Or.inr (Or.inr ⟨hofs, hroll, s.1, s.2, opened, s'.1, s'.2, hdone, hfile, ?_⟩)
            rw [← hrc, ← hlf, ← hw]
          · -- There is no live file to roll again.
            rw [hdone.needRollBeforeOpen] at hneed
            cases hneed

end LogFile

end Mclog
