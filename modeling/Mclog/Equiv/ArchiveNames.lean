import Mathlib.Data.List.TakeWhile
import Mclog.Equiv.Basic
import Mclog.LogFile

/-!
# The names of archives

A path that ends in an ordinary name, and the names a roll derives from it, lie in one directory
(`key_append`), and are all different.
-/

namespace Mclog

open General

/-! ### Extensions -/

theorem archiveExtension_eq (compress : Str) :
    archiveExtension compress = str "bz2" ∨ archiveExtension compress = str "gz" := by
  unfold archiveExtension
  split
  · rename_i ext h
    unfold sg_compressionExt at h
    rw [List.lookup_cons, List.lookup_cons, List.lookup_nil] at h
    split at h
    · exact Or.inl (Option.some.inj h).symm
    · split at h
      · exact Or.inr (Option.some.inj h).symm
      · cases h
  · exact Or.inl rfl

theorem slash_notMem_archiveExtension (compress : Str) : slash ∉ archiveExtension compress := by
  rcases archiveExtension_eq compress with h | h <;> rw [h] <;> decide

theorem two_le_length_archiveExtension (compress : Str) :
    2 ≤ (archiveExtension compress).length := by
  rcases archiveExtension_eq compress with h | h <;> rw [h] <;> decide

/-! ### Names in a directory -/

/-- A name that leads down: not empty, `.` or `..`. -/
def Ordinary (name : Str) : Prop := name ≠ [] ∧ name ≠ [dot] ∧ name ≠ [dot, dot]

instance (name : Str) : Decidable (Ordinary name) :=
  inferInstanceAs (Decidable (name ≠ [] ∧ name ≠ [dot] ∧ name ≠ [dot, dot]))

/-- An ordinary name stays ordinary when a suffix is added. -/
theorem Ordinary.append {name : Str} (h : Ordinary name) (s : Str) : Ordinary (name ++ dot :: s) := by
  obtain ⟨hnil, hdot, -⟩ := h
  refine ⟨by simp, ?_, ?_⟩
  · intro heq
    have := congrArg List.length heq
    simp only [List.length_append, List.length_cons, List.length_nil] at this
    exact hnil (List.eq_nil_of_length_eq_zero (by omega))
  · intro heq
    have hlen := congrArg List.length heq
    simp only [List.length_append, List.length_cons, List.length_nil] at hlen
    have hpos := List.length_pos_of_ne_nil hnil
    obtain rfl : s = [] := List.eq_nil_of_length_eq_zero (by omega)
    exact hdot (List.append_inj' (show name ++ [dot] = [dot] ++ [dot] from heq) rfl).1

/-- An ordinary name leads down. -/
theorem names_walk_of_ordinary {name : Str} (h : Ordinary name) (l : Location UInt8) :
    (l.walk dot [name]).names = l.names ++ [name] := by
  obtain ⟨hnil, hdot, hdots⟩ := h
  have hstep : pathStep dot name = .down name := by
    unfold pathStep
    rw [if_neg (by rintro (h | h) <;> contradiction), if_neg hdots]
  rw [Location.walk_cons, Location.walk_nil, hstep]
  rfl

/-- A path to a directory: empty, or with a separator at its end. -/
def IsDirectoryPath (dir : Str) : Prop := dir = [] ∨ ∃ q, dir = q ++ [slash]

/-- A name in a directory. -/
theorem resolve_append (cwd : List Str) {dir name : Str} (hdir : IsDirectoryPath dir)
    (hslash : slash ∉ name) (hname : Ordinary name) :
    resolve cwd (dir ++ name) = resolve cwd dir ++ [name] := by
  have hsplit : name.splitOn slash = [name] := List.splitOn_eq_singleton hslash
  -- The separator at the end of the directory starts an empty component, which stays.
  have hempty : ([] : Str).splitOn slash = [[]] := rfl
  have hstay : ∀ l : Location UInt8, l.walk dot [[]] = l := fun l => rfl
  unfold resolve
  dsimp only
  rcases hdir with rfl | ⟨q, rfl⟩
  · have hhead : name.head? ≠ some slash := fun h => hslash (List.mem_of_mem_head? h)
    rw [List.nil_append, if_neg hhead, if_neg (by simp), hsplit, hempty, hstay,
      names_walk_of_ordinary hname]
  · have hhead : (q ++ [slash] ++ name).head? = (q ++ [slash]).head? := by
      cases q <;> rfl
    rw [hhead, List.append_assoc, List.singleton_append, List.splitOn_append_cons_self,
      List.splitOn_append_cons_self, hsplit, hempty, Location.walk_append, Location.walk_append,
      hstay, names_walk_of_ordinary hname]

theorem filename_append (q : Str) {n : Str} (hn : slash ∉ n) : filename (q ++ slash :: n) = n := by
  unfold filename
  rw [List.reverse_append, List.reverse_cons, List.append_assoc, List.takeWhile_append_of_pos]
  · simp
  · intro c hc
    rw [decide_eq_true_eq]
    rintro rfl
    exact hn (List.mem_reverse.mp hc)

theorem filename_of_notMem {path : Str} (h : slash ∉ path) : filename path = path := by
  unfold filename
  rw [List.takeWhile_eq_self_iff.mpr, List.reverse_reverse]
  intro c hc
  rw [decide_eq_true_eq]
  rintro rfl
  exact h (List.mem_reverse.mp hc)

/-- A path is its file name, or a directory, a separator and its file name. -/
theorem path_cases (path : Str) :
    (slash ∉ path ∧ parentPath path = [] ∧ filename path = path) ∨
      ∃ q, parentPath path = q ++ [slash] ∧ slash ∉ filename path ∧
        path = q ++ slash :: filename path := by
  by_cases hslash : slash ∈ path
  · obtain ⟨n, q, hq, hn⟩ := List.eq_append_cons_of_mem (List.mem_reverse.mpr hslash)
    have hpath : path = q.reverse ++ slash :: n.reverse := by
      rw [← List.reverse_reverse path, hq]
      simp
    have hn' : slash ∉ n.reverse := fun h => hn (List.mem_reverse.mp h)
    have hfile : filename path = n.reverse := by rw [hpath, filename_append _ hn']
    refine Or.inr ⟨q.reverse, ?_, by rw [hfile]; exact hn', by rw [hfile]; exact hpath⟩
    unfold parentPath
    rw [hfile, hpath, List.append_cons, List.length_append, Nat.add_sub_cancel, List.take_left]
  · have hfile := filename_of_notMem hslash
    refine Or.inl ⟨hslash, ?_, hfile⟩
    unfold parentPath
    rw [hfile, Nat.sub_self, List.take_zero]

theorem slash_notMem_filename (path : Str) : slash ∉ filename path := by
  rcases path_cases path with ⟨hslash, -, hfile⟩ | ⟨q, -, hslash, -⟩
  · rw [hfile]
    exact hslash
  · exact hslash

/-- A path is its directory and its file name. -/
theorem parentPath_append_filename (path : Str) : parentPath path ++ filename path = path := by
  rcases path_cases path with ⟨-, hdir, hfile⟩ | ⟨q, hdir, -, hpath⟩
  · rw [hdir, hfile, List.nil_append]
  · rw [hdir, List.append_assoc, List.singleton_append, ← hpath]

theorem isDirectoryPath_parentPath (path : Str) : IsDirectoryPath (parentPath path) := by
  rcases path_cases path with ⟨-, hdir, -⟩ | ⟨q, hdir, -⟩
  · exact Or.inl hdir
  · exact Or.inr ⟨q, hdir⟩

/-! ### What a roll derives from a path -/

/-- The directory of a path. -/
def directoryOf (plat : Platform) (path : Str) : List Str := resolve plat.cwd (parentPath path)

/-- The file name of an archive. -/
def archiveName (path compress : Str) (num : Nat) : Str :=
  filename path ++ dot :: decimal num ++ dot :: archiveExtension compress

/-- The file name of a rolled file. -/
def rolledName (path : Str) : Str := filename path ++ str ".0"

/-- A suffix without separators gives a file in the same directory. -/
theorem key_append (plat : Platform) {path : Str} (hordinary : Ordinary (filename path)) {s : Str}
    (hs : slash ∉ s) :
    LogFile.key plat (path ++ dot :: s) = directoryOf plat path ++ [filename path ++ dot :: s] := by
  unfold LogFile.key directoryOf
  conv_lhs => rw [← parentPath_append_filename path, List.append_assoc]
  refine resolve_append plat.cwd (isDirectoryPath_parentPath path) ?_ (hordinary.append s)
  rw [List.mem_append, List.mem_cons]
  rintro (h | h | h)
  · exact slash_notMem_filename path h
  · cases h
  · exact hs h

theorem key_path (plat : Platform) {path : Str} (hordinary : Ordinary (filename path)) :
    LogFile.key plat path = directoryOf plat path ++ [filename path] := by
  unfold LogFile.key directoryOf
  conv_lhs => rw [← parentPath_append_filename path]
  exact resolve_append plat.cwd (isDirectoryPath_parentPath path) (slash_notMem_filename path)
    hordinary

theorem key_rolledString (plat : Platform) {path : Str} (hordinary : Ordinary (filename path)) :
    LogFile.key plat (rolledString path) = directoryOf plat path ++ [rolledName path] :=
  key_append plat hordinary (s := [48]) (by decide)

theorem ordinary_archiveName (path compress : Str) (num : Nat) :
    Ordinary (archiveName path compress num) := by
  have hlen : 2 < (archiveName path compress num).length := by
    have hext := two_le_length_archiveExtension compress
    simp only [archiveName, List.length_append, List.length_cons]
    omega
  refine ⟨?_, ?_, ?_⟩
  all_goals
    intro h
    rw [h] at hlen
    simp at hlen

/-- Archives are in the directory of the path, whatever its last component is. -/
theorem key_archiveString (plat : Platform) (path : Str) (num : Nat) (compress : Str) :
    LogFile.key plat (archiveString path num compress) =
      directoryOf plat path ++ [archiveName path compress num] := by
  have hs : slash ∉ archiveName path compress num := by
    unfold archiveName
    rw [List.mem_append, List.mem_append, List.mem_cons, List.mem_cons]
    rintro ((h | h | h) | h | h)
    · exact slash_notMem_filename path h
    · cases h
    · exact not_mem_decimal (by decide) num h
    · cases h
    · exact slash_notMem_archiveExtension compress h
  have happend : archiveString path num compress =
      parentPath path ++ archiveName path compress num := by
    unfold archiveString archiveName
    rw [← List.append_assoc, ← List.append_assoc, parentPath_append_filename]
  unfold LogFile.key directoryOf
  rw [happend]
  exact resolve_append plat.cwd (isDirectoryPath_parentPath path) hs
    (ordinary_archiveName path compress num)

/-- The archives of a path have names that start with its file name. -/
theorem prefix_archiveName (path compress : Str) (num : Nat) :
    filename path <+: archiveName path compress num := by
  unfold archiveName
  rw [List.append_assoc]
  exact List.prefix_append _ _

theorem archiveName_injective {path compress : Str} {m n : Nat}
    (h : archiveName path compress m = archiveName path compress n) : m = n := by
  unfold archiveName at h
  simp only [List.append_assoc, List.cons_append, List.append_cancel_left_eq,
    List.cons.injEq, true_and] at h
  exact decimal_injective (List.append_cancel_right h)

theorem archiveName_ne_filename (path compress : Str) (num : Nat) :
    archiveName path compress num ≠ filename path := by
  intro h
  have := congrArg List.length h
  simp [archiveName] at this

theorem rolledName_ne_filename (path : Str) : rolledName path ≠ filename path := by
  intro h
  have := congrArg List.length h
  simp [rolledName, str] at this

/-- An archive's name is longer than that of a rolled file. -/
theorem archiveName_ne_rolledName (path compress : Str) (num : Nat) :
    archiveName path compress num ≠ rolledName path := by
  intro h
  have hlen := congrArg List.length h
  have hext := two_le_length_archiveExtension compress
  have hnum := List.length_pos_of_ne_nil (decimal_ne_nil num)
  have hrolled : (str ".0").length = 2 := rfl
  simp only [archiveName, rolledName, List.length_append, List.length_cons, hrolled] at hlen
  omega

/-- The rolled file, compressed, is the first archive. -/
theorem rolledString_append_extension (path compress : Str) :
    rolledString path ++ dot :: archiveExtension compress = archiveString path 0 compress := by
  unfold rolledString archiveString
  rw [List.append_assoc, List.append_assoc]
  rfl

/-- The last dot splits a name in one way only. -/
theorem append_dot_inj {f f' e e' : Str} (h : f ++ dot :: e = f' ++ dot :: e') (he : dot ∉ e)
    (he' : dot ∉ e') : f = f' ∧ e = e' := by
  rcases List.append_eq_append_iff.mp h with ⟨c, rfl, hc⟩ | ⟨c, rfl, hc⟩
  all_goals
    cases c with
    | nil =>
      obtain ⟨-, rfl⟩ := List.cons.inj hc
      simp
    | cons c cs =>
      obtain ⟨-, rfl⟩ := List.cons.inj hc
      simp at he he'

theorem dot_notMem_archiveExtension (compress : Str) : dot ∉ archiveExtension compress := by
  rcases archiveExtension_eq compress with h | h <;> rw [h] <;> decide

/-! ### The archive pattern -/

/-- The pattern of `GetArchives` takes the archives of the path for such, with their numbers, and
    neither the path itself nor a rolled file. -/
structure RecognizesOwn (plat : Platform) (path compress : Str) (sm : Str → Option Str) : Prop where
  regex : archiveRegex plat (filename path) (archiveExtension compress) = some sm
  archive : ∀ num, sm (archiveName path compress num) = some (decimal num)
  live : sm (filename path) = none
  rolled : sm (rolledName path) = none

theorem archiveDigits_archive (ext : Str) (num : Nat) :
    archiveDigits ext (dot :: decimal num ++ dot :: ext) = some (decimal num) := by
  have htake : (decimal num ++ dot :: ext).takeWhile isdigit = decimal num := by
    rw [List.takeWhile_append_of_pos fun c hc => isdigit_decimal hc]
    simp [isdigit, dot]
  unfold archiveDigits
  simp only [List.cons_append, htake, List.drop_left, decimal_ne_nil, ne_eq, not_false_eq_true,
    and_self, if_true]

/-- Every string matches itself as a pattern of plain characters. -/
theorem matchesPlain_self (s : Str) : matchesPlain s s = true := by
  unfold matchesPlain
  rw [beq_self_eq_true, Bool.true_and]
  induction s with
  | nil => rfl
  | cons c s ih =>
    rw [List.zip_cons_cons, List.all_cons, ih, Bool.and_true]
    by_cases hc : c = dot
    · rw [hc]
      rfl
    · simp [hc]

/-- A file name of plain characters recognizes its own. -/
theorem recognizesOwn_of_plain (plat : Platform) {path : Str} (compress : Str)
    (hplain : (filename path).all isPlain = true) :
    ∃ sm, RecognizesOwn plat path compress sm := by
  have hregex : archiveRegex plat (filename path) (archiveExtension compress) = some fun fname =>
      if matchesPlain (filename path) (fname.take (filename path).length) then
        archiveDigits (archiveExtension compress) (fname.drop (filename path).length)
      else none := by
    unfold archiveRegex
    rw [if_pos hplain]
  refine ⟨_, hregex, ?_, ?_, ?_⟩
  · intro num
    unfold archiveName
    rw [List.append_assoc, List.cons_append, List.take_left, List.drop_left,
      if_pos (matchesPlain_self _)]
    exact archiveDigits_archive _ num
  · rw [List.take_length, List.drop_length, if_pos (matchesPlain_self _)]
    rfl
  · unfold rolledName
    rw [List.take_left, List.drop_left, if_pos (matchesPlain_self _)]
    rcases archiveExtension_eq compress with h | h <;> rw [h] <;> decide

/-- Without dots, plain characters match themselves only, so all archives start with the name. -/
theorem prefix_of_archiveRegex {plat : Platform} {path compress : Str}
    (hplain : (filename path).all isPlain = true) (hdot : dot ∉ filename path)
    {sm : Str → Option Str}
    (hregex : archiveRegex plat (filename path) (archiveExtension compress) = some sm)
    {f digits : Str} (hf : sm f = some digits) : filename path <+: f := by
  unfold archiveRegex at hregex
  rw [if_pos hplain] at hregex
  obtain rfl := Option.some.inj hregex
  simp only at hf
  split_ifs at hf with hmatch
  have hself : ∀ {p s : Str}, dot ∉ p → matchesPlain p s = true → p = s := by
    intro p s hp hps
    unfold matchesPlain at hps
    rw [Bool.and_eq_true, beq_iff_eq] at hps
    obtain ⟨hlen, hall⟩ := hps
    refine List.ext_getElem hlen fun i h h' => ?_
    have hi := List.all_eq_true.mp hall (p[i], s[i]) (by
      rw [List.mem_iff_getElem]
      exact ⟨i, by simp [h, h'], by simp⟩)
    have hne : p[i] ≠ dot := fun h => hp (h ▸ List.getElem_mem _)
    simpa [hne] using hi
  rw [hself hdot hmatch]
  exact List.take_prefix _ _

end Mclog
