import Mathlib.Tactic

/-!
# Byte strings

`std::string` is the list of its bytes.  `str` turns a literal into one, `decimal` is
`std::to_string` of an unsigned number and `isalnum` is the C library's, in the "C" locale.
-/

namespace Mclog

/-- `std::string`: a list of bytes. -/
abbrev Str := List UInt8

/-- The bytes of an ASCII literal. -/
def str (s : String) : Str := s.toList.map fun c => UInt8.ofNat c.toNat

/-- `std::isdigit` in the "C" locale. -/
def isdigit (c : UInt8) : Bool := 48 ≤ c && c ≤ 57

/-- `std::isalnum` in the "C" locale. -/
def isalnum (c : UInt8) : Bool :=
  isdigit c || (65 ≤ c && c ≤ 90) || (97 ≤ c && c ≤ 122)

/-- The byte of `'.'`. -/
def dot : UInt8 := 46

/-- The byte of `'/'`. -/
def slash : UInt8 := 47

/-- The byte of `'-'`. -/
def hyphen : UInt8 := 45

/-- The byte of `'_'`. -/
def underscore : UInt8 := 95

/-- `std::to_string` of an unsigned number. -/
def decimal (n : Nat) : Str :=
  if n = 0 then [48] else (Nat.digits 10 n).reverse.map fun d => 48 + UInt8.ofNat d

/-- `stoull`, on digits; and `stoul`, where an unsigned long has 64 bits. -/
def stoull (digits : Str) : Option Nat :=
  let num := digits.foldl (fun num c => 10 * num + (c.toNat - 48)) 0
  if digits ≠ [] ∧ num < 2 ^ 64 then some num else none

/-- `Credence::ShortString<N>`: a string of at most `N` bytes. -/
structure ShortString (N : Nat) where
  /-- The string held, `Value()`. -/
  value : Str
  /-- It is short. -/
  length_le : value.length ≤ N
deriving DecidableEq

/-- A short string is its value. -/
@[ext] theorem ShortString.ext {N : Nat} {s t : ShortString N} (h : s.value = t.value) : s = t := by
  cases s; cases t; simp_all

/-- The empty short string of the default constructor. -/
def ShortString.empty (N : Nat) : ShortString N := ⟨[], Nat.zero_le N⟩

/-- The names and texts of the messages in examples are short. -/
theorem length_host_le : (str "host").length ≤ 255 := by decide

theorem length_app_le : (str "app").length ≤ 255 := by decide

theorem length_text_le : (str "text").length ≤ 1500 := by decide

theorem length_x_le : (str "x").length ≤ 1500 := by decide

/-- `Thread::Queue`, with its `MaxLength` if it has one. -/
structure Queue (α : Type) where
  entries : List α := []
  maxLength : Option Nat := none

/-- `PushBack`: a full queue refuses. -/
def Queue.pushBack {α : Type} (q : Queue α) (a : α) : Bool × Queue α :=
  if q.maxLength.all fun n => q.entries.length < n then
    (true, { q with entries := q.entries ++ [a] })
  else
    (false, q)

end Mclog
