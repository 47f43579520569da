import ExprTyping.Name
import Std.Data.HashMap

/-!
# Interner

An interner numbers strings in the order in which they first occur.  The empty
string always has number zero.  Two views of the same content are kept: the
strings by number, and the numbers by string.

Interning has two sections.  `probe` only reads; `commit` looks again before it
writes, so that a string stored between the two sections is not stored twice.
-/

namespace ExprTyping

/-- Why a string could not be interned. -/
inductive InternError where
  /-- No number is left for a new string when `count` strings are stored. -/
  | full (count : Nat)
deriving DecidableEq, Repr

/-- A table of strings with a number for each. -/
structure Interner where
  /-- The stored strings, by number. -/
  texts : Array String
  /-- The number of every stored string. -/
  index : Std.HashMap String Nat

/-- One more than the largest number that a name can carry: numbers have
thirty-two bits. -/
def Interner.capacity : Nat := 4294967296

/-- The text shown for a failed interning. -/
def InternError.message : InternError → String
  | .full count =>
    s!"interner exceeded capacity: {count} strings, max is {Interner.capacity - 1}"

namespace Interner

/-- The interner that stores the empty string only. -/
def empty : Interner where
  texts := #[""]
  index := (∅ : Std.HashMap String Nat).insert "" 0

instance : Inhabited Interner := ⟨empty⟩

/-- The number of stored strings. -/
def size (table : Interner) : Nat :=
  table.texts.size

/-- Whether nothing but the empty string is stored. -/
def isFresh (table : Interner) : Bool :=
  table.size ≤ 1

/-- The text of a name; a name without a stored string has the empty text. -/
def text (table : Interner) (name : Name) : String :=
  table.texts[name.id]?.getD ""

/-- The reading section of interning: the name of a stored string. -/
def probe (table : Interner) (s : String) : Option Name :=
  table.index[s]?.map Name.mk

/-- Appends a string under the next free number. -/
def push (table : Interner) (s : String) : Interner where
  texts := table.texts.push s
  index := table.index.insert s table.texts.size

/-- The writing section of interning: the name of a stored string, and
otherwise the next free number for it. -/
def commit (table : Interner) (s : String) :
    Except InternError (Name × Interner) :=
  match table.probe s with
  | some name => .ok (name, table)
  | none =>
    if table.size < capacity then
      .ok (⟨table.size⟩, table.push s)
    else
      .error (.full table.size)

/-- The name of a string, which is stored first if it is new. -/
def intern (table : Interner) (s : String) :
    Except InternError (Name × Interner) :=
  match table.probe s with
  | some name => .ok (name, table)
  | none => table.commit s

theorem intern_eq_commit (table : Interner) (s : String) :
    table.intern s = table.commit s := by
  unfold intern commit
  cases table.probe s <;> rfl

theorem intern_of_probe_eq_some {table : Interner} {s : String} {name : Name}
    (h : table.probe s = some name) :
    table.intern s = .ok (name, table) := by
  simp [intern, h]

theorem intern_of_probe_eq_none {table : Interner} {s : String}
    (h : table.probe s = none)
    (hsize : table.size < capacity) :
    table.intern s = .ok (⟨table.size⟩, table.push s) := by
  simp [intern, commit, h, hsize]

@[simp]
theorem size_push (table : Interner) (s : String) :
    (table.push s).size = table.size + 1 := by
  simp [push, size]

theorem probe_empty (s : String) :
    empty.probe s = if s = "" then some Name.empty else none := by
  by_cases h : s = ""
  · simp [empty, probe, Name.empty, h]
  · have hne : ¬ "" = s := fun he => h he.symm
    simp [empty, probe, h, hne]

/-- A pushed string is the text of its number. -/
theorem text_push_self (table : Interner) (s : String) :
    (table.push s).text ⟨table.size⟩ = s := by
  simp [text, push, size]

/-- A pushed string leaves the other texts in place. -/
theorem text_push_of_ne {table : Interner} {s : String} {name : Name}
    (h : name.id ≠ table.size) :
    (table.push s).text name = table.text name := by
  unfold size at h
  simp [text, push, Array.getElem?_push, h]

theorem probe_push (table : Interner) (s t : String) :
    (table.push s).probe t =
      if s = t then some ⟨table.size⟩ else table.probe t := by
  by_cases h : s = t
  · simp [probe, push, size, h]
  · simp [probe, push, Std.HashMap.getElem?_insert, h]

end Interner
end ExprTyping
