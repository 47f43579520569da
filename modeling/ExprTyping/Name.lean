/-!
# Interned names

A name is the number under which an interner stores a string.  Comparing two
names therefore never looks at their text.
-/

namespace ExprTyping

/-- The number of an interned string. -/
structure Name where
  id : Nat
deriving DecidableEq, Repr, Inhabited, Hashable

namespace Name

/-- The name of the empty string, present in every interner. -/
def empty : Name := ⟨0⟩

/-- The dump of a name shows its number and never its text. -/
def dump (name : Name) : String :=
  s!"Name({name.id})"

/-- Names are ordered by number, which is the order of first occurrence. -/
instance : Ord Name := ⟨fun a b => compare a.id b.id⟩

theorem ext_id {a b : Name} (h : a.id = b.id) : a = b := by
  cases a
  cases b
  simp_all

end Name
end ExprTyping
