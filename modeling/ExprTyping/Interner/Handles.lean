import ExprTyping.Interner

/-!
# Shared interners

Several handles may lead to one table: what is interned through one of them is
seen through all of them.  A pool keeps the tables apart from the handles, and
each handle knows the table it leads to.
-/

namespace ExprTyping
namespace Interner

/-- Tables and the handles that lead to them. -/
structure Pool where
  tables : Array Interner
  /-- The table number of every handle. -/
  handles : Array Nat

namespace Pool

/-- One handle to one empty table. -/
def start : Pool where
  tables := #[Interner.empty]
  handles := #[0]

/-- The table behind a handle. -/
def table? (pool : Pool) (handle : Nat) : Option Interner := do
  let number ← pool.handles[handle]?
  pool.tables[number]?

/-- Puts a table behind a handle, and so behind every handle that shares it. -/
def update (pool : Pool) (handle : Nat) (table : Interner) : Pool :=
  match pool.handles[handle]? with
  | some number => { pool with tables := pool.tables.setIfInBounds number table }
  | none => pool

/-- A further handle to the table that `handle` leads to, with its number. -/
def share (pool : Pool) (handle : Nat) : Option (Nat × Pool) := do
  let number ← pool.handles[handle]?
  return (pool.handles.size, { pool with handles := pool.handles.push number })

/-- A handle to a new empty table, with its number. -/
def fresh (pool : Pool) : Nat × Pool :=
  (pool.handles.size,
    { tables := pool.tables.push Interner.empty
      handles := pool.handles.push pool.tables.size })

/-- Interns a string through a handle; an unknown handle leads to no table. -/
def intern? (pool : Pool) (handle : Nat) (s : String) :
    Option (Except InternError (Name × Pool)) := do
  let table ← pool.table? handle
  return (table.intern s).map fun (name, table') =>
    (name, pool.update handle table')

end Pool
end Interner
end ExprTyping
