import ExprTyping.Text.Bytes

/-!
# Lines and columns

A line table lists the byte offset at which every line begins.  Positions are
counted from one; columns count characters.  Offsets beyond the end of a text
stand for its end.

Offsets, lines and columns are numbers of thirty-two bits.  A larger number is
replaced by the largest one of that size.
-/

namespace ExprTyping
namespace Text

/-- One more than the largest offset. -/
def offsetLimit : Nat := 4294967296

/-- The nearest number of thirty-two bits. -/
def saturate (n : Nat) : Nat :=
  min n (offsetLimit - 1)

theorem saturate_of_lt {n : Nat} (h : n < offsetLimit) : saturate n = n :=
  Nat.min_eq_left (Nat.le_sub_one_of_lt h)

theorem saturate_of_le {n : Nat} (h : offsetLimit ≤ n) : saturate n = offsetLimit - 1 :=
  Nat.min_eq_right (Nat.le_trans (Nat.sub_le _ _) h)

/-- The offset after every line feed of a text that begins at `offset`. -/
def startsAfter (offset : Nat) : List Char → List Nat
  | [] => []
  | c :: cs =>
    let next := offset + c.utf8Size
    if c = '\n' then next :: startsAfter next cs else startsAfter next cs

/-- The characters that end a line. -/
def isBreak (c : Char) : Bool :=
  c = '\n' || c = '\r'

/-- A text without the line-ending characters at its end. -/
def trimBreaks (cs : List Char) : List Char :=
  (cs.reverse.dropWhile isBreak).reverse

end Text

/-- A place in a text, counted from one. -/
structure Position where
  line : Nat
  column : Nat
deriving DecidableEq, Repr

namespace Position

/-- Positions are ordered by line and then by column. -/
def le (a b : Position) : Bool :=
  a.line < b.line || (a.line = b.line && a.column ≤ b.column)

theorem le_trans {a b c : Position} (hab : a.le b) (hbc : b.le c) : a.le c := by
  simp only [le, Bool.or_eq_true, Bool.and_eq_true, decide_eq_true_eq] at *
  omega

theorem le_total (a b : Position) : (a.le b || b.le a) = true := by
  simp only [le, Bool.or_eq_true, Bool.and_eq_true, decide_eq_true_eq]
  omega

/-- The position with line and column of thirty-two bits. -/
def saturate (p : Position) : Position :=
  ⟨Text.saturate p.line, Text.saturate p.column⟩

theorem saturate_of_lt {p : Position} (hline : p.line < Text.offsetLimit)
    (hcolumn : p.column < Text.offsetLimit) : p.saturate = p := by
  rw [saturate, Text.saturate_of_lt hline, Text.saturate_of_lt hcolumn]

end Position

/-- The byte offsets at which the lines of a text begin. -/
structure LineTable where
  starts : List Nat
deriving DecidableEq, Repr

namespace LineTable

/-- The table without lines. -/
def empty : LineTable := ⟨[]⟩

/-- The table of a text: its first line begins at zero, and every further line
after a line feed. -/
def ofText (source : String) : LineTable :=
  ⟨0 :: (Text.startsAfter 0 source.toList).map Text.saturate⟩

/-- The number of lines that end before the line of `offset`. -/
def lineIndex (table : LineTable) (offset : Nat) : Nat :=
  table.starts.countP (· ≤ offset) - 1

/-- Where the line after `index` others begins. -/
def lineStart (table : LineTable) (index : Nat) : Nat :=
  table.starts[index]?.getD 0

/-- Line and column of a byte offset, however large they are.  An offset inside
a character has column one. -/
def place (table : LineTable) (source : String) (offset : Nat) : Position :=
  let index := table.lineIndex offset
  let stop := min offset (Text.byteLength source.toList)
  let before := Text.slice? source.toList (table.lineStart index) stop
  { line := index + 1
    column := (before.map List.length).getD 0 + 1 }

/-- The position of a byte offset. -/
def position (table : LineTable) (source : String) (offset : Nat) : Position :=
  (table.place source offset).saturate

/-- The text of the line with the given number, without its line break; a line
that does not exist is empty. -/
def lineText (table : LineTable) (source : String) (line : Nat) : List Char :=
  let index := line - 1
  if index < table.starts.length then
    let stop := table.starts[index + 1]?.getD (Text.byteLength source.toList)
    Text.trimBreaks ((Text.slice? source.toList (table.lineStart index) stop).getD [])
  else
    []

end LineTable
end ExprTyping
