import ExprTyping.Span

/-!
# Byte offsets into text

Texts are addressed by offsets into their UTF-8 encoding, while columns count
characters.  A text can be cut only where a character begins or at its end.

The main statement is `splitAt?_eq_some_iff`: cutting at a byte offset succeeds
exactly when some first part of the text has that many bytes, and then returns
this part and the rest.
-/

namespace ExprTyping
namespace Text

/-- The number of bytes in the UTF-8 encoding of a text. -/
def byteLength (cs : List Char) : Nat :=
  cs.foldl (fun n c => n + c.utf8Size) 0

theorem foldl_utf8Size (cs : List Char) (n : Nat) :
    cs.foldl (fun n c => n + c.utf8Size) n = n + byteLength cs := by
  induction cs generalizing n with
  | nil => simp [byteLength]
  | cons c cs ih =>
    simp only [List.foldl_cons, byteLength, Nat.zero_add]
    rw [ih, ih c.utf8Size]
    omega

@[simp]
theorem byteLength_nil : byteLength [] = 0 := rfl

@[simp]
theorem byteLength_cons (c : Char) (cs : List Char) :
    byteLength (c :: cs) = c.utf8Size + byteLength cs := by
  simpa [byteLength] using foldl_utf8Size cs c.utf8Size

@[simp]
theorem byteLength_append (xs ys : List Char) :
    byteLength (xs ++ ys) = byteLength xs + byteLength ys := by
  induction xs with
  | nil => simp
  | cons x xs ih => simp [ih, Nat.add_assoc]

/-- Moves characters from the text to the front, which is held in reverse,
until exactly `n` bytes have been moved. -/
def splitLoop : List Char → Nat → List Char → Option (List Char × List Char)
  | rest, 0, front => some (front.reverse, rest)
  | [], _ + 1, _ => none
  | c :: rest, n + 1, front =>
    if c.utf8Size ≤ n + 1 then
      splitLoop rest (n + 1 - c.utf8Size) (c :: front)
    else
      none

/-- Cuts a text after exactly `n` bytes. -/
def splitAt? (cs : List Char) (n : Nat) : Option (List Char × List Char) :=
  splitLoop cs n []

theorem splitLoop_eq_some_iff {cs : List Char} {n : Nat} {front xs ys : List Char} :
    splitLoop cs n front = some (xs, ys) ↔
      ∃ mid, xs = front.reverse ++ mid ∧ cs = mid ++ ys ∧ byteLength mid = n := by
  induction cs generalizing n front with
  | nil =>
    cases n with
    | zero =>
      simp only [splitLoop, Option.some.injEq, Prod.mk.injEq]
      constructor
      · rintro ⟨rfl, rfl⟩
        exact ⟨[], by simp, by simp, by simp⟩
      · rintro ⟨mid, rfl, hmid, _⟩
        obtain ⟨rfl, rfl⟩ := List.nil_eq_append_iff.1 hmid
        simp
    | succ n =>
      simp only [splitLoop, reduceCtorEq, false_iff]
      rintro ⟨mid, _, hmid, hn⟩
      obtain ⟨rfl, rfl⟩ := List.nil_eq_append_iff.1 hmid
      simp at hn
  | cons c cs ih =>
    have hpos := c.utf8Size_pos
    cases n with
    | zero =>
      simp only [splitLoop, Option.some.injEq, Prod.mk.injEq]
      constructor
      · rintro ⟨rfl, rfl⟩
        exact ⟨[], by simp, by simp, by simp⟩
      · rintro ⟨mid, rfl, hmid, hn⟩
        cases mid with
        | nil => simpa using hmid
        | cons d mid =>
          have := d.utf8Size_pos
          simp only [byteLength_cons] at hn
          omega
    | succ n =>
      simp only [splitLoop]
      split
      · rename_i hle
        rw [ih]
        constructor
        · rintro ⟨mid, rfl, rfl, hn⟩
          exact ⟨c :: mid, by simp, by simp, by simp [hn]; omega⟩
        · rintro ⟨mid, rfl, hmid, hn⟩
          cases mid with
          | nil => simp at hn
          | cons d mid =>
            simp only [List.cons_append, List.cons.injEq] at hmid
            obtain ⟨rfl, rfl⟩ := hmid
            simp only [byteLength_cons] at hn
            exact ⟨mid, by simp, rfl, by omega⟩
      · rename_i hle
        simp only [reduceCtorEq, false_iff]
        rintro ⟨mid, _, hmid, hn⟩
        cases mid with
        | nil => simp at hn
        | cons d mid =>
          simp only [List.cons_append, List.cons.injEq] at hmid
          obtain ⟨rfl, _⟩ := hmid
          simp only [byteLength_cons] at hn
          omega

theorem splitAt?_eq_some_iff {cs : List Char} {n : Nat} {xs ys : List Char} :
    splitAt? cs n = some (xs, ys) ↔ cs = xs ++ ys ∧ byteLength xs = n := by
  unfold splitAt?
  rw [splitLoop_eq_some_iff]
  constructor
  · rintro ⟨mid, rfl, rfl, hn⟩
    exact ⟨by simp, by simpa using hn⟩
  · rintro ⟨rfl, hn⟩
    exact ⟨xs, by simp, rfl, hn⟩

/-- The characters between two byte offsets.  There are none when the offsets
are out of order, beyond the text or inside a character. -/
def slice? (cs : List Char) (start stop : Nat) : Option (List Char) :=
  if start ≤ stop then do
    let (_, rest) ← splitAt? cs start
    let (middle, _) ← splitAt? rest (stop - start)
    return middle
  else
    none

theorem slice?_eq_some_iff {cs : List Char} {start stop : Nat} {mid : List Char} :
    slice? cs start stop = some mid ↔
      ∃ xs ys, cs = xs ++ mid ++ ys ∧ byteLength xs = start ∧
        byteLength (xs ++ mid) = stop := by
  unfold slice?
  by_cases h : start ≤ stop
  · simp only [h, if_true]
    constructor
    · intro hs
      cases hfront : splitAt? cs start with
      | none => simp [hfront] at hs
      | some front =>
        obtain ⟨xs, rest⟩ := front
        cases hmid : splitAt? rest (stop - start) with
        | none => simp [hfront, hmid] at hs
        | some middle =>
          obtain ⟨m, ys⟩ := middle
          have hm : m = mid := by simpa [hfront, hmid] using hs
          subst hm
          obtain ⟨rfl, hx⟩ := splitAt?_eq_some_iff.1 hfront
          obtain ⟨rfl, hy⟩ := splitAt?_eq_some_iff.1 hmid
          exact ⟨xs, ys, by simp, hx, by simp; omega⟩
    · rintro ⟨xs, ys, rfl, hx, hy⟩
      have hfront : splitAt? (xs ++ mid ++ ys) start = some (xs, mid ++ ys) :=
        splitAt?_eq_some_iff.2 ⟨by simp, hx⟩
      have hmid : splitAt? (mid ++ ys) (stop - start) = some (mid, ys) :=
        splitAt?_eq_some_iff.2 ⟨rfl, by simp at hy; omega⟩
      rw [hfront]
      simp [hmid]
  · simp only [h, if_false, reduceCtorEq, false_iff]
    rintro ⟨xs, ys, _, hx, hy⟩
    simp at hy
    omega

end Text

/-- The part of a text that a span covers, if it covers one. -/
def Span.covered? (span : Span) (source : String) : Option (List Char) :=
  Text.slice? source.toList span.start span.stop

end ExprTyping
