import ExprTyping.Name

/-!
# Types

The types of expressions.  `unknown` is the type of an expression whose type a
failure made unknowable; it satisfies no requirement and is never itself a
reason to report an error.

Types are compared structurally: structs by their name, function types by their
parameters and result.
-/

namespace ExprTyping

/-- The type of an expression. -/
inductive Ty where
  | int
  | bool
  /-- The type of what is evaluated for its effect. -/
  | void
  | list (element : Ty)
  | struct (name : Name)
  | func (params : List Ty) (result : Ty)
  | unknown
deriving Repr, Inhabited

namespace Ty

mutual

/-- Structural comparison of two types. -/
def same : Ty → Ty → Bool
  | .int, .int => true
  | .bool, .bool => true
  | .void, .void => true
  | .list a, .list b => a.same b
  | .struct m, .struct n => m = n
  | .func ps r, .func qs s => sameAll ps qs && r.same s
  | .unknown, .unknown => true
  | _, _ => false

/-- Structural comparison of two lists of types. -/
def sameAll : List Ty → List Ty → Bool
  | [], [] => true
  | a :: as, b :: bs => a.same b && sameAll as bs
  | _, _ => false

end

mutual

theorem same_refl : ∀ t : Ty, t.same t = true
  | .int | .bool | .void | .unknown => rfl
  | .list a => by simp [same, same_refl a]
  | .struct n => by simp [same]
  | .func ps r => by simp [same, sameAll_refl ps, same_refl r]

theorem sameAll_refl : ∀ ts : List Ty, sameAll ts ts = true
  | [] => rfl
  | t :: ts => by simp [sameAll, same_refl t, sameAll_refl ts]

end

mutual

theorem eq_of_same : ∀ {a b : Ty}, a.same b = true → a = b
  | .int, b, h => by cases b <;> simp_all [same]
  | .bool, b, h => by cases b <;> simp_all [same]
  | .void, b, h => by cases b <;> simp_all [same]
  | .unknown, b, h => by cases b <;> simp_all [same]
  | .struct _, b, h => by cases b <;> simp_all [same]
  | .list a, b, h => by
    cases b with
    | list b => rw [eq_of_same (a := a) (b := b) (by simpa [same] using h)]
    | _ => simp [same] at h
  | .func ps r, b, h => by
    cases b with
    | func qs s =>
      simp only [same, Bool.and_eq_true] at h
      rw [eq_of_sameAll h.1, eq_of_same h.2]
    | _ => simp [same] at h

theorem eq_of_sameAll : ∀ {as bs : List Ty}, sameAll as bs = true → as = bs
  | [], [], _ => rfl
  | [], _ :: _, h => by simp [sameAll] at h
  | _ :: _, [], h => by simp [sameAll] at h
  | a :: as, b :: bs, h => by
    simp only [sameAll, Bool.and_eq_true] at h
    rw [eq_of_same h.1, eq_of_sameAll h.2]

end

theorem same_iff_eq {a b : Ty} : a.same b = true ↔ a = b :=
  ⟨eq_of_same, fun h => h ▸ same_refl a⟩

instance : DecidableEq Ty := fun _ _ =>
  decidable_of_iff _ same_iff_eq

/-- Whether the type is unknowable. -/
def isUnknown : Ty → Bool
  | .unknown => true
  | _ => false

def isInt : Ty → Bool
  | .int => true
  | _ => false

def isBool : Ty → Bool
  | .bool => true
  | _ => false

def isList : Ty → Bool
  | .list _ => true
  | _ => false

def isStruct : Ty → Bool
  | .struct _ => true
  | _ => false

def isFunc : Ty → Bool
  | .func _ _ => true
  | _ => false

/-- The element type of a list type. -/
def element? : Ty → Option Ty
  | .list element => some element
  | _ => none

/-- Whether a value of the one type may be appended to a list of the other.
Only the outermost kind is compared, so any struct joins a list of structs and
any list a list of lists. -/
def joins : Ty → Ty → Bool
  | .int, .int => true
  | .bool, .bool => true
  | .struct _, .struct _ => true
  | .list _, .list _ => true
  | _, _ => false

/-- The list type nested `depth` times around an element type. -/
def nest (element : Ty) : Nat → Ty
  | 0 => element
  | depth + 1 => .list (nest element depth)

@[simp]
theorem isUnknown_iff {t : Ty} : t.isUnknown = true ↔ t = .unknown := by
  cases t <;> simp [isUnknown]

end Ty
end ExprTyping
