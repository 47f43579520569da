/-!
# Byte spans

A span is a pair of byte offsets into a source text.  Nothing forces the
offsets to be in order or inside the text; what a span covers is decided
against a particular text.
-/

namespace ExprTyping

/-- The half-open byte range from `start` to `stop`. -/
structure Span where
  start : Nat
  stop : Nat
deriving DecidableEq, Repr, Inhabited

namespace Span

/-- The span of something that stands for no source text. -/
def zero : Span := ⟨0, 0⟩

/-- The written form of a span, such as `3..7`. -/
def render (span : Span) : String :=
  s!"{span.start}..{span.stop}"

end Span
end ExprTyping
