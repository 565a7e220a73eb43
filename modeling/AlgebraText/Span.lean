/-!
# Spans of source text

A span is a half-open range of byte offsets into a source text. Every token, every node of a parse
tree and every error points at the text through spans.

## What this module delivers

* `Span`, with its text form `start..stop`;
* `Span.through`, the hull of two spans read from left to right;
* `byteSize`, the length in bytes of a list of characters.
-/

set_option autoImplicit false

namespace AlgebraText

/-- A half-open range of byte offsets, `start` included and `stop` excluded. -/
structure Span where
  /-- Offset of the first byte. -/
  start : Nat
  /-- Offset just past the last byte. -/
  stop : Nat
deriving DecidableEq, Repr, Inhabited

namespace Span

/-- The empty span at an offset. -/
def point (offset : Nat) : Span := ⟨offset, offset⟩

/-- The span from the start of the first argument to the end of the second. -/
def through (first last : Span) : Span := ⟨first.start, last.stop⟩

/-- A span is written as its two offsets with two points between them. -/
def text (span : Span) : String := toString span.start ++ ".." ++ toString span.stop

end Span

/-- The number of bytes a list of characters takes up in UTF-8. -/
def byteSize : List Char → Nat
  | [] => 0
  | c :: cs => c.utf8Size + byteSize cs

@[simp]
theorem byteSize_nil : byteSize [] = 0 := rfl

@[simp]
theorem byteSize_cons (c : Char) (cs : List Char) :
    byteSize (c :: cs) = c.utf8Size + byteSize cs := rfl

/-- Byte lengths add up under concatenation. -/
@[simp]
theorem byteSize_append (xs ys : List Char) :
    byteSize (xs ++ ys) = byteSize xs + byteSize ys := by
  induction xs with
  | nil => simp
  | cons c xs ih => simp [ih, Nat.add_assoc]

end AlgebraText
