/-!
# Spans of source text

A `Span` names a range of lines and bytes of one source text. Lines count from one; both byte
offsets belong to the range. A span whose first line is zero covers nothing: it stands for code
that no source text was written for. Texts are assumed to have fewer than 2³² lines.
-/

namespace QueryTaint

/-- A range of a source text: first and last line, first and last byte. -/
structure Span where
  startLine : Nat
  endLine : Nat
  startPos : Nat
  endPos : Nat
deriving DecidableEq, Inhabited, Repr

namespace Span

/-- The span of code that has no source text. -/
def none : Span := ⟨0, 0, 0, 0⟩

/-- Whether the span stands for code without source text. -/
def isSynthetic (s : Span) : Bool := s.startLine == 0

/-- Whether the span covers some bytes of a text of `size` bytes and nothing beyond it. -/
def fits (s : Span) (size : Nat) : Bool :=
  !s.isSynthetic && s.startPos ≤ s.endPos && s.endPos < size

/-- The bytes that the span covers, none when it does not fit. -/
def sliceBytes (s : Span) (bytes : ByteArray) : ByteArray :=
  if s.fits bytes.size then bytes.extract s.startPos (s.endPos + 1) else .empty

/-- The text that the span covers. It is empty when the span does not fit, and when one of its
ends divides a character: the covered bytes are then no text. -/
def slice (s : Span) (text : String) : String :=
  (String.fromUTF8? (s.sliceBytes text.toUTF8)).getD ""

/-- The smallest span that covers both; a synthetic span adds nothing. -/
def merge (a b : Span) : Span :=
  if a.isSynthetic then b
  else if b.isSynthetic then a
  else ⟨min a.startLine b.startLine, max a.endLine b.endLine,
    min a.startPos b.startPos, max a.endPos b.endPos⟩

end Span

end QueryTaint
