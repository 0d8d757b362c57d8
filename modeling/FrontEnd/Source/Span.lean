/-!
# Source positions

A position is a byte offset into the UTF-8 text of one file. A span is a half-open range of
such offsets. The union of two spans only means something inside one file; the checked form of
that operation stands with the registry of files.
-/

namespace FrontEnd

/-- The number under which a source file is registered. -/
structure FileId where
  /-- Files are numbered from zero in the order of their registration. -/
  index : Nat
deriving DecidableEq, Inhabited

/-- The bytes from `pos` up to `pos + len`, the end excluded, of one file. -/
structure Span where
  /-- Offset of the first byte. -/
  pos : Nat
  /-- Number of bytes. -/
  len : Nat
  /-- The file the offsets refer to. -/
  file : FileId
deriving DecidableEq, Inhabited

namespace Span

/-- The first offset after the span. -/
def stop (s : Span) : Nat := s.pos + s.len

/-- The smallest span that holds both spans, read in the file of the first. -/
def cover (a b : Span) : Span :=
  let start := min a.pos b.pos
  ⟨start, max a.stop b.stop - start, a.file⟩

/-- A cover starts at the smaller of the two starts. -/
theorem cover_pos (a b : Span) : (a.cover b).pos = min a.pos b.pos := rfl

/-- A cover ends at the larger of the two ends. -/
theorem cover_stop (a b : Span) : (a.cover b).stop = max a.stop b.stop := by
  simp only [cover, stop]
  omega

end Span

end FrontEnd
