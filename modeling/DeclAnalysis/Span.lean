/-!
# Source spans

A span is a half-open range of byte offsets in the text of one unit. Offsets are 32-bit words, so
the greatest offset is a value of the type and can serve as the position "after everything".

Nothing forces `start ≤ stop`: a span is reported as it was given, and only `length?` looks at the
order of its ends.
-/

namespace DeclAnalysis

/-- A half-open range of byte offsets. -/
structure Span where
  /-- The first offset of the range. -/
  start : UInt32
  /-- The first offset past the range. -/
  stop : UInt32
deriving DecidableEq

namespace Span

/-- The empty span at the start of a unit, used where no position is known. -/
def zero : Span := ⟨0, 0⟩

/-- The position after every other one. -/
def last : Span := ⟨0xFFFFFFFF, 0xFFFFFFFF⟩

/-- The empty span at an offset. -/
def point (offset : UInt32) : Span := ⟨offset, offset⟩

/-- The number of offsets in the range, unless its ends are reversed. -/
def length? (s : Span) : Option UInt32 :=
  if s.start ≤ s.stop then some (s.stop - s.start) else none

/-- A span is empty when its ends coincide. -/
def isEmpty (s : Span) : Bool := s.start == s.stop

/-- Whether an offset lies in the range. -/
def contains (s : Span) (offset : UInt32) : Bool :=
  decide (s.start ≤ offset) && decide (offset < s.stop)

/-- The least span with both starts and both stops in it. -/
def merge (s t : Span) : Span where
  start := if s.start ≤ t.start then s.start else t.start
  stop := if s.stop ≤ t.stop then t.stop else s.stop

/-- Spans are ordered by their start, then by their stop. -/
def le (s t : Span) : Bool :=
  decide (s.start < t.start) || (s.start == t.start && decide (s.stop ≤ t.stop))

/-- The three-way comparison that belongs to `le`. -/
def order (s t : Span) : Ordering :=
  if s = t then .eq else if s.le t then .lt else .gt

/-- The text of a span, such as `3..7`. -/
def text (s : Span) : String :=
  toString s.start.toNat ++ ".." ++ toString s.stop.toNat

/-! ### The order is total -/

theorem le_iff {s t : Span} :
    s.le t = true ↔
      s.start.toNat < t.start.toNat ∨
        s.start.toNat = t.start.toNat ∧ s.stop.toNat ≤ t.stop.toNat := by
  simp [le, UInt32.lt_iff_toNat_lt, UInt32.le_iff_toNat_le, ← UInt32.toNat_inj]

theorem le_total (s t : Span) : (s.le t || t.le s) = true := by
  rw [Bool.or_eq_true, le_iff, le_iff]
  omega

theorem le_trans (s t u : Span) (hst : s.le t = true) (htu : t.le u = true) : s.le u = true := by
  rw [le_iff] at *
  omega

end Span

end DeclAnalysis
