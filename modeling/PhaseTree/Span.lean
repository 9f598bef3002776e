set_option autoImplicit false

namespace PhaseTree

class Synthetic (α : Type) where
  marker : α
  isMarker : α → Bool

instance : Synthetic Unit := ⟨(), fun _ => true⟩

instance {α : Type} : Synthetic (Option α) := ⟨none, Option.isNone⟩

structure Span where
  start : UInt32
  stop : UInt32
  deriving DecidableEq

namespace Span

/-- No reader of source text produces it, because `start` lies beyond `stop`. -/
def synthetic : Span := ⟨0xffffffff, 0⟩

instance : Synthetic Span := ⟨synthetic, (· == synthetic)⟩

instance : Ord Span := ⟨compareLex (compareOn Span.start) (compareOn Span.stop)⟩

def isSynthetic (span : Span) : Bool := Synthetic.isMarker span

def length (span : Span) : UInt32 := if span.start ≤ span.stop then span.stop - span.start else 0

def isEmpty (span : Span) : Bool := span.length == 0

/-- The least span that covers both; a synthetic operand contributes nothing. -/
def merge (a b : Span) : Span :=
  if a.isSynthetic then b
  else if b.isSynthetic then a
  else ⟨min a.start b.start, max a.stop b.stop⟩

def describe (span : Span) : String :=
  if span.isSynthetic then "<synthetic>"
  else span.start.toNat.repr ++ ".." ++ span.stop.toNat.repr

theorem isSynthetic_iff (span : Span) : span.isSynthetic = true ↔ span = synthetic := by
  simp [isSynthetic, Synthetic.isMarker]

end Span

end PhaseTree
