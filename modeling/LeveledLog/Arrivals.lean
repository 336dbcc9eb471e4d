import LeveledLog.Bytes

/-!
# Arrivals

A consumer that only ever appends keeps the pieces it got instead of one growing text. The
text is their concatenation.
-/

namespace LeveledLog

/-- The pieces of a text, last first. -/
structure Arrivals where
  pieces : List Bytes
  deriving DecidableEq, Repr

namespace Arrivals

/-- Nothing has arrived. -/
def none : Arrivals := ⟨[]⟩

/-- A text that is there from the start. -/
def ofBytes (s : Bytes) : Arrivals := ⟨[s]⟩

/-- One more piece arrives. -/
def add (a : Arrivals) (piece : Bytes) : Arrivals := ⟨piece :: a.pieces⟩

/-- The whole text. -/
def bytes (a : Arrivals) : Bytes := a.pieces.reverse.flatten

/-- Nothing is the empty text. -/
theorem bytes_none : none.bytes = [] := rfl

/-- A text that is there from the start is the whole text. -/
theorem bytes_ofBytes (s : Bytes) : (ofBytes s).bytes = s := by simp [ofBytes, bytes]

/-- A piece arrives behind what there is. -/
theorem bytes_add (a : Arrivals) (piece : Bytes) : (a.add piece).bytes = a.bytes ++ piece := by
  simp [add, bytes]

end Arrivals

end LeveledLog
