import LeveledLog.Format.Spec

/-!
# Fitting a value to a width

The rendering of a value is fitted to the width of its specification. Text is measured in
runes and a number in bytes. What is missing is made up by blanks on either side, or by zeros,
which go between the sign or prefix of a number and its digits.
-/

namespace LeveledLog

/-- A rendered value before it is fitted to a width. -/
structure Rendering where
  /-- The sign and the prefix of a number, which stay in front of zeros that are filled in. -/
  lead : Bytes
  rest : Bytes
  /-- Whether zeros may be filled in. -/
  zeroFill : Bool
  /-- Whether it is measured in bytes, as numbers are, and not in runes. -/
  isNumber : Bool
  deriving DecidableEq, Repr

namespace Rendering

/-- Text without a part that zeros would have to stay behind. -/
def plain (s : Bytes) : Rendering := ⟨[], s, true, false⟩

/-- The rendering without padding. -/
def bytes (r : Rendering) : Bytes := r.lead ++ r.rest

/-- A run of blanks. -/
def blanks (n : Nat) : Bytes := List.replicate n ' '.toUInt8

/-- The part of a width that the rendering fills. -/
def size (r : Rendering) : Nat := if r.isNumber then r.bytes.length else Bytes.runeCount r.bytes

/-- How much the rendering falls short of a width. -/
def shortfall (r : Rendering) (width : Option Nat) : Nat := width.getD 0 - r.size

/-- The rendering at the width of the specification. -/
def fit (spec : Spec) (r : Rendering) : Bytes :=
  let missing := r.shortfall spec.width
  if spec.minus then r.bytes ++ blanks missing
  else if spec.zero && r.zeroFill then r.lead ++ Numeral.zeros missing ++ r.rest
  else blanks missing ++ r.bytes

variable {spec : Spec} {r : Rendering}

theorem fit_of_minus (h : spec.minus = true) :
    r.fit spec = r.bytes ++ blanks (r.shortfall spec.width) := if_pos h

theorem fit_of_zeros (hminus : spec.minus = false) (h : spec.zero = true ∧ r.zeroFill = true) :
    r.fit spec = r.lead ++ Numeral.zeros (r.shortfall spec.width) ++ r.rest := by
  simp only [fit, hminus, h, Bool.false_eq_true, if_false, Bool.and_self, if_true]

theorem fit_of_blanks (hminus : spec.minus = false) (h : ¬ (spec.zero = true ∧ r.zeroFill = true)) :
    r.fit spec = blanks (r.shortfall spec.width) ++ r.bytes := by
  simp only [fit, hminus, Bool.and_eq_true, h, Bool.false_eq_true, if_false]

/-- A rendering that fills the width is not padded. -/
theorem fit_of_le (h : spec.width.getD 0 ≤ r.size) : r.fit spec = r.bytes := by
  have hmissing : r.shortfall spec.width = 0 := Nat.sub_eq_zero_of_le h
  simp only [fit, hmissing, blanks, Numeral.zeros, List.replicate_zero, List.append_nil,
    List.nil_append, bytes, ite_self]

/-- Without a width nothing is filled in. -/
theorem fit_of_width_none (h : spec.width = none) (r : Rendering) : r.fit spec = r.bytes := by
  refine fit_of_le ?_
  rw [h]
  exact Nat.zero_le _

end Rendering

end LeveledLog
