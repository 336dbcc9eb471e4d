import LeveledLog.Hexadecimal
import LeveledLog.Rendering.Integer
import LeveledLog.Shortest

/-!
# Floating-point numbers

A finite number is written as a sign and the text of its absolute value in the notation the
verb asks for. General notation without a precision is the shortest text that reads back.
What is no finite number has a name, which zeros never fill up.
-/

namespace LeveledLog.Rendering

/-- The number of places when scientific or fixed notation has no precision. -/
def defaultPlaces : Nat := 6

/-- General notation of the absolute value. Only the general verbs have an alternate form of
the shortest text. -/
def generalText (spec : Spec) (x : Binary64) : Bytes :=
  let upper := spec.verb == .generalUpper
  match spec.precision with
  | some precision => x.toDyadic.toDecimal.general precision upper spec.sharp
  | none =>
    let s := x.shortest upper
    if spec.sharp && (spec.verb == .general || upper) then padSignificant s else s

/-- The absolute value of a finite number in the notation of the verb. -/
def realText (spec : Spec) (x : Binary64) : Bytes :=
  let d := x.toDyadic.toDecimal
  let places := spec.precision.getD defaultPlaces
  match spec.verb with
  | .scientific => (d.scientific places).text false spec.sharp
  | .scientificUpper => (d.scientific places).text true spec.sharp
  | .fixed => (d.fixed places).text spec.sharp
  | .hex => x.hexadecimal spec.precision false spec.sharp
  | .hexUpper => x.hexadecimal spec.precision true spec.sharp
  | _ => generalText spec x

/-- A floating-point number. -/
def real (spec : Spec) (x : Binary64) : Rendering :=
  if x.isNaN then ⟨[], utf8 "NaN", false, false⟩
  else if x.isInfinite then ⟨[], utf8 (if x.negative then "-Inf" else "+Inf"), false, false⟩
  else ⟨spec.sign x.negative, realText spec x, true, true⟩

end LeveledLog.Rendering
