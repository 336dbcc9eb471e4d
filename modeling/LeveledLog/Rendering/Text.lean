import LeveledLog.Quoted
import LeveledLog.Rendering.Layout
import LeveledLog.Word

/-!
# Text and characters

Text is cut to the precision in runes and then written plainly or quoted. The hexadecimal
verbs write its bytes instead, and for them the precision counts bytes. An integer stands
for the character with that code point.
-/

namespace LeveledLog.Rendering

/-- The bytes of a text in base sixteen. The blank flag separates them. The alternate form
writes the prefix in front of each separated byte, or once in front of all. -/
def hexBytes (spec : Spec) (s : Bytes) : Bytes :=
  let upper := spec.verb == .hexUpper
  let mark := if spec.sharp then utf8 (if upper then "0X" else "0x") else []
  match spec.precision.elim s s.take with
  | [] => []
  | b :: rest =>
    let later := if spec.space then ' '.toUInt8 :: mark else []
    mark ++ Numeral.hexPair upper b ++ rest.flatMap fun b => later ++ Numeral.hexPair upper b

/-- The part of a text that the precision selects. -/
def cut (precision : Option Nat) (s : Bytes) : Bytes :=
  precision.elim s fun n => Bytes.takeRunes n s

/-- Text in the form the verb asks for. -/
def string (spec : Spec) (s : Bytes) : Bytes :=
  match spec.verb with
  | .hex | .hexUpper => hexBytes spec s
  | .quoted =>
    let s := cut spec.precision s
    if spec.sharp && Quoted.isRaw s then Quoted.raw s else Quoted.literal s
  | .default =>
    let s := cut spec.precision s
    if spec.sharp then Quoted.literal s else s
  | _ => cut spec.precision s

/-- The code point that a word stands for, in 32 bits. A word that is negative or beyond all code
points stands for the replacement character. -/
def codePoint (w : Word) : UInt32 :=
  if w.negative || 0x10FFFF < w.bits then .ofNat Utf8.replacement else w.bits.toUInt32

/-- Whether a code point can be shown as a character. -/
def isShown (cp : Nat) : Bool := 0x20 ≤ cp && cp != 0x7F && decide (Utf8.IsScalar cp)

/-- Unicode notation of a code point, in the alternate form followed by the character. -/
def unicode (alternate : Bool) (cp : Nat) : Bytes :=
  utf8 "U+" ++ Numeral.zeroPad 4 (Numeral.text 16 true cp) ++
    if alternate && isShown cp then
      utf8 " " ++ Bytes.singleQuote :: Utf8.encode cp ++ [Bytes.singleQuote]
    else []

end LeveledLog.Rendering
