import LeveledLog.Format.Verb

/-!
# Format faults

Why a template, its placeholders and its arguments do not fit together, one constructor a
cause, and the message that reports each.
-/

namespace LeveledLog

/-- A reason to refuse a template or an argument. -/
inductive FormatFault where
  /-- The text does not run from a percent sign to a verb. -/
  | malformed (placeholder : Bytes)
  /-- A width or a precision has too many digits. -/
  | oversized (placeholder : Bytes)
  /-- A byte inside the placeholder has no meaning at its place. -/
  | unsupported (modifier : UInt8) (placeholder : Bytes)
  /-- The verb does not render arguments of the kind. -/
  | inapplicable (verb : Verb) (kind : Kind)
  | missing (placeholder : Bytes) (offset supplied : Nat)
  /-- The verb of the placeholder does not render its argument. -/
  | unrenderable (placeholder : Bytes) (offset : Nat) (kind : Kind)
  /-- The template has fewer placeholders than there are arguments. -/
  | miscounted (placeholders supplied : Nat)
  deriving DecidableEq, Repr

namespace FormatFault

open Numeral (decimal)

/-- A placeholder cited with its place in the template. -/
def located (placeholder : Bytes) (offset : Nat) : Bytes :=
  Bytes.cited placeholder ++ utf8 " at offset " ++ decimal offset

/-- The message of a fault. -/
def message : FormatFault → Bytes
  | malformed p => utf8 "malformed placeholder " ++ Bytes.cited p
  | oversized p => utf8 "width or precision too large in " ++ Bytes.cited p
  | unsupported m p => utf8 "unsupported modifier '" ++ m :: utf8 "' in " ++ Bytes.cited p
  | inapplicable v k =>
    utf8 "verb %" ++ v.byte :: utf8 " is not applicable to " ++ k.name ++ utf8 " argument"
  | missing p offset supplied =>
    utf8 "missing argument for " ++ located p offset ++ utf8 " (" ++ decimal supplied ++
      utf8 " supplied)"
  | unrenderable p offset k =>
    located p offset ++ utf8 " cannot render a " ++ k.name ++ utf8 " argument"
  | miscounted placeholders supplied =>
    utf8 "format has " ++ decimal placeholders ++ utf8 " placeholders but " ++
      decimal supplied ++ utf8 " arguments were supplied"

end FormatFault

end LeveledLog
