import LeveledLog.Rendering.Real
import LeveledLog.Rendering.Text

/-!
# Values

A value is rendered by its kind and the verb. `value` refuses a verb that does not accept
the kind and fits every other rendering to the width.
-/

namespace LeveledLog

/-- Whether a verb asks for the default text of a kind. -/
def Verb.isDefault (v : Verb) : Bool := v == .default || v == .text

namespace Rendering

/-- A whole number under a verb that is not the type verb. -/
def whole (spec : Spec) (w : Word) : Rendering :=
  match spec.verb with
  | .char => plain (Utf8.encode (codePoint w).toNat)
  | .quoted => plain (Quoted.rune (codePoint w).toNat)
  | .unicode => plain (unicode spec.sharp w.bits.toNat)
  | .scientific | .scientificUpper | .fixed | .general | .generalUpper => real spec (.ofInt w.toInt)
  | _ => word spec w

/-- The rendering of an argument under a verb that accepts it. -/
def ofArgument (spec : Spec) (a : Argument) : Rendering :=
  if spec.verb = .type then plain a.kind.name
  else match a with
    | .bool b => plain (utf8 (if b then "true" else "false"))
    | .int n => whole spec (.signed n)
    | .uint n => whole spec (.unsigned n)
    | .float x => real spec x
    | .char c =>
      if spec.verb.isDefault then plain (Utf8.encode c.toNat)
      else whole spec (.signed (.ofNat c.toNat))
    | .string s => plain (string spec s)
    | .pointer p => address spec p
    | .duration d =>
      if spec.verb.isDefault then plain d.text else whole spec (.signed d.nanoseconds)

/-- The text of an argument at the width of the specification. -/
def value (spec : Spec) (a : Argument) : Except FormatFault Bytes :=
  if spec.verb.accepts a.kind then .ok ((ofArgument spec a).fit spec)
  else .error (.inapplicable spec.verb a.kind)

end Rendering

end LeveledLog
