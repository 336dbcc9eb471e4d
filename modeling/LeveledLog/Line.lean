import LeveledLog.Format.Template
import LeveledLog.Level
import LeveledLog.Rendering.Value

/-!
# Lines

A line is a stamp, the tag of its level, a body and the byte that ends it. The body is a
message as it is, or a template whose slots are filled with arguments. A template is checked
against its arguments before any part of the line is made.
-/

namespace LeveledLog.Line

open Template (Slot Token)

/-- Whether a slot is well formed and renders the argument in its place. -/
def checkSlot (arguments : List Argument) (slot : Slot) : Except FormatFault Unit :=
  match arguments[slot.ordinal]? with
  | none => .error (.missing slot.text slot.offset arguments.length)
  | some argument => do
    let spec ← Spec.parse slot.text
    if spec.verb.accepts argument.kind then .ok ()
    else .error (.unrenderable slot.text slot.offset argument.kind)

/-- Whether a template and its arguments fit together. The first slot that does not fit is
reported, and a surplus of arguments after all slots. -/
def check (template : Bytes) (arguments : List Argument) : Except FormatFault Unit := do
  (Template.slots template).forM (checkSlot arguments)
  if Template.slotCount template = arguments.length then .ok ()
  else .error (.miscounted (Template.slotCount template) arguments.length)

/-- The text of the argument of a slot. -/
def slotValue (arguments : List Argument) (slot : Slot) : Except FormatFault Bytes := do
  let spec ← Spec.parse slot.text
  match arguments[slot.ordinal]? with
  | none => .error (.missing slot.text slot.offset arguments.length)
  | some argument => Rendering.value spec argument

/-- The parts a token contributes: plain text as it is; for a slot one backslash for each of
its markers, then its value. -/
def tokenParts (arguments : List Argument) : Token → List (Except FormatFault Bytes)
  | .text content => [.ok content]
  | .slot slot =>
    List.replicate slot.markers (.ok [Bytes.backslash]) ++ [slotValue arguments slot]

/-- The parts of a filled template in order. -/
def bodyParts (template : Bytes) (arguments : List Argument) : List (Except FormatFault Bytes) :=
  (Template.tokens template).flatMap (tokenParts arguments)

/-- A line in the parts in which it is handed on. -/
def parts (stamp : Bytes) (level : Level) (body : List (Except FormatFault Bytes)) :
    List (Except FormatFault Bytes) :=
  .ok stamp :: .ok level.tag :: body ++ [.ok [Bytes.lineFeed]]

/-- The text of all parts that could be made. -/
def textOf (parts : List (Except FormatFault Bytes)) : Bytes :=
  parts.flatMap fun part => part.toOption.getD []

end LeveledLog.Line
