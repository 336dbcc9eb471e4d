import LeveledLog.Format.Spec

/-!
# Templates

A template alternates plain text and slots. A percent sign opens a slot, and the next verb
byte closes it. In plain text a backslash in front of a percent sign or of another backslash
makes that byte plain; every other backslash is plain itself. A slot that is never closed is
plain text to the end of the template.
-/

namespace LeveledLog.Template

open Bytes (backslash)
open Spec (percent)

/-- A part of a template as it was read. -/
inductive Piece where
  /-- A run of plain text. An escaped run stands behind a backslash that is not part of it. -/
  | plain (escaped : Bool) (text : Bytes)
  /-- A slot, from its percent sign to its verb. -/
  | slot (text : Bytes)
  deriving DecidableEq, Repr

namespace Piece

/-- The bytes of the template that a piece covers. -/
def source : Piece → Bytes
  | plain true text => backslash :: text
  | plain false text => text
  | slot text => text

end Piece

/-- What is being read. The bytes read so far are kept last first. -/
inductive Reading where
  | plain (escaped : Bool) (reversed : Bytes)
  | slot (reversed : Bytes)
  deriving DecidableEq, Repr

/-- The piece that is complete when its reading stops here. An empty run is no piece, and an
open slot is plain text. -/
def Reading.stop : Reading → List Piece
  | plain _ [] => []
  | plain escaped reversed => [.plain escaped reversed.reverse]
  | slot reversed => [.plain false reversed.reverse]

/-- Whether a byte loses its meaning behind a backslash. -/
def isEscapable (b : UInt8) : Bool := b == percent || b == backslash

/-- Read the rest of a template. -/
def piecesFrom : Reading → Bytes → List Piece
  | reading, [] => reading.stop
  | .slot reversed, b :: rest =>
    if Verb.isVerb b then .slot (b :: reversed).reverse :: piecesFrom (.plain false []) rest
    else piecesFrom (.slot (b :: reversed)) rest
  | .plain escaped reversed, [b] =>
    if b == percent then (Reading.plain escaped reversed).stop ++ piecesFrom (.slot [b]) []
    else piecesFrom (.plain escaped (b :: reversed)) []
  | .plain escaped reversed, b :: c :: rest =>
    if b == backslash && isEscapable c then
      (Reading.plain escaped reversed).stop ++ piecesFrom (.plain true [c]) rest
    else if b == percent then
      (Reading.plain escaped reversed).stop ++ piecesFrom (.slot [b]) (c :: rest)
    else piecesFrom (.plain escaped (b :: reversed)) (c :: rest)

/-- The pieces of a template in order. -/
def pieces (template : Bytes) : List Piece := piecesFrom (.plain false []) template

/-- A slot at its place in a template. -/
structure Slot where
  /-- The text from the percent sign to the verb. -/
  text : Bytes
  /-- How many bytes of the template stand before it. -/
  offset : Nat
  /-- How many slots stand before it, which is the place of its argument. -/
  ordinal : Nat
  deriving DecidableEq, Repr

/-- How many backslashes a slot writes in front of its value: every second one of its own. -/
def Slot.markers (s : Slot) : Nat := s.text.count backslash / 2

/-- What a piece contributes to a line. -/
inductive Token where
  | text (content : Bytes)
  | slot (slot : Slot)
  deriving DecidableEq, Repr

/-- Give every slot its offset and its ordinal, counted from those of the first piece. -/
def locate (offset ordinal : Nat) : List Piece → List Token
  | [] => []
  | p@(.plain _ text) :: rest => .text text :: locate (offset + p.source.length) ordinal rest
  | p@(.slot text) :: rest =>
    .slot ⟨text, offset, ordinal⟩ :: locate (offset + p.source.length) (ordinal + 1) rest

/-- The tokens of a template in order. -/
def tokens (template : Bytes) : List Token := locate 0 0 (pieces template)

/-- The slot of a token, if it is one. -/
def Token.slot? : Token → Option Slot
  | .text _ => none
  | .slot s => some s

/-- The slots of a template in order. -/
def slots (template : Bytes) : List Slot := (tokens template).filterMap Token.slot?

/-- The number of slots of a template. -/
def slotCount (template : Bytes) : Nat := (slots template).length

end LeveledLog.Template
