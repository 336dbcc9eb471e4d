import LeveledLog.SystemError

/-!
# Paths

A path is read as steps from the root of a file system or from the directory a program works
in. A separator that ends it says that it means a directory.
-/

namespace LeveledLog

/-- One step along a path. -/
inductive Path.Step where
  | stay
  | up
  | down (name : Bytes)
  deriving DecidableEq, Repr

/-- A path as steps. -/
structure Path where
  /-- Whether it starts at the root. -/
  fromRoot : Bool
  steps : List Path.Step
  /-- Whether a separator ends it. -/
  closed : Bool
  deriving DecidableEq, Repr

namespace Path

/-- The byte between the parts of a path. -/
def separator : UInt8 := '/'.toUInt8

/-- The greatest length of a path. -/
def maxLength : Nat := 4095

/-- The greatest length of a name. -/
def maxName : Nat := 255

/-- The step that a part of a path stands for. -/
def Step.ofPart (part : Bytes) : Step :=
  if part = utf8 "." then .stay
  else if part = utf8 ".." then .up
  else .down part

/-- Read a path. It ends at its first zero byte, and separators in a row count as one. -/
def parse (text : Bytes) : Except SystemError Path :=
  let text := Bytes.beforeZero text
  if text.isEmpty then .error .notFound
  else if maxLength < text.length then .error .nameTooLong
  else
    let parts := (text.splitOn separator).filter fun part => !part.isEmpty
    .ok ⟨text.head? = some separator, parts.map Step.ofPart, text.getLast? = some separator⟩

end Path

end LeveledLog
