import LeveledLog.Command.Relay

/-!
# Launching the command

A host opens destinations besides holding dialogues. The command is launched on a host by
reading its arguments, taking its settings from the environment and opening its destination;
what results is a relay at work, or an exit status when there is nothing to relay.
-/

namespace LeveledLog.Command

/-- Where lines go. -/
inductive Destination where
  | file (path : Bytes)
  | network (host : Bytes) (port : Nat)
  | standardOutput
  deriving DecidableEq, Repr

/-- The destination that options name. -/
def Options.destination (o : Options) : Destination :=
  if !o.path.isEmpty then .file o.path
  else if !o.host.isEmpty then .network o.host o.port
  else .standardOutput

/-- A partner that can open destinations. -/
structure Host (m : Type → Type) where
  partner : Partner m
  openSink : Destination → m (Except Fault Sink)
  /-- The size of its pages of memory; not positive if it does not tell it. -/
  pageSize : Int64

/-- The greatest size of a block of memory. -/
def maxBlock : Nat := 0x7FFFFFFFFFFFFFFF

/-- The size of the memory that a program can get. -/
def memory : Nat := 0x1000000000

/-- A destination is of use only if there is memory for the buffer before it. -/
def withMemory (settings : Settings) (opened : Except Fault Sink) : Except Fault Sink := do
  let sink ← opened
  if maxBlock < settings.capacity then .error .oversizedBlock
  else if memory ≤ settings.capacity then .error .outOfMemory
  else return sink

/-- Launch the command. -/
def launch {m : Type → Type} [Monad m] (h : Host m) (arguments : List Bytes)
    (environment : Environment) (now : Instant) : m (Except UInt8 Relay) := do
  match read arguments with
  | .help => return .error (← help.run h.partner)
  | .refuse fault => return .error (← (refuse fault).run h.partner)
  | .work options =>
    let (stamps, settings) ← (prepare now environment h.pageSize).run h.partner
    let opened ← h.openSink options.destination
    (open? options stamps settings h.pageSize (withMemory settings opened)).run h.partner

/-- Run the command on an input and give its exit status. -/
def execute {m : Type → Type} [Monad m] (h : Host m) (arguments : List Bytes)
    (environment : Environment) (now : Instant) (input : Bytes) : m UInt8 := do
  match ← launch h arguments environment now with
  | .error status => return status
  | .ok relay => (relay.serve input).run h.partner

end LeveledLog.Command
