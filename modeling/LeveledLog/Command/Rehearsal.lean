import LeveledLog.Bench
import LeveledLog.Command.Launch

/-!
# Rehearsals

A rehearsal runs the command on a bench. The bench has files and a standard output, and no
network.
-/

namespace LeveledLog.Command

/-- Open a destination on the bench. -/
def openOnBench (b : Bench) : Destination → Except Fault Sink × Bench
  | .file path =>
    match b.seatFile false path with
    | .error fault => (.error fault, b)
    | .ok (sink, b) => (.ok sink, b)
  | .network host port => (.error (.cannotConnect host port .unreachable), b)
  | .standardOutput =>
    let (sink, b) := b.seatOutput false
    (.ok sink, b)

/-- The bench as a host. -/
def benchHost : Host (StateM Bench) where
  partner := Bench.partner
  openSink destination := fun b => openOnBench b destination
  pageSize := 4096

/-- Run the command on a bench: its exit status and the bench afterwards. -/
def rehearse (b : Bench) (arguments : List Bytes) (environment : Environment) (now : Instant)
    (input : Bytes) : UInt8 × Bench :=
  execute benchHost arguments environment now input b

end LeveledLog.Command
