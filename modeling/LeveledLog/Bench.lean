import LeveledLog.Descriptor
import LeveledLog.Dialogue
import LeveledLog.Store

/-!
# The bench

The bench is a partner for dialogues that lives in memory. It has sinks of every kind, a
store of files, the standard output and a console, and it records which bytes each sink was
offered and took.
-/

namespace LeveledLog

/-- How a sink that follows a script answers one offer. -/
inductive ScriptedAnswer where
  | everything
  | atMost (count : Nat)
  /-- It takes everything and claims to have taken more. -/
  | overclaim (excess : Nat)
  deriving DecidableEq, Repr

/-- The answer to an offer of `offered` bytes. -/
def ScriptedAnswer.answer (offered : Nat) : ScriptedAnswer → Nat
  | everything => offered
  | atMost count => min count offered
  | overclaim excess => offered + excess

/-- What a descriptor on the bench leads to. -/
inductive Device where
  | file (place : Place)
  | output
  | discard
  | failing (cause : SystemError)
  deriving DecidableEq, Repr

/-- What stands behind a sink. -/
inductive Outlet where
  /-- A memory that takes everything and counts the offers. -/
  | memory (contents : Arrivals) (offers : Nat)
  /-- A script of answers, after which everything is taken. -/
  | script (answers : List ScriptedAnswer)
  | descriptor (descriptor : Descriptor) (device : Device)
  deriving DecidableEq, Repr

/-- A sink on the bench with the record of what happened to it. -/
structure Seat where
  name : Bytes
  /-- Its number among the sinks that are listed in reports, if it is one. -/
  listing : Option Nat
  outlet : Outlet
  /-- The sizes of the offers since the last report with the answers to them, last first. -/
  offers : List (Nat × Nat)
  /-- The bytes taken since the last report. -/
  taken : Arrivals
  /-- Whether it was released since the last report. -/
  gone : Bool
  deriving DecidableEq, Repr

/-- Whether anything happened to a sink since the last report. -/
def Seat.isActive (s : Seat) : Bool := !s.offers.isEmpty || s.gone

/-- A world in memory. -/
structure Bench where
  store : Store
  console : Console
  /-- The sinks in the order in which they were made; the place of a sink is its identity. -/
  seats : List Seat
  /-- What reached the standard output. -/
  output : Arrivals
  outputFull : Bool
  /-- What the console has shown since it was last read. -/
  shown : Bytes
  /-- What the observer of reports got since it was last asked. -/
  captured : List Bytes
  deriving DecidableEq, Repr

namespace Bench

/-- A bench with files and no sinks. -/
def create (store : Store) (console : Console) : Bench := ⟨store, console, [], .none, false, [], []⟩

/-- The number the next listed sink gets. -/
def nextListing (b : Bench) : Nat := b.seats.countP fun s => s.listing.isSome

/-- Put a sink on the bench. -/
def seat (b : Bench) (listed : Bool) (name : Bytes) (outlet : Outlet) : Sink × Bench :=
  (⟨b.seats.length, name⟩,
    { b with seats := b.seats ++
        [⟨name, if listed then some b.nextListing else none, outlet, [], .none, false⟩] })

/-- Put a sink that leads to a descriptor on the bench. -/
def seatDescriptor (b : Bench) (listed : Bool) (d : Descriptor) (device : Device) :
    Sink × Bench :=
  b.seat listed d.name (.descriptor d device)

/-- The number of the first descriptor that a program opens. -/
def firstDescriptor : Nat := 3

/-- The device behind the standard output. -/
def outputDevice (b : Bench) : Device := if b.outputFull then .failing .noSpace else .output

/-- The device at a place of the store. -/
def device (b : Bench) (place : Place) : Device :=
  match b.store.node? place with
  | some .nullDevice => .discard
  | some .fullDevice => .failing .noSpace
  | some .standardOutput => b.outputDevice
  | _ => .file place

/-- Open a file and put a sink that appends to it on the bench. -/
def seatFile (b : Bench) (listed : Bool) (path : Bytes) : Except Fault (Sink × Bench) :=
  match b.store.openForAppending path with
  | .error cause => .error (.cannotOpen path cause)
  | .ok (place, store) =>
    let b := { b with store }
    .ok (b.seatDescriptor listed (.ofFile firstDescriptor path) (b.device place))

/-- Put a sink for the standard output on the bench. -/
def seatOutput (b : Bench) (listed : Bool) : Sink × Bench :=
  b.seatDescriptor listed .standardOutput b.outputDevice

/-- Show a report, and hand it to the observer. -/
def diagnose (b : Bench) (d : Diagnostic) : Bench :=
  { b with shown := b.shown ++ b.console.shown d
           captured := b.captured ++ b.console.captured d }

/-- The answers of the system for a device. -/
def systemAnswers : Device → List SystemAnswer
  | .failing cause => [.failed cause]
  | _ => []

/-- Let a device keep bytes. -/
def keep (b : Bench) (data : Bytes) : Device → Bench
  | .file place => { b with store := b.store.append place data }
  | .output => { b with output := b.output.add data }
  | .discard | .failing _ => b

/-- What an outlet does with an offer: its answer, the number of bytes it took, the outlet and
the bench afterwards. -/
def consume (b : Bench) (data : Bytes) : Outlet → Nat × Nat × Outlet × Bench
  | .memory contents offers =>
    (data.length, data.length, .memory (contents.add data) (offers + 1), b)
  | .script answers =>
    let answer := (answers.head?.getD .everything).answer data.length
    (answer, min answer data.length, .script answers.tail, b)
  | .descriptor d device =>
    let w := d.write (systemAnswers device) data
    let b := b.keep (data.take w.count) device
    (w.count, w.count, .descriptor w.descriptor device, w.report.elim b b.diagnose)

/-- Offer bytes to a sink. -/
def offer (b : Bench) (sink : Sink) (data : Bytes) : Nat × Bench :=
  match b.seats[sink.id]? with
  | none => (0, b)
  | some seat =>
    let (answer, count, outlet, b) := b.consume data seat.outlet
    let seat := { seat with
      outlet
      offers := (data.length, answer) :: seat.offers
      taken := seat.taken.add (data.take count) }
    (answer, { b with seats := b.seats.set sink.id seat })

/-- Take a notice. -/
def notify (b : Bench) : Notice → Bench
  | .released sink => { b with seats := b.seats.modify sink.id fun s => { s with gone := true } }
  | .diagnosed d => b.diagnose d
  | .said text => { b with shown := b.shown ++ text }

/-- The bench as a partner for dialogues. -/
def partner : Partner (StateM Bench) where
  offer sink data := fun b => b.offer sink data
  notify notice := fun b => ((), b.notify notice)

/-- Hold a dialogue with the bench. -/
def hold {α : Type} (b : Bench) (d : Dialogue α) : α × Bench := Dialogue.run partner d b

/-- The sinks to which something happened since the last report. The next report starts
afresh. -/
def report (b : Bench) : List Seat × Bench :=
  (b.seats.filter fun s => s.isActive && s.listing.isSome,
    { b with seats := b.seats.map fun s => { s with offers := [], taken := .none, gone := false } })

/-- What the console has shown since it was last read. -/
def readShown (b : Bench) : Bytes × Bench := (b.shown, { b with shown := [] })

/-- What the observer got since it was last asked. -/
def readCaptured (b : Bench) : List Bytes × Bench := (b.captured, { b with captured := [] })

/-- Change what stands behind the sink with a listing number. -/
def modifyOutlet (b : Bench) (listing : Nat) (f : Outlet → Outlet) : Bench :=
  { b with seats := b.seats.map fun s =>
      if s.listing = some listing then { s with outlet := f s.outlet } else s }

/-- Give a sink another script. -/
def rescript (b : Bench) (listing : Nat) (answers : List ScriptedAnswer) : Bench :=
  b.modifyOutlet listing fun
    | .script _ => .script answers
    | outlet => outlet

/-- Forget what a memory holds and how often it was offered something. -/
def clearMemory (b : Bench) (listing : Nat) : Bench :=
  b.modifyOutlet listing fun
    | .memory _ _ => .memory .none 0
    | outlet => outlet

/-- The memories with their listing numbers, their contents and the number of offers. -/
def memories (b : Bench) : List (Nat × Bytes × Nat) :=
  b.seats.filterMap fun s =>
    match s.listing, s.outlet with
    | some listing, .memory contents offers => some (listing, contents.bytes, offers)
    | _, _ => none

end Bench

end LeveledLog
