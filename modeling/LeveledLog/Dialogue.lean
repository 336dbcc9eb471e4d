import LeveledLog.Diagnostic

/-!
# Dialogues

What the library does to the world outside is a dialogue: it offers bytes to a sink, which
answers with a number, and it gives notices, which have no answer. An operation is its
dialogue up to a result, so it is the same whatever the sinks answer and whoever they are.
`run` holds a dialogue with a given partner.
-/

namespace LeveledLog

/-- A consumer of bytes, known by an identity and by a name for messages. -/
structure Sink where
  id : Nat
  name : Bytes
  deriving DecidableEq, Repr

/-- Something the world outside is told. -/
inductive Notice where
  /-- A sink is no longer needed and gets no more bytes. -/
  | released (sink : Sink)
  /-- The library reports on itself. -/
  | diagnosed (diagnostic : Diagnostic)
  /-- The command says something to its user. -/
  | said (text : Bytes)
  deriving DecidableEq, Repr

/-- A dialogue with the world outside up to a result. -/
inductive Dialogue (α : Type) where
  /-- The result. -/
  | done (result : α)
  /-- Offer bytes to a sink and go on with its answer. -/
  | offer (sink : Sink) (data : Bytes) (next : Nat → Dialogue α)
  /-- Give a notice and go on. -/
  | notify (notice : Notice) (next : Dialogue α)

/-- The side that answers a dialogue. -/
structure Partner (m : Type → Type) where
  /-- The answer of a sink to the bytes it is offered. -/
  offer : Sink → Bytes → m Nat
  notify : Notice → m Unit

namespace Dialogue

/-- Go on with the result of a dialogue. -/
def bind {α β : Type} (d : Dialogue α) (f : α → Dialogue β) : Dialogue β :=
  match d with
  | done a => f a
  | offer sink data next => .offer sink data fun n => (next n).bind f
  | notify notice next => .notify notice (next.bind f)

instance : Monad Dialogue where
  pure := done
  bind := bind

/-- Going on with the bare result changes nothing. -/
theorem bind_done {α : Type} (d : Dialogue α) : d.bind done = d := by
  induction d with
  | done a => rfl
  | offer sink data next ih => simp only [bind, ih]
  | notify notice next ih => simp only [bind, ih]

/-- Dialogues are joined in any grouping. -/
theorem bind_bind {α β γ : Type} (d : Dialogue α) (f : α → Dialogue β) (g : β → Dialogue γ) :
    (d.bind f).bind g = d.bind fun a => (f a).bind g := by
  induction d with
  | done a => rfl
  | offer sink data next ih => simp only [bind, ih]
  | notify notice next ih => simp only [bind, ih]

instance : LawfulMonad Dialogue :=
  LawfulMonad.mk' Dialogue bind_done (fun _ _ => rfl) bind_bind

/-- Offer bytes to a sink. The result is how many of them it took, whatever it claims. -/
def deliver (sink : Sink) (data : Bytes) : Dialogue Nat :=
  .offer sink data fun n => done (min n data.length)

/-- Give a notice. -/
def tell (notice : Notice) : Dialogue Unit := .notify notice (done ())

/-- Give a report of the library on itself. -/
def report (severity : Severity) (line : Bytes) : Dialogue Unit :=
  tell (.diagnosed ⟨severity, line⟩)

/-- Hold a dialogue with a partner. -/
def run {m : Type → Type} [Monad m] (p : Partner m) {α : Type} : Dialogue α → m α
  | done a => Pure.pure a
  | offer sink data next => do
    let n ← p.offer sink data
    run p (next n)
  | notify notice next => do
    p.notify notice
    run p next

end Dialogue

end LeveledLog
