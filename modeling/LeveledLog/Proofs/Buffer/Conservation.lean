import LeveledLog.Proofs.Buffer.Flow
import LeveledLog.Proofs.History

/-!
# No buffer loses count

A buffer is acted on by appends, flushes, resets and rollbacks, in any order and with any
answers of its sinks. Every action keeps the buffer sound, and the count of the bytes that left
it is the count of those that sinks took and those that resets gave up.
-/

namespace LeveledLog.Buffer

open Exchange (allTaken)

variable {b c : Buffer} {es : List Exchange} {reply : Except Fault Bool}

/-- What can be asked of a buffer. -/
inductive Action where
  | append (data : Bytes)
  | appendByte (byte : UInt8)
  | flush
  | reset (sink : Option Sink)
  | rollback (mark : Nat)
  deriving DecidableEq, Repr

/-- Act on a request. A reset that is refused leaves the buffer as it is. -/
def act (b : Buffer) : Action → Dialogue (Except Fault Bool × Buffer)
  | .append data => do
    let (done, b) ← b.append data
    return (.ok done, b)
  | .appendByte byte => do
    let (done, b) ← b.appendByte byte
    return (.ok done, b)
  | .flush => do
    let (done, b) ← b.flush
    return (.ok done, b)
  | .reset sink =>
    match b.reset sink with
    | .ok b => return (.ok true, b)
    | .error fault => return (.error fault, b)
  | .rollback mark =>
    let (clean, b) := b.rollback mark
    return (.ok clean, b)

private theorem runs_ok {d : Dialogue (Bool × Buffer)} :
    (d >>= fun p => pure (.ok p.1, p.2) : Dialogue (Except Fault Bool × Buffer)).Runs es
      (reply, c) ↔ ∃ r, d.Runs es (r, c) ∧ reply = .ok r := by
  rw [Dialogue.runs_bind_pure]
  constructor
  · rintro ⟨⟨r, b'⟩, h, heq⟩
    obtain ⟨rfl, rfl⟩ := Prod.mk.inj heq
    exact ⟨r, h, rfl⟩
  · rintro ⟨r, h, rfl⟩
    exact ⟨(r, c), h, rfl⟩

theorem runs_act_append {data : Bytes} : (b.act (.append data)).Runs es (reply, c) ↔
    ∃ r, (b.append data).Runs es (r, c) ∧ reply = .ok r := runs_ok

theorem runs_act_appendByte {byte : UInt8} : (b.act (.appendByte byte)).Runs es (reply, c) ↔
    ∃ r, (b.append [byte]).Runs es (r, c) ∧ reply = .ok r := runs_ok

theorem runs_act_flush : (b.act .flush).Runs es (reply, c) ↔
    ∃ r, b.flush.Runs es (r, c) ∧ reply = .ok r := runs_ok

theorem runs_act_rollback {mark : Nat} : (b.act (.rollback mark)).Runs es (reply, c) ↔
    es = [] ∧ ∃ r, b.rollback mark = (r, c) ∧ reply = .ok r := by
  simp only [act, Dialogue.runs_pure, Prod.mk.injEq]
  constructor
  · rintro ⟨rfl, rfl, rfl⟩
    exact ⟨rfl, _, rfl, rfl⟩
  · rintro ⟨rfl, r, h, rfl⟩
    simp [h]

/-- A step of a buffer. -/
abbrev ActionStep := Step Buffer Action (Except Fault Bool)

/-- A step undoes nothing that was never appended. -/
def InReach (_ : List ActionStep) (step : ActionStep) : Prop :=
  ∀ mark, step.request = .rollback mark → mark ≤ step.before.appended

/-- The bytes an action gives up without offering them. -/
def discarded (b : Buffer) : Action → Bytes
  | .reset (some _) => b.held
  | _ => []

/-- The bytes that steps give up, in order. -/
def allDiscarded (steps : List ActionStep) : Bytes :=
  steps.flatMap fun step => discarded step.before step.request

/-- The bytes that leave a buffer by an action are those its sink took and those it gives up.
The capacity never changes, and a sound buffer stays sound. -/
theorem act_counts {action : Action} (hb : b.Sound)
    (hreach : ∀ mark, action = .rollback mark → mark ≤ b.appended)
    (h : (b.act action).Runs es (reply, c)) :
    c.Sound ∧ c.capacity = b.capacity ∧
      c.drained = b.drained + (allTaken es).length + (discarded b action).length := by
  cases action with
  | append data =>
    obtain ⟨r, h, _⟩ := runs_act_append.mp h
    obtain ⟨k, _, hf, _⟩ := flow_append hb h
    exact ⟨hb.append h, hf.capacity, hf.drained⟩
  | appendByte byte =>
    obtain ⟨r, h, _⟩ := runs_act_appendByte.mp h
    obtain ⟨k, _, hf, _⟩ := flow_append hb h
    exact ⟨hb.append h, hf.capacity, hf.drained⟩
  | flush =>
    obtain ⟨r, h, _⟩ := runs_act_flush.mp h
    have hf := flow_flush h
    exact ⟨hb.flush h, hf.capacity, hf.drained⟩
  | reset sink =>
    cases sink with
    | none =>
      simp only [act, reset, Dialogue.runs_pure, Prod.mk.injEq] at h
      obtain ⟨rfl, rfl, rfl⟩ := h
      exact ⟨hb, rfl, rfl⟩
    | some sink =>
      simp only [act, reset, Dialogue.runs_pure, Prod.mk.injEq] at h
      obtain ⟨rfl, rfl, rfl⟩ := h
      refine ⟨⟨hb.roomy, Nat.zero_le _, ?_⟩, rfl, rfl⟩
      simpa [buffered] using hb.balance
  | rollback mark =>
    obtain ⟨rfl, r, h, _⟩ := runs_act_rollback.mp h
    have hm := hreach mark rfl
    refine ⟨hb.rollback hm h, ?_⟩
    rw [rollback_eq hb hm, Prod.mk.injEq] at h
    obtain ⟨_, rfl⟩ := h
    exact ⟨rfl, rfl⟩

/-- Along every history of a new buffer all bytes that left it are accounted for. -/
theorem history_counts {sink : Sink} {capacity : Nat} {steps : List ActionStep}
    (hc : 0 < capacity) (h : History act InReach (.empty sink capacity) steps b) :
    b.Sound ∧ b.capacity = capacity ∧
      b.drained = (Step.accepted steps).length + (allDiscarded steps).length := by
  induction h with
  | start => exact ⟨.empty hc, rfl, rfl⟩
  | snoc _ hreach hr ih =>
    obtain ⟨hs, hcap, hd⟩ := ih
    obtain ⟨hs', hcap', hd'⟩ := act_counts hs hreach hr
    refine ⟨hs', hcap'.trans hcap, ?_⟩
    simp only [Step.accepted_append, Step.accepted_singleton, allDiscarded, List.flatMap_append,
      List.flatMap_cons, List.flatMap_nil, List.append_nil, List.length_append] at hd ⊢
    omega

/-- In every state that a buffer reaches from its making, whatever is asked of it and whatever
its sinks answer, no more is held than there is room for, the two counts differ by exactly what
is held, and what left the buffer was either taken by a sink or given up by a reset. An append
from such a state lets a prefix of its bytes in behind those held, and says whether that was
all. A rollback has at least as much to drop as it drops, and a reset to no sink is refused. -/
theorem no_byte_uncounted {sink : Sink} {capacity : Nat} {steps : List ActionStep}
    (hc : 0 < capacity) (h : History act InReach (.empty sink capacity) steps b) :
    Buffer.create (some sink) capacity = .ok (.empty sink capacity) ∧
    b.capacity = capacity ∧ b.buffered ≤ b.capacity ∧ b.buffered + b.available = b.capacity ∧
    b.drained ≤ b.appended ∧ b.appended - b.drained = b.buffered ∧
    b.drained = (Step.accepted steps).length + (allDiscarded steps).length ∧
    (∀ data es r c, (b.append data).Runs es (r, c) →
      ∃ k ≤ data.length, c.appended = b.appended + k ∧
        allTaken es ++ c.held = b.held ++ data.take k ∧ (r = true ↔ k = data.length)) ∧
    (∀ mark, b.drained ≤ mark → mark ≤ b.appended → b.appended - mark ≤ b.buffered) ∧
    b.act (.reset none) = pure (.error .missingSink, b) := by
  obtain ⟨hb, hcap, hd⟩ := history_counts hc h
  have hfits := hb.fits
  have hbal := hb.balance
  refine ⟨?_, hcap, hfits, ?_, by omega, by omega, hd, ?_, fun mark _ _ => by omega, rfl⟩
  · rw [create, if_neg (by omega)]
  · rw [available]
    omega
  · intro data es r c h
    obtain ⟨k, hk, hf, _, hr⟩ := flow_append hb h
    refine ⟨k, hk, ?_, hf.order, hr⟩
    rw [hf.appended, List.length_take, Nat.min_eq_left hk]

/-- Two of three bytes go past a buffer for two, and nothing is taken of the byte held after
them: the count of drained bytes is two. -/
theorem no_byte_uncounted_past_buffer :
    0 < 2 ∧
    History act InReach (.empty ⟨0, []⟩ 2)
      [⟨.empty ⟨0, []⟩ 2, .append [1, 2, 3], [.offered ⟨0, []⟩ [1, 2, 3] 2], .ok false,
          ⟨⟨0, []⟩, 2, [], 2, 2⟩⟩,
        ⟨⟨⟨0, []⟩, 2, [], 2, 2⟩, .appendByte 4, [], .ok true, ⟨⟨0, []⟩, 2, [4], 3, 2⟩⟩,
        ⟨⟨⟨0, []⟩, 2, [4], 3, 2⟩, .flush, [.offered ⟨0, []⟩ [4] 0], .ok false,
          ⟨⟨0, []⟩, 2, [4], 3, 2⟩⟩]
      ⟨⟨0, []⟩, 2, [4], 3, 2⟩ ∧
    (Buffer.mk ⟨0, []⟩ 2 [4] 3 2).drained =
      (allTaken [.offered ⟨0, []⟩ [1, 2, 3] 2, .offered ⟨0, []⟩ [4] 0]).length := by
  have made : History act InReach (.empty ⟨0, []⟩ 2) [] _ := .start
  have appended := made.answered (.append [1, 2, 3]) [2] (by simp [InReach])
  have held := appended.answered (.appendByte 4) [] (by simp [InReach])
  have flushed := held.answered .flush [0] (by simp [InReach])
  obtain ⟨_, _, _, _, _, _, hd, _⟩ := no_byte_uncounted (by decide) flushed
  exact ⟨by decide, flushed, hd⟩

end LeveledLog.Buffer
