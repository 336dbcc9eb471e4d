import LeveledLog.Proofs.Buffer.Flow
import LeveledLog.Proofs.Writer.Emission

/-!
# What success says

Every operation that can hand bytes to a sink says whether it succeeded. It does so truthfully:
it succeeds exactly when the sink took everything that was offered to it on the way, be it held
before or appended now. So whoever looks at the results misses no byte that was not taken.
-/

namespace LeveledLog

/-- A sink takes all the bytes that it is offered. -/
def Exchange.IsTakenWhole : Exchange → Prop
  | offered _ data answer => data.length ≤ answer
  | told _ => True

instance : DecidablePred Exchange.IsTakenWhole
  | .offered _ data answer => inferInstanceAs (Decidable (data.length ≤ answer))
  | .told _ => inferInstanceAs (Decidable True)

/-- Everything that is offered in exchanges is taken. -/
def Exchange.AllTakenWhole (es : List Exchange) : Prop := ∀ e ∈ es, e.IsTakenWhole

namespace Exchange

@[simp] theorem allTakenWhole_nil : AllTakenWhole [] := by simp [AllTakenWhole]

@[simp] theorem allTakenWhole_append {es fs : List Exchange} :
    AllTakenWhole (es ++ fs) ↔ AllTakenWhole es ∧ AllTakenWhole fs := List.forall_mem_append

@[simp] theorem allTakenWhole_offered {sink : Sink} {data : Bytes} {answer : Nat} :
    AllTakenWhole [offered sink data answer] ↔ data.length ≤ answer := by
  simp [AllTakenWhole, IsTakenWhole]

/-- Notices offer nothing that could be refused. -/
@[simp] theorem allTakenWhole_told (notices : List Notice) :
    AllTakenWhole (notices.map told) := by
  intro e he
  obtain ⟨notice, _, rfl⟩ := List.mem_map.mp he
  exact trivial

end Exchange

namespace Buffer

open Exchange (AllTakenWhole)

variable {b c : Buffer} {es : List Exchange} {r : Bool} {data : Bytes}

/-- A flush succeeds exactly when the sink takes everything. -/
theorem flush_true_iff (h : b.flush.Runs es (r, c)) : r = true ↔ AllTakenWhole es := by
  rcases runs_flush.mp h with ⟨_, rfl, rfl, _⟩ | ⟨_, n, rfl, rfl, _⟩
  · simp
  · rw [decide_eq_true_iff, Exchange.allTakenWhole_offered, buffered]

/-- Room is made exactly when the sink takes everything. -/
theorem makeRoom_true_iff (h : (b.makeRoom data).Runs es (r, c)) :
    r = true ↔ AllTakenWhole es := by
  rcases runs_makeRoom.mp h with ⟨_, rfl, rfl, _⟩ | ⟨_, h⟩
  · simp
  · exact flush_true_iff h

/-- Bytes go past the buffer exactly when the sink takes all of them. -/
theorem passThrough_true_iff (h : (b.passThrough data).Runs es (r, c)) :
    r = true ↔ AllTakenWhole es := by
  obtain ⟨n, rfl, rfl, _⟩ := runs_passThrough.mp h
  rw [decide_eq_true_iff, Exchange.allTakenWhole_offered]

/-- An append succeeds exactly when the sink takes everything. -/
theorem append_true_iff (h : (b.append data).Runs es (r, c)) : r = true ↔ AllTakenWhole es := by
  rcases runs_append.mp h with ⟨_, rfl, rfl, _⟩ | ⟨_, h₁, rfl⟩ | ⟨es₁, b₁, _, h₁, h₂⟩
  · simp
  · exact makeRoom_true_iff h₁
  · have hroom : AllTakenWhole es₁ := (makeRoom_true_iff h₁).mp rfl
    rcases h₂ with ⟨_, es₂, h₂, rfl⟩ | ⟨_, rfl, rfl, _⟩
    · rw [passThrough_true_iff h₂, Exchange.allTakenWhole_append]
      exact (and_iff_right hroom).symm
    · exact iff_of_true rfl hroom

/-- Parts that could all be made are appended exactly when the sink takes everything. -/
theorem appendAll_true_iff {texts : List Bytes} {outcome : Except FormatFault Bool}
    (h : (b.appendAll (texts.map .ok)).Runs es (outcome, c)) :
    outcome = .ok true ↔ AllTakenWhole es := by
  induction texts generalizing b es with
  | nil =>
    simp only [List.map_nil, appendAll, Dialogue.runs_pure, Prod.mk.injEq] at h
    obtain ⟨rfl, rfl, _⟩ := h
    simp
  | cons text texts ih =>
    simp only [List.map_cons, appendAll, Dialogue.runs_bind] at h
    obtain ⟨es₁, ⟨done, b₁⟩, es₂, h₁, h₂, rfl⟩ := h
    have hdone := append_true_iff h₁
    cases done with
    | false =>
      simp only [Bool.false_eq_true, ite_false, Dialogue.runs_pure, Prod.mk.injEq] at h₂
      obtain ⟨rfl, rfl, _⟩ := h₂
      have hnot : ¬ AllTakenWhole es₁ := fun hall => Bool.false_ne_true (hdone.mpr hall)
      simp [hnot]
    | true =>
      have hfirst : AllTakenWhole es₁ := hdone.mp rfl
      rw [ih (by simpa only [ite_true] using h₂), Exchange.allTakenWhole_append]
      exact (and_iff_right hfirst).symm

end Buffer

namespace Writer

open Exchange (AllTakenWhole)

variable {w w' : Writer} {b : Buffer} {es : List Exchange}

/-- A line whose parts could all be made is written exactly when the destination takes
everything. -/
theorem emit_ok_iff {texts : List Bytes} {result : Except Fault Nat}
    (h : (w.emit b (texts.map .ok)).Runs es (result, w')) :
    (∃ size, result = .ok size) ↔ AllTakenWhole es := by
  simp only [emit, Dialogue.runs_bind] at h
  obtain ⟨es₁, ⟨outcome, after⟩, es₂, h₁, h₂, rfl⟩ := h
  have hmade := Buffer.appendAll_true_iff h₁
  obtain ⟨done, rfl⟩ := Buffer.appendAll_made h₁
  cases done with
  | true =>
    simp only [Dialogue.runs_pure, Prod.mk.injEq] at h₂
    obtain ⟨rfl, rfl, _⟩ := h₂
    rw [List.append_nil, ← hmade]
    exact iff_of_true ⟨_, rfl⟩ rfl
  | false =>
    simp only [Dialogue.runs_pure, Prod.mk.injEq] at h₂
    obtain ⟨rfl, rfl, _⟩ := h₂
    rw [List.append_nil, ← hmade]
    refine iff_of_false ?_ (by simp)
    rintro ⟨size, hsize⟩
    cases hsize

end Writer

end LeveledLog
