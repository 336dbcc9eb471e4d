import LeveledLog.Proofs.Exchange

/-!
# Histories

A system is a state that is acted on by requests, each in a dialogue. A history is a list of
its steps from a start. Every step begins where the one before it ended and is a run of the
system's own dialogue, so a history stands for one way in which requests and answers of sinks
can follow each other, and all histories for every way.
-/

namespace LeveledLog

/-- A step of a system as it happened. -/
structure Step (σ α ρ : Type) where
  before : σ
  request : α
  exchanges : List Exchange
  reply : ρ
  after : σ

variable {σ α ρ : Type}

namespace Step

/-- The step taken when the sinks give the listed answers. -/
def answered (act : σ → α → Dialogue (ρ × σ)) (before : σ) (request : α) (answers : List Nat) :
    Step σ α ρ :=
  let (exchanges, reply, after) := (act before request).converse answers
  ⟨before, request, exchanges, reply, after⟩

@[simp] theorem answered_before (act : σ → α → Dialogue (ρ × σ)) (s : σ) (request : α)
    (answers : List Nat) : (answered act s request answers).before = s := rfl

@[simp] theorem answered_request (act : σ → α → Dialogue (ρ × σ)) (s : σ) (request : α)
    (answers : List Nat) : (answered act s request answers).request = request := rfl

/-- Everything that passed in steps, in order. -/
def allExchanges (steps : List (Step σ α ρ)) : List Exchange := steps.flatMap exchanges

@[simp] theorem allExchanges_append (steps later : List (Step σ α ρ)) :
    allExchanges (steps ++ later) = allExchanges steps ++ allExchanges later :=
  List.flatMap_append

@[simp] theorem allExchanges_singleton (step : Step σ α ρ) :
    allExchanges [step] = step.exchanges := by
  simp only [allExchanges, List.flatMap_cons, List.flatMap_nil, List.append_nil]

theorem allExchanges_around (earlier later : List (Step σ α ρ)) (step : Step σ α ρ) :
    allExchanges (earlier ++ step :: later) =
      allExchanges (earlier ++ [step]) ++ allExchanges later := by
  rw [← allExchanges_append, List.append_assoc, List.singleton_append]

/-- The bytes that sinks took in steps, in order. -/
def accepted (steps : List (Step σ α ρ)) : Bytes := Exchange.allTaken (allExchanges steps)

@[simp] theorem accepted_nil : accepted ([] : List (Step σ α ρ)) = [] := rfl

@[simp] theorem accepted_append (steps later : List (Step σ α ρ)) :
    accepted (steps ++ later) = accepted steps ++ accepted later := by
  simp only [accepted, allExchanges_append, Exchange.allTaken_append]

@[simp] theorem accepted_singleton (step : Step σ α ρ) :
    accepted [step] = Exchange.allTaken step.exchanges := by
  simp only [accepted, allExchanges_singleton]

end Step

/-- The histories of a system in which every step is allowed after those before it. -/
inductive History (act : σ → α → Dialogue (ρ × σ))
    (allowed : List (Step σ α ρ) → Step σ α ρ → Prop) (start : σ) :
    List (Step σ α ρ) → σ → Prop
  | start : History act allowed start [] start
  | snoc {steps : List (Step σ α ρ)} {step : Step σ α ρ} :
      History act allowed start steps step.before → allowed steps step →
      (act step.before step.request).Runs step.exchanges (step.reply, step.after) →
      History act allowed start (steps ++ [step]) step.after

namespace History

variable {act : σ → α → Dialogue (ρ × σ)} {allowed : List (Step σ α ρ) → Step σ α ρ → Prop}
  {start s : σ} {steps : List (Step σ α ρ)}

/-- The last step of a history begins where the steps before it end. -/
theorem last {step : Step σ α ρ} (h : History act allowed start (steps ++ [step]) s) :
    History act allowed start steps step.before ∧ allowed steps step ∧
      (act step.before step.request).Runs step.exchanges (step.reply, step.after) ∧
      s = step.after := by
  generalize heq : steps ++ [step] = all at h
  cases h with
  | start => exact absurd heq (List.append_ne_nil_of_right_ne_nil _ (List.cons_ne_nil _ _))
  | snoc h ha hr =>
    obtain ⟨rfl, hstep⟩ := List.append_inj' heq rfl
    obtain rfl := List.singleton_inj.mp hstep
    exact ⟨h, ha, hr, rfl⟩

/-- A history can be cut between any two of its steps. -/
theorem cut {earlier later : List (Step σ α ρ)}
    (h : History act allowed start (earlier ++ later) s) :
    ∃ middle, History act allowed start earlier middle ∧
      History act (fun steps => allowed (earlier ++ steps)) middle later s := by
  induction later using List.reverseRecOn generalizing s with
  | nil => exact ⟨s, by rwa [List.append_nil] at h, .start⟩
  | append_singleton later step ih =>
    rw [← List.append_assoc] at h
    obtain ⟨hsteps, ha, hr, rfl⟩ := h.last
    obtain ⟨middle, hearlier, hlater⟩ := ih hsteps
    exact ⟨middle, hearlier, hlater.snoc ha hr⟩

/-- A history can be cut before and after any of its steps. -/
theorem cut_around {earlier later : List (Step σ α ρ)} {step : Step σ α ρ}
    (h : History act allowed start (earlier ++ step :: later) s) :
    History act allowed start earlier step.before ∧ allowed earlier step ∧
      (act step.before step.request).Runs step.exchanges (step.reply, step.after) ∧
      History act (fun steps => allowed (earlier ++ [step] ++ steps)) step.after later s := by
  rw [← List.singleton_append, ← List.append_assoc] at h
  obtain ⟨middle, hearlier, hlater⟩ := h.cut
  obtain ⟨hsteps, ha, hr, rfl⟩ := hearlier.last
  exact ⟨hsteps, ha, hr, hlater⟩

/-- Every step of a history is a run of the system. -/
theorem runs_of_mem (h : History act allowed start steps s) : ∀ step ∈ steps,
    (act step.before step.request).Runs step.exchanges (step.reply, step.after) := by
  induction h with
  | start => simp
  | @snoc steps last _ _ hr ih =>
    intro step hmem
    rcases List.mem_append.mp hmem with hmem | hmem
    · exact ih step hmem
    · obtain rfl := List.mem_singleton.mp hmem
      exact hr

/-- A history remains one when more is allowed. -/
theorem weaken {allowed' : List (Step σ α ρ) → Step σ α ρ → Prop}
    (h : History act allowed start steps s)
    (himp : ∀ earlier step, allowed earlier step → allowed' earlier step) :
    History act allowed' start steps s := by
  induction h with
  | start => exact .start
  | snoc _ ha hr ih => exact ih.snoc (himp _ _ ha) hr

/-- A history goes on with any allowed request and any answers of the sinks. -/
theorem answered (h : History act allowed start steps s) (request : α) (answers : List Nat)
    (ha : allowed steps (.answered act s request answers)) :
    History act allowed start (steps ++ [.answered act s request answers])
      (Step.answered act s request answers).after :=
  .snoc h ha (Dialogue.runs_converse _ answers)

end History

end LeveledLog
