import LeveledLog.Dialogue
import Mathlib

/-!
# Exchanges

What passes between the library and the world outside while a dialogue is held is a list of
exchanges. A dialogue runs through exchanges to a result when the sinks give exactly the
answers that the exchanges record. Nothing is assumed of the answers, so a statement about all
runs holds whatever the sinks do.
-/

namespace LeveledLog

/-- One thing that passed between the library and the world outside. -/
inductive Exchange where
  | offered (sink : Sink) (data : Bytes) (answer : Nat)
  | told (notice : Notice)
  deriving DecidableEq, Repr

namespace Exchange

/-- The bytes a sink took: as many of those offered as it said, and at most all of them. -/
def taken : Exchange → Bytes
  | offered _ data answer => data.take answer
  | told _ => []

/-- Whether bytes are offered to no other sink than the given one. -/
def ConcernsOnly (sink : Sink) : Exchange → Prop
  | offered other _ _ => other = sink
  | told _ => True

/-- Whether it is an offer to the given sink. -/
def IsOfferTo (sink : Sink) (e : Exchange) : Prop := ∃ data answer, e = offered sink data answer

theorem IsOfferTo.concernsOnly {sink : Sink} {e : Exchange} (h : e.IsOfferTo sink) :
    e.ConcernsOnly sink := by
  obtain ⟨data, answer, rfl⟩ := h
  rfl

/-- The bytes taken in exchanges, in order. -/
def allTaken (es : List Exchange) : Bytes := es.flatMap taken

@[simp] theorem allTaken_nil : allTaken [] = [] := rfl

@[simp] theorem allTaken_append (es fs : List Exchange) :
    allTaken (es ++ fs) = allTaken es ++ allTaken fs := List.flatMap_append

@[simp] theorem allTaken_singleton (e : Exchange) : allTaken [e] = e.taken := by
  simp only [allTaken, List.flatMap_cons, List.flatMap_nil, List.append_nil]

/-- What is offered in exchanges, and to which sinks, in order. -/
def offers (es : List Exchange) : List (Sink × Bytes) := es.filterMap fun
  | offered sink data _ => some (sink, data)
  | told _ => none

/-- The sinks that are released in exchanges, in order. -/
def released (es : List Exchange) : List Sink := es.filterMap fun
  | told (.released sink) => some sink
  | _ => none

/-- What the library reports on itself in exchanges, in order. -/
def diagnoses (es : List Exchange) : List Diagnostic := es.filterMap fun
  | told (.diagnosed diagnostic) => some diagnostic
  | _ => none

@[simp] theorem released_append (es fs : List Exchange) :
    released (es ++ fs) = released es ++ released fs := List.filterMap_append

@[simp] theorem diagnoses_append (es fs : List Exchange) :
    diagnoses (es ++ fs) = diagnoses es ++ diagnoses fs := List.filterMap_append

@[simp] theorem offers_append (es fs : List Exchange) :
    offers (es ++ fs) = offers es ++ offers fs := List.filterMap_append

@[simp] theorem released_nil : released [] = [] := rfl

@[simp] theorem diagnoses_nil : diagnoses [] = [] := rfl

@[simp] theorem released_cons_released (sink : Sink) (es : List Exchange) :
    released (told (.released sink) :: es) = sink :: released es := rfl

@[simp] theorem released_cons_diagnosed (diagnostic : Diagnostic) (es : List Exchange) :
    released (told (.diagnosed diagnostic) :: es) = released es := rfl

@[simp] theorem diagnoses_cons_released (sink : Sink) (es : List Exchange) :
    diagnoses (told (.released sink) :: es) = diagnoses es := rfl

@[simp] theorem diagnoses_cons_diagnosed (diagnostic : Diagnostic) (es : List Exchange) :
    diagnoses (told (.diagnosed diagnostic) :: es) = diagnostic :: diagnoses es := rfl

/-- Offers release nothing and report nothing. -/
theorem released_of_offers {sink : Sink} {es : List Exchange} (h : ∀ e ∈ es, e.IsOfferTo sink) :
    released es = [] ∧ diagnoses es = [] := by
  constructor
  · refine List.filterMap_eq_nil_iff.mpr fun e he => ?_
    obtain ⟨data, answer, rfl⟩ := h e he
    rfl
  · refine List.filterMap_eq_nil_iff.mpr fun e he => ?_
    obtain ⟨data, answer, rfl⟩ := h e he
    rfl

/-- Notices offer nothing. -/
@[simp] theorem offers_told (notices : List Notice) : offers (notices.map told) = [] := by
  simp only [offers, List.filterMap_map, List.filterMap_eq_nil_iff, Function.comp, implies_true]

/-- Notices take nothing. -/
@[simp] theorem allTaken_told (notices : List Notice) : allTaken (notices.map told) = [] := by
  simp only [allTaken, List.flatMap_map, taken, List.flatMap_eq_nil_iff, implies_true]

/-- Every offer goes on in the source where the bytes end that were taken before it. -/
def DrawnFrom (source : Bytes) (es : List Exchange) : Prop :=
  ∀ earlier sink data answer later, es = earlier ++ offered sink data answer :: later →
    allTaken earlier ++ data <+: source

theorem drawnFrom_nil (source : Bytes) : DrawnFrom source [] := by
  intro earlier _ _ _ _ h
  exact absurd h.symm (List.append_ne_nil_of_right_ne_nil _ (List.cons_ne_nil _ _))

theorem drawnFrom_told (source : Bytes) (notices : List Notice) :
    DrawnFrom source (notices.map told) := by
  intro earlier sink data answer later h
  have hmem : offered sink data answer ∈ notices.map told := by simp [h]
  obtain ⟨_, _, hnotice⟩ := List.mem_map.mp hmem
  cases hnotice

theorem drawnFrom_offer {source data : Bytes} (h : data <+: source) (sink : Sink) (answer : Nat) :
    DrawnFrom source [offered sink data answer] := by
  intro earlier _ _ _ _ heq
  cases earlier with
  | nil =>
    cases heq
    exact h
  | cons e earlier => exact absurd (List.cons.inj heq).2 (by simp)

variable {source source' rest : Bytes} {es fs : List Exchange}

theorem DrawnFrom.mono (h : DrawnFrom source es) (hle : source <+: source') :
    DrawnFrom source' es := fun _ _ _ _ _ heq => (h _ _ _ _ _ heq).trans hle

/-- Offers can be followed by others that draw from what the former leave of the source. -/
theorem DrawnFrom.append (h : DrawnFrom source es) (h' : DrawnFrom rest fs)
    (hrest : allTaken es ++ rest <+: source) : DrawnFrom source (es ++ fs) := by
  intro earlier sink data answer later heq
  rcases List.append_eq_append_iff.mp heq with ⟨as, rfl, hfs⟩ | ⟨bs, hes, hbs⟩
  · rw [allTaken_append, List.append_assoc]
    exact ((List.prefix_append_right_inj _).mpr (h' _ _ _ _ _ hfs)).trans hrest
  · cases bs with
    | nil =>
      rw [List.append_nil] at hes
      have hfirst := h' [] sink data answer later hbs.symm
      rw [← hes]
      exact ((List.prefix_append_right_inj _).mpr hfirst).trans hrest
    | cons e bs =>
      obtain ⟨rfl, _⟩ := List.cons.inj hbs
      exact h _ _ _ _ _ hes

end Exchange

namespace Dialogue

variable {α β : Type}

/-- A dialogue runs through exchanges to a result. -/
inductive Runs : Dialogue α → List Exchange → α → Prop
  | done (a : α) : Runs (.done a) [] a
  | offer {sink : Sink} {data : Bytes} {next : Nat → Dialogue α} (answer : Nat)
      {es : List Exchange} {a : α} :
      Runs (next answer) es a → Runs (.offer sink data next) (.offered sink data answer :: es) a
  | notify {notice : Notice} {next : Dialogue α} {es : List Exchange} {a : α} :
      Runs next es a → Runs (.notify notice next) (.told notice :: es) a

/-- A result without exchanges is the only run of a finished dialogue. -/
@[simp] theorem runs_pure {a b : α} {es : List Exchange} :
    (pure a : Dialogue α).Runs es b ↔ es = [] ∧ b = a := by
  constructor
  · intro h
    cases h
    exact ⟨rfl, rfl⟩
  · rintro ⟨rfl, rfl⟩
    exact .done _

private theorem runs_of_bind {d : Dialogue α} {f : α → Dialogue β} {es : List Exchange} {b : β}
    (h : (d.bind f).Runs es b) :
    ∃ es₁ a es₂, d.Runs es₁ a ∧ (f a).Runs es₂ b ∧ es = es₁ ++ es₂ := by
  induction d generalizing es with
  | done a => exact ⟨[], a, es, .done a, h, rfl⟩
  | offer sink data next ih =>
    cases h with
    | offer answer h =>
      obtain ⟨es₁, a, es₂, h₁, h₂, rfl⟩ := ih answer h
      exact ⟨_, a, es₂, .offer answer h₁, h₂, rfl⟩
  | notify notice next ih =>
    cases h with
    | notify h =>
      obtain ⟨es₁, a, es₂, h₁, h₂, rfl⟩ := ih h
      exact ⟨_, a, es₂, .notify h₁, h₂, rfl⟩

private theorem Runs.bind {d : Dialogue α} {f : α → Dialogue β} {es₁ es₂ : List Exchange}
    {a : α} {b : β} (h₁ : d.Runs es₁ a) (h₂ : (f a).Runs es₂ b) :
    (d.bind f).Runs (es₁ ++ es₂) b := by
  induction h₁ with
  | done a => exact h₂
  | offer answer _ ih => exact .offer answer (ih h₂)
  | notify _ ih => exact .notify (ih h₂)

/-- Joined dialogues run one after the other. -/
@[simp] theorem runs_bind {d : Dialogue α} {f : α → Dialogue β} {es : List Exchange} {b : β} :
    (d >>= f).Runs es b ↔
      ∃ es₁ a es₂, d.Runs es₁ a ∧ (f a).Runs es₂ b ∧ es = es₁ ++ es₂ := by
  constructor
  · exact runs_of_bind
  · rintro ⟨es₁, a, es₂, h₁, h₂, rfl⟩
    exact h₁.bind h₂

/-- A dialogue whose result is passed on changed runs as before. -/
theorem runs_bind_pure {d : Dialogue α} {f : α → β} {es : List Exchange} {b : β} :
    (d >>= fun a => pure (f a)).Runs es b ↔ ∃ a, d.Runs es a ∧ b = f a := by
  simp only [runs_bind, runs_pure]
  constructor
  · rintro ⟨es₁, a, _, h, ⟨rfl, rfl⟩, rfl⟩
    exact ⟨a, by rwa [List.append_nil], rfl⟩
  · rintro ⟨a, h, rfl⟩
    exact ⟨es, a, [], h, ⟨rfl, rfl⟩, (List.append_nil es).symm⟩

/-- A delivery is one offer, and its result is how much was taken of it. -/
@[simp] theorem runs_deliver {sink : Sink} {data : Bytes} {es : List Exchange} {n : Nat} :
    (deliver sink data).Runs es n ↔
      ∃ answer, es = [.offered sink data answer] ∧ n = min answer data.length := by
  constructor
  · intro h
    cases h with
    | offer answer h =>
      cases h
      exact ⟨answer, rfl, rfl⟩
  · rintro ⟨answer, rfl, rfl⟩
    exact .offer answer (.done _)

/-- A notice is one exchange. -/
@[simp] theorem runs_tell {notice : Notice} {es : List Exchange} {u : Unit} :
    (tell notice).Runs es u ↔ es = [.told notice] := by
  constructor
  · intro h
    cases h with
    | notify h =>
      cases h
      rfl
  · rintro rfl
    exact .notify (.done _)

/-- A report is one notice. -/
@[simp] theorem runs_report {severity : Severity} {line : Bytes} {es : List Exchange} {u : Unit} :
    (report severity line).Runs es u ↔ es = [.told (.diagnosed ⟨severity, line⟩)] := runs_tell

/-- The exchanges and the result when the sinks give the listed answers one after the other,
and take nothing once the list is at its end. -/
def converse : Dialogue α → List Nat → List Exchange × α
  | done a, _ => ([], a)
  | offer sink data next, answers =>
    let (es, a) := (next (answers.headD 0)).converse answers.tail
    (.offered sink data (answers.headD 0) :: es, a)
  | notify notice next, answers =>
    let (es, a) := next.converse answers
    (.told notice :: es, a)

/-- Every list of answers carries a dialogue to a result. -/
theorem runs_converse (d : Dialogue α) (answers : List Nat) :
    d.Runs (d.converse answers).1 (d.converse answers).2 := by
  induction d generalizing answers with
  | done a => exact .done a
  | offer sink data next ih => exact .offer _ (ih _ _)
  | notify notice next ih => exact .notify (ih _)

/-- What any partner makes of a dialogue is one of its runs. -/
theorem exists_runs_run {σ : Type} (p : Partner (StateM σ)) (d : Dialogue α) (s : σ) :
    ∃ es, d.Runs es ((d.run p).run s).1 := by
  induction d generalizing s with
  | done a => exact ⟨[], .done a⟩
  | offer sink data next ih =>
    obtain ⟨es, h⟩ := ih ((p.offer sink data).run s).1 ((p.offer sink data).run s).2
    exact ⟨_, .offer _ h⟩
  | notify notice next ih =>
    obtain ⟨es, h⟩ := ih ((p.notify notice).run s).2
    exact ⟨_, .notify h⟩

end Dialogue

end LeveledLog
