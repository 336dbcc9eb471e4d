import LeveledLog.Proofs.Session.Closing

/-!
# Suppressed calls

Loggers share a writer. A call of a logger below the threshold in force is as good as never made,
and every other one is a call of the writer. So a run with loggers is the run of the writer that is
left when the calls below the threshold are taken out.
-/

namespace LeveledLog

/-! ## Requests under a threshold -/

namespace Request

/-- The threshold behind a request, by the one in front of it. -/
def thresholdFrom (threshold : Level) : Request → Level
  | .setLevel level => level
  | _ => threshold

/-- What a request asks of the writer itself under a threshold. A logger asks for nothing below it,
and otherwise for the line at the level of the call. -/
def direct? (threshold : Level) : Request → Option Request
  | .log level message => if level.passes threshold then some (.write level message) else none
  | .logFormatted level template arguments =>
    if level.passes threshold then some (.writeFormatted level template arguments) else none
  | request => some request

/-- What a request returns of the answer of the writer. A logger passes on faults only. -/
def passOn (result : Except Fault Reply) : Request → Except Fault Reply
  | .log _ _ | .logFormatted _ _ _ => result.map fun _ => .nothing
  | _ => result

variable {threshold : Level} {request direct : Request}

/-- Only calls of loggers are suppressed, and they change no threshold. -/
theorem thresholdFrom_of_none (h : request.direct? threshold = none) :
    request.thresholdFrom threshold = threshold := by
  cases request with
  | setLevel level => cases h
  | _ => rfl

end Request

/-- A request with the handle of the logger through which it reaches the writer. A logger has no
state of its own, so it makes no difference which of them it is. -/
structure Call (ι : Type) where
  handle : ι
  request : Request

namespace Session

variable {s s' t : Session} {es : List Exchange} {request direct : Request}
  {requests rest : List Request} {reply : Except Fault Reply}
  {results kept : List (Except Fault Reply)}

/-- What requests ask of the writer itself, from a threshold on. -/
def erase (threshold : Level) : List Request → List Request
  | [] => []
  | request :: rest =>
    (request.direct? threshold).toList ++ erase (request.thresholdFrom threshold) rest

/-- What requests return from a threshold on, by the answers of the writer to what they ask of it.
One that asks for nothing returns nothing. -/
def restore (threshold : Level) :
    List Request → List (Except Fault Reply) → List (Except Fault Reply)
  | [], _ => []
  | request :: rest, kept =>
    match request.direct? threshold, kept with
    | none, kept => .ok .nothing :: restore (request.thresholdFrom threshold) rest kept
    | some _, result :: kept =>
      request.passOn result :: restore (request.thresholdFrom threshold) rest kept
    | some _, [] => []

/-- The faults among results, in order. -/
def faults (results : List (Except Fault Reply)) : List Fault := results.filterMap fun
  | .error fault => some fault
  | .ok _ => none

theorem erase_of_none {threshold : Level} (h : request.direct? threshold = none)
    (rest : List Request) : erase threshold (request :: rest) = erase threshold rest := by
  rw [erase, h, Request.thresholdFrom_of_none h]
  rfl

theorem erase_of_some {threshold : Level} (h : request.direct? threshold = some direct)
    (rest : List Request) : erase threshold (request :: rest) =
      direct :: erase (request.thresholdFrom threshold) rest := by
  rw [erase, h]
  rfl

theorem restore_of_none {threshold : Level} (h : request.direct? threshold = none)
    (rest : List Request) (kept : List (Except Fault Reply)) :
    restore threshold (request :: rest) kept = .ok .nothing :: restore threshold rest kept := by
  rw [restore.eq_def]
  simp only [h, Request.thresholdFrom_of_none h]

theorem restore_of_some {threshold : Level} (h : request.direct? threshold = some direct)
    (rest : List Request) (result : Except Fault Reply) (kept : List (Except Fault Reply)) :
    restore threshold (request :: rest) (result :: kept) =
      request.passOn result :: restore (request.thresholdFrom threshold) rest kept := by
  rw [restore.eq_def]
  simp only [h]

/-- Loggers neither raise faults nor hide them. -/
theorem faults_restore {threshold : Level}
    (h : kept.length = (erase threshold requests).length) :
    faults (restore threshold requests kept) = faults kept := by
  induction requests generalizing threshold kept with
  | nil =>
    obtain rfl := List.length_eq_zero_iff.mp h
    rfl
  | cons request rest ih =>
    cases hasked : request.direct? threshold with
    | none =>
      rw [erase_of_none hasked] at h
      rw [restore_of_none hasked]
      exact ih h
    | some direct =>
      rw [erase_of_some hasked, List.length_cons] at h
      obtain ⟨result, kept, rfl⟩ := List.exists_cons_of_length_eq_add_one h
      have hfault : faults [request.passOn result] = faults [result] := by
        cases request <;> cases result <;> rfl
      calc faults (restore threshold (request :: rest) (result :: kept))
          = faults [request.passOn result] ++
              faults (restore (request.thresholdFrom threshold) rest kept) := by
            rw [restore_of_some hasked, ← List.singleton_append]
            exact List.filterMap_append
        _ = faults (result :: kept) := by
            rw [hfault, ih (Nat.succ.inj h), ← List.singleton_append]
            exact List.filterMap_append.symm

/-! ## One request -/

/-- A suppressed call is no call, whatever state the writer is in. -/
theorem step_suppressed (h : request.direct? s.writer.level = none) :
    s.step request = pure (.ok .nothing, s) := by
  cases request with
  | log level message =>
    have hbelow : ¬ level.passes s.writer.level = true := by simpa [Request.direct?] using h
    rw [step, Logger.log, Logger.isEnabled, if_neg hbelow]
    rfl
  | logFormatted level template arguments =>
    have hbelow : ¬ level.passes s.writer.level = true := by simpa [Request.direct?] using h
    rw [step, Logger.logFormatted, Logger.isEnabled, if_neg hbelow]
    rfl
  | _ => cases h

/-- A logger returns no length, so what it passes on is the answer to the call of the writer without
the length. -/
private theorem bind_settle (d : Dialogue (Writer.Outcome Nat)) :
    ((d >>= fun written => pure (written.1.map fun _ => (), written.2)) >>= fun outcome =>
        pure (s.settle (fun _ : Unit => .nothing) outcome) : Dialogue Outcome) =
      (d >>= fun written => pure (s.settle .size written)) >>= fun answered =>
        pure (answered.1.map fun _ => .nothing, answered.2) := by
  simp only [bind_assoc, pure_bind]
  refine bind_congr fun (written, w) => ?_
  cases written <;> rfl

/-- Every other call is one of the writer, and its answer is passed on. -/
theorem step_passed (h : request.direct? s.writer.level = some direct) : s.step request =
    s.step direct >>= fun answered => pure (request.passOn answered.1, answered.2) := by
  cases request with
  | log level message =>
    obtain ⟨hpasses, hdirect⟩ := Option.ite_none_right_eq_some.mp h
    obtain rfl := Option.some.inj hdirect
    -- Both sides are steps, and only that of the logger is opened.
    conv_lhs => rw [step, Logger.log, Logger.isEnabled, if_pos hpasses]
    exact bind_settle _
  | logFormatted level template arguments =>
    obtain ⟨hpasses, hdirect⟩ := Option.ite_none_right_eq_some.mp h
    obtain rfl := Option.some.inj hdirect
    conv_lhs => rw [step, Logger.logFormatted, Logger.isEnabled, if_pos hpasses]
    exact bind_settle _
  | _ =>
    obtain rfl := Option.some.inj h
    exact (bind_pure _).symm

/-- The threshold changes by setting it only. -/
theorem level_of_passed (h : request.direct? s.writer.level = some direct)
    (hstep : (s.step direct).Runs es (reply, s')) :
    s'.writer.level = request.thresholdFrom s.writer.level := by
  cases request with
  | log =>
    obtain ⟨_, hdirect⟩ := Option.ite_none_right_eq_some.mp h
    obtain rfl := Option.some.inj hdirect
    obtain ⟨_, _, hrun, _, rfl⟩ := runs_settle.mp hstep
    exact Writer.level_of_write hrun
  | logFormatted =>
    obtain ⟨_, hdirect⟩ := Option.ite_none_right_eq_some.mp h
    obtain rfl := Option.some.inj hdirect
    obtain ⟨_, _, hrun, _, rfl⟩ := runs_settle.mp hstep
    exact Writer.level_of_writeFormatted hrun
  | write =>
    obtain rfl := Option.some.inj h
    obtain ⟨_, _, hrun, _, rfl⟩ := runs_settle.mp hstep
    exact Writer.level_of_write hrun
  | writeFormatted =>
    obtain rfl := Option.some.inj h
    obtain ⟨_, _, hrun, _, rfl⟩ := runs_settle.mp hstep
    exact Writer.level_of_writeFormatted hrun
  | flush =>
    obtain rfl := Option.some.inj h
    obtain ⟨_, _, hrun, _, rfl⟩ := runs_settle.mp hstep
    exact Writer.level_of_flush hrun
  | resetDestination =>
    obtain rfl := Option.some.inj h
    obtain ⟨_, _, hrun, _, rfl⟩ := runs_settle.mp hstep
    exact Writer.level_of_resetDestination hrun
  | close =>
    obtain rfl := Option.some.inj h
    obtain ⟨_, _, hrun, _, rfl⟩ := runs_step_close.mp hstep
    exact (closed_of_close hrun).2
  | setLevel | setClock | refresh =>
    obtain rfl := Option.some.inj h
    rw [step, Dialogue.runs_pure, Prod.mk.injEq] at hstep
    rw [hstep.2.2]
    rfl

/-! ## Runs -/

theorem runs_runAll_cons : (s.runAll (request :: rest)).Runs es (results, t) ↔
    ∃ es₁ reply s' es₂ later, (s.step request).Runs es₁ (reply, s') ∧
      (s'.runAll rest).Runs es₂ (later, t) ∧ es = es₁ ++ es₂ ∧ results = reply :: later := by
  rw [runAll, Dialogue.runs_bind]
  constructor
  · rintro ⟨es₁, ⟨reply, s'⟩, es₂, hstep, h, rfl⟩
    obtain ⟨⟨later, t'⟩, hrest, heq⟩ := Dialogue.runs_bind_pure.mp h
    obtain ⟨rfl, rfl⟩ := Prod.mk.inj heq
    exact ⟨es₁, reply, s', es₂, later, hstep, hrest, rfl, rfl⟩
  · rintro ⟨es₁, reply, s', es₂, later, hstep, hrest, rfl, rfl⟩
    exact ⟨es₁, (reply, s'), es₂, hstep, Dialogue.runs_bind_pure.mpr ⟨(later, t), hrest, rfl⟩, rfl⟩

/-- Every request has a result. -/
theorem length_of_runAll (h : (s.runAll requests).Runs es (results, t)) :
    results.length = requests.length := by
  induction requests generalizing s es results with
  | nil =>
    obtain ⟨_, h⟩ := Dialogue.runs_pure.mp h
    rw [(Prod.mk.inj h).1]
    rfl
  | cons request rest ih =>
    obtain ⟨_, _, _, _, later, _, hrest, _, rfl⟩ := runs_runAll_cons.mp h
    exact congrArg Nat.succ (ih hrest)

/-- A run is the run of what its requests ask of the writer itself. -/
theorem runs_erase : (s.runAll requests).Runs es (results, t) ↔
    ∃ kept, (s.runAll (erase s.writer.level requests)).Runs es (kept, t) ∧
      results = restore s.writer.level requests kept := by
  induction requests generalizing s es results with
  | nil =>
    constructor
    · intro h
      obtain ⟨_, hresults⟩ := Dialogue.runs_pure.mp h
      exact ⟨results, h, (Prod.mk.inj hresults).1⟩
    · rintro ⟨kept, h, rfl⟩
      obtain ⟨rfl, hkept⟩ := Dialogue.runs_pure.mp h
      rw [(Prod.mk.inj hkept).2]
      exact .done _
  | cons request rest ih =>
    cases hasked : request.direct? s.writer.level with
    | none =>
      rw [runs_runAll_cons, erase_of_none hasked, step_suppressed hasked]
      simp only [restore_of_none hasked, Dialogue.runs_pure, Prod.mk.injEq]
      constructor
      · rintro ⟨_, _, _, es₂, later, ⟨rfl, rfl, rfl⟩, hrest, rfl, rfl⟩
        obtain ⟨kept, hkept, rfl⟩ := ih.mp hrest
        exact ⟨kept, hkept, rfl⟩
      · rintro ⟨kept, hkept, rfl⟩
        exact ⟨[], _, s, es, _, ⟨rfl, rfl, rfl⟩, ih.mpr ⟨kept, hkept, rfl⟩, rfl, rfl⟩
    | some direct =>
      rw [runs_runAll_cons, erase_of_some hasked, step_passed hasked]
      simp only [runs_runAll_cons, Dialogue.runs_bind_pure]
      constructor
      · rintro ⟨es₁, _, s', es₂, later, ⟨⟨answer, s''⟩, hstep, heq⟩, hrest, rfl, rfl⟩
        obtain ⟨rfl, rfl⟩ := Prod.mk.inj heq
        obtain ⟨kept, hkept, rfl⟩ := ih.mp hrest
        -- The writer has by then the threshold from which the rest is erased.
        rw [level_of_passed hasked hstep] at hkept ⊢
        exact ⟨_, ⟨es₁, answer, s', es₂, kept, hstep, hkept, rfl, rfl⟩,
          (restore_of_some hasked rest answer kept).symm⟩
      · rintro ⟨_, ⟨es₁, answer, s', es₂, kept, hstep, hrest, rfl, rfl⟩, rfl⟩
        rw [← level_of_passed hasked hstep] at hrest
        refine ⟨es₁, _, s', es₂, _, ⟨(answer, s'), hstep, rfl⟩, ih.mpr ⟨kept, hrest, rfl⟩, rfl, ?_⟩
        rw [restore_of_some hasked, level_of_passed hasked hstep]

/-- However loggers and requests to the writer itself are mixed, whatever the sinks answer: what
passes between the writer and the world outside, and the session in the end, are those of the run in
which each call of a logger below the threshold in force is left out and every other one is made of
the writer. The faults are the same as well, and a logger returns nothing but them. A call that is
left out raises no fault and does nothing else, whatever its template, its arguments and the state
of the writer are. -/
theorem loggers_are_writer_without_suppressed_calls {ι : Type} (s : Session)
    (calls : List (Call ι)) :
    (∀ es results t, (s.runAll (calls.map Call.request)).Runs es (results, t) ↔
      ∃ kept, (s.runAll (erase s.writer.level (calls.map Call.request))).Runs es (kept, t) ∧
        results = restore s.writer.level (calls.map Call.request) kept ∧
        faults results = faults kept) ∧
    ∀ (s' : Session) (call : Call ι), call.request.direct? s'.writer.level = none →
      s'.step call.request = pure (.ok .nothing, s') := by
  refine ⟨fun es results t => ?_, fun s' call h => step_suppressed h⟩
  rw [runs_erase]
  constructor
  · rintro ⟨kept, hkept, rfl⟩
    exact ⟨kept, hkept, rfl, faults_restore (length_of_runAll hkept)⟩
  · rintro ⟨kept, hkept, hresults, _⟩
    exact ⟨kept, hkept, hresults⟩

/-- Two loggers on a writer with the threshold for warnings, which is raised and then closed. A
template that lacks an argument, an error below the raised threshold and a malformed template on the
closed writer are left out. -/
theorem loggers_are_writer_without_suppressed_calls_two :
    ∃ es results kept t,
      (runAll ⟨0, .create 0 0, ⟨.warn, 64, some (.empty ⟨0, utf8 "sink"⟩ 64)⟩⟩
        [.logFormatted .info (utf8 "%d %d") [.int 1], .log .error (utf8 "hi"), .setLevel .critical,
          .log .error (utf8 "no"), .close, .logFormatted .warn (utf8 "%d %z") [],
          .log .critical (utf8 "late")]).Runs es (results, t) ∧
      (runAll ⟨0, .create 0 0, ⟨.warn, 64, some (.empty ⟨0, utf8 "sink"⟩ 64)⟩⟩
        [.write .error (utf8 "hi"), .setLevel .critical, .close,
          .write .critical (utf8 "late")]).Runs es (kept, t) ∧
      es = [.offered ⟨0, utf8 "sink"⟩ (utf8 "1970/01/01 00:00:00 [ERROR] hi\n") 64,
        .told (.released ⟨0, utf8 "sink"⟩)] ∧
      results = [.ok .nothing, .ok .nothing, .ok .nothing, .ok .nothing, .ok (.success true),
        .ok .nothing, .error (.closed .write)] ∧
      faults kept = [.closed .write] := by
  obtain ⟨hruns, _⟩ := loggers_are_writer_without_suppressed_calls
    ⟨0, .create 0 0, ⟨.warn, 64, some (.empty ⟨0, utf8 "sink"⟩ 64)⟩⟩
    [⟨'a', .logFormatted .info (utf8 "%d %d") [.int 1]⟩, ⟨'b', .log .error (utf8 "hi")⟩,
      ⟨'a', .setLevel .critical⟩, ⟨'b', .log .error (utf8 "no")⟩, ⟨'a', .close⟩,
      ⟨'a', .logFormatted .warn (utf8 "%d %z") []⟩, ⟨'b', .log .critical (utf8 "late")⟩]
  obtain ⟨kept, hkept, _, hfaults⟩ := (hruns _ _ _).mp (Dialogue.runs_converse _ [64])
  exact ⟨_, _, kept, _, Dialogue.runs_converse _ [64], hkept, by decide +kernel, by decide +kernel,
    hfaults.symm.trans (by decide +kernel)⟩

end Session

end LeveledLog
