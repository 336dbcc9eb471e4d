import LeveledLog.Proofs.Session.Conservation

/-!
# The end of a session

Closing offers what is held to the destination once more and reports what it did not take. From
then on a session has one answer to every request, which depends on nothing but the request and
the threshold, and no destination is offered anything any more.
-/

namespace LeveledLog.Session

open Exchange (allTaken offers released diagnoses)

variable {s s' t : Session} {b : Buffer} {es : List Exchange} {request : Request}
  {reply : Except Fault Reply}

/-! ## Closing -/

/-- Closing offers what is held in one piece, and reports by their number the bytes that the
destination did not take, if there are any. -/
theorem close_accounts {w w' : Writer} {complete : Bool} (hw : w.stream = some b)
    (h : w.close.Runs es (complete, w')) :
    w'.isClosed = true ∧ w'.level = w.level ∧
      (complete = true ↔ allTaken es = b.held) ∧
      offers es = (if b.held = [] then [] else [(b.sink, b.held)]) ∧
      released es = [b.sink] ∧
      ∃ lost, allTaken es ++ lost = b.held ∧ (allTaken es).length + lost.length = b.buffered ∧
        diagnoses es = if complete then [] else [⟨.error, utf8 "FormattingWriter: dropped " ++
          Numeral.decimal lost.length ++ utf8 " buffered bytes closing " ++ b.sink.name⟩] := by
  rw [Writer.eq_withStream hw] at h
  obtain ⟨c, flushed, hflush, rfl, rfl⟩ := Writer.runs_close h
  have hflow := Buffer.flow_flush hflush
  have horder : allTaken flushed ++ c.held = b.held := by
    simpa only [List.append_nil] using hflow.order
  obtain ⟨hreleased, hdiagnoses⟩ := Exchange.released_of_offers (Buffer.offers_flush hflush)
  have hcomplete : complete = true ↔ allTaken flushed = b.held := by
    rw [Buffer.flush_complete_iff hflush, ← horder, List.self_eq_append_right]
  -- What is lost is what the flush leaves in the buffer.
  refine ⟨rfl, rfl, ?_, ?_, ?_, c.held, ?_, ?_, ?_⟩
  · simpa using hcomplete
  · simpa using Buffer.offered_flush hflush
  · cases complete <;> simp [hreleased, hflow.sink]
  · simpa using horder
  · simpa [Buffer.buffered] using hflow.length_eq
  · cases complete <;> simp [hdiagnoses, Writer.droppedReport, hflow.sink, Buffer.buffered]

/-- Closing leaves a closed writer with the same threshold. -/
theorem closed_of_close {w w' : Writer} {complete : Bool} (h : w.close.Runs es (complete, w')) :
    w'.stream = none ∧ w'.level = w.level := by
  cases hw : w.stream with
  | none =>
    obtain ⟨_, _, rfl⟩ := (Writer.runs_close_closed hw).mp h
    exact ⟨hw, rfl⟩
  | some b =>
    obtain ⟨hclosed, hlevel, _⟩ := close_accounts hw h
    exact ⟨Writer.isClosed_iff.mp hclosed, hlevel⟩

/-! ## After closing -/

/-- The answer of a session with a closed writer, by the threshold. -/
def closedReply (threshold : Level) : Request → Except Fault Reply
  | .write _ _ => .error (.closed .write)
  | .writeFormatted _ _ _ => .error (.closed .writeFormatted)
  | .log level _ => if level.passes threshold then .error (.closed .write) else .ok .nothing
  | .logFormatted level _ _ =>
    if level.passes threshold then .error (.closed .writeFormatted) else .ok .nothing
  | .flush => .error (.closed .flush)
  | .resetDestination none => .error .missingDestination
  | .resetDestination (some _) => .error (.closed .resetDestination)
  | .close => .ok (.success true)
  | .setLevel _ | .setClock _ | .refresh => .ok .nothing

/-- What passes when a request comes too late: a destination that is not used is released. -/
def closedExchanges : Request → List Exchange
  | .resetDestination (some sink) => [.told (.released sink)]
  | _ => []

/-- What a request that does not need the writer to be open changes. -/
def adjust (s : Session) : Request → Session
  | .setLevel level => { s with writer := s.writer.setLevel level }
  | .setClock now => { s with clock := now }
  | .refresh => { s with stamps := s.stamps.refresh s.clock }
  | _ => s

/-- When a request comes too late, nothing is offered, taken or reported. -/
theorem closedExchanges_unheard (request : Request) :
    offers (closedExchanges request) = [] ∧ allTaken (closedExchanges request) = [] ∧
      diagnoses (closedExchanges request) = [] := by
  unfold closedExchanges
  split <;> exact ⟨rfl, rfl, rfl⟩

/-- The threshold that a step leaves, by the threshold before it. -/
def thresholdAfter (threshold : Level) (step : RequestStep) : Level :=
  match step.request with
  | .setLevel level => level
  | _ => threshold

/-- The threshold set last in steps, or the first one when none was set. -/
def lastThreshold (first : Level) (steps : List RequestStep) : Level :=
  steps.foldl thresholdAfter first

theorem lastThreshold_snoc (first : Level) (steps : List RequestStep) (step : RequestStep) :
    lastThreshold first (steps ++ [step]) = thresholdAfter (lastThreshold first steps) step :=
  List.foldl_concat ..

private theorem step_eq_pure (h : s.writer.stream = none)
    (hsilent : closedExchanges request = []) :
    s.step request = pure (closedReply s.writer.level request, s.adjust request) := by
  have hwrite (level : Level) (message : Bytes) :
      s.writer.write s.stamps.current level message =
        pure (.error (.closed .write), s.writer) := by simp only [Writer.write, h]
  have hfill (level : Level) (template : Bytes) (arguments : List Argument) :
      s.writer.writeFormatted s.stamps.current level template arguments =
        pure (.error (.closed .writeFormatted), s.writer) := by simp only [Writer.writeFormatted, h]
  cases request with
  | write | writeFormatted => simp only [step, hwrite, hfill]; rfl
  | log level message =>
    by_cases hp : (Logger.mk s.writer).isEnabled level = true
    · have hreply : closedReply s.writer.level (.log level message) = .error (.closed .write) :=
        if_pos hp
      rw [step, Logger.log, if_pos hp, hwrite, hreply]
      rfl
    · have hreply : closedReply s.writer.level (.log level message) = .ok .nothing := if_neg hp
      rw [step, Logger.log, if_neg hp, hreply]
      rfl
  | logFormatted level template arguments =>
    by_cases hp : (Logger.mk s.writer).isEnabled level = true
    · have hreply : closedReply s.writer.level (.logFormatted level template arguments) =
          .error (.closed .writeFormatted) := if_pos hp
      rw [step, Logger.logFormatted, if_pos hp, hfill, hreply]
      rfl
    · have hreply : closedReply s.writer.level (.logFormatted level template arguments) =
          .ok .nothing := if_neg hp
      rw [step, Logger.logFormatted, if_neg hp, hreply]
      rfl
  | flush | close => simp only [step, Writer.flush, Writer.close, h]; rfl
  | resetDestination destination =>
    cases destination with
    | none => simp only [step, Writer.resetDestination]; rfl
    | some sink => exact absurd hsilent (List.cons_ne_nil _ _)
  | setLevel | setClock | refresh => rfl

/-- No request opens a writer again. -/
theorem adjust_stream (s : Session) (request : Request) :
    (s.adjust request).writer.stream = s.writer.stream := by
  cases request <;> rfl

/-- The threshold is changed by setting it only. -/
theorem adjust_level (s : Session) (step : RequestStep) :
    (s.adjust step.request).writer.level = thresholdAfter s.writer.level step := by
  unfold thresholdAfter
  cases step.request <;> rfl

/-- A session with a closed writer runs in exactly one way on every request. -/
theorem runs_step_closed (h : s.writer.stream = none) :
    (s.step request).Runs es (reply, s') ↔
      es = closedExchanges request ∧ reply = closedReply s.writer.level request ∧
        s' = s.adjust request := by
  by_cases hsilent : closedExchanges request = []
  · rw [step_eq_pure h hsilent, Dialogue.runs_pure, Prod.mk.injEq, hsilent]
  · -- The one request that does not pass in silence hands over a destination.
    obtain ⟨sink, rfl⟩ : ∃ sink, request = .resetDestination (some sink) := by
      unfold closedExchanges at hsilent
      split at hsilent
      · exact ⟨_, rfl⟩
      · exact absurd rfl hsilent
    have hreset : s.writer.resetDestination (some sink) = (do
        .tell (.released sink)
        return (.error (.closed .resetDestination), s.writer)) := by
      simp only [Writer.resetDestination, h]
    rw [step, runs_settle, hreset]
    simp only [Dialogue.runs_bind, Dialogue.runs_tell, Dialogue.runs_pure, Prod.mk.injEq]
    constructor
    · rintro ⟨_, _, ⟨_, _, _, rfl, ⟨rfl, rfl, rfl⟩, rfl⟩, rfl, rfl⟩
      exact ⟨rfl, rfl, rfl⟩
    · rintro ⟨rfl, rfl, rfl⟩
      exact ⟨_, _, ⟨_, (), _, rfl, ⟨rfl, rfl, rfl⟩, rfl⟩, rfl, rfl⟩

/-- Whatever follows on a closing, the writer stays closed, its threshold is the one set last,
nothing is offered and nothing reported. -/
theorem history_closed {allowed : List RequestStep → RequestStep → Prop}
    {later : List RequestStep} (hclosed : s.writer.stream = none)
    (h : History step allowed s later t) :
    t.writer.stream = none ∧ t.writer.level = lastThreshold s.writer.level later ∧
      offers (Step.allExchanges later) = [] ∧ diagnoses (Step.allExchanges later) = [] := by
  induction h with
  | start => exact ⟨hclosed, rfl, rfl, rfl⟩
  | @snoc later next _ _ hr ih =>
    obtain ⟨hnone, hlevel, hoffers, hdiagnoses⟩ := ih
    obtain ⟨hes, _, hafter⟩ := (runs_step_closed hnone).mp hr
    obtain ⟨hsilent, _, hquiet⟩ := closedExchanges_unheard next.request
    rw [lastThreshold_snoc, ← hlevel, Step.allExchanges_append, Step.allExchanges_singleton,
      Exchange.offers_append, Exchange.diagnoses_append, hoffers, hdiagnoses, hes, hsilent, hquiet,
      hafter]
    exact ⟨by rw [adjust_stream, hnone], adjust_level .., rfl, rfl⟩

/-- Closing offers what is held at most once and is true exactly when all of it was taken. What
was not taken is counted in the one report that is made then, so that every byte is either
accepted or reported. Whatever is asked afterwards, in whatever order, a session answers as a
closed one: it refuses lines, flushes and destinations, a missing destination as such, and
drops in silence only what is below the threshold, which can still be set. It holds nothing,
names no destination, offers nothing to any and reports nothing, and neither another closing nor
the end of the writer changes that. -/
theorem closing_is_final (hclose : (s.step .close).Runs es (reply, s')) :
    (∀ b, s.writer.stream = some b → ∃ complete lost,
      reply = .ok (.success complete) ∧ (complete = true ↔ allTaken es = b.held) ∧
      offers es = (if b.held = [] then [] else [(b.sink, b.held)]) ∧
      allTaken es ++ lost = b.held ∧ (allTaken es).length + lost.length = b.buffered ∧
      diagnoses es = if complete then [] else [⟨.error, utf8 "FormattingWriter: dropped " ++
        Numeral.decimal lost.length ++ utf8 " buffered bytes closing " ++ b.sink.name⟩]) ∧
    ∀ (allowed : List RequestStep → RequestStep → Prop) (later : List RequestStep) (t : Session),
      History step allowed s' later t →
        offers (Step.allExchanges later) = [] ∧ diagnoses (Step.allExchanges later) = [] ∧
        t.writer.isClosed = true ∧ t.writer.buffered = 0 ∧ t.writer.destinationName = [] ∧
        t.writer.level = lastThreshold s.writer.level later ∧
        (∀ request es reply t', (t.step request).Runs es (reply, t') ↔
          es = closedExchanges request ∧ reply = closedReply t.writer.level request ∧
            t' = t.adjust request) ∧
        ∀ es complete w', t.writer.close.Runs es (complete, w') ↔
          es = [] ∧ complete = true ∧ w' = t.writer := by
  obtain ⟨complete, w', hrun, rfl, rfl⟩ := runs_step_close.mp hclose
  have hclosed := closed_of_close hrun
  refine ⟨fun b hw => ?_, fun allowed later t h => ?_⟩
  · obtain ⟨_, _, hcomplete, hoffers, _, lost, horder, hcount, hreport⟩ := close_accounts hw hrun
    exact ⟨complete, lost, rfl, hcomplete, hoffers, horder, hcount, hreport⟩
  · obtain ⟨hnone, hlevel, hoffers, hreports⟩ := history_closed hclosed.1 h
    refine ⟨hoffers, hreports, Writer.isClosed_iff.mpr hnone, ?_, ?_, ?_, ?_, ?_⟩
    · rw [Writer.buffered, hnone, Option.elim_none]
    · rw [Writer.destinationName, Writer.destination?, hnone, Option.map_none, Option.elim_none]
    · rw [hlevel, hclosed.2]
    · exact fun request es reply t' => runs_step_closed hnone
    · exact fun es complete w'' => Writer.runs_close_closed hnone

/-- The destination takes three of eight bytes, so five are reported. A template without its
argument, a missing destination and another one are refused afterwards, each in its own way, and
a message below the threshold that is set then is dropped. -/
theorem closing_is_final_five_left :
    ∃ (closing : RequestStep) (later : List RequestStep) (t : Session),
      closing.before.writer.stream = some ⟨⟨0, utf8 "first"⟩, 8, utf8 "leftover", 8, 0⟩ ∧
      (closing.before.step .close).Runs closing.exchanges (closing.reply, closing.after) ∧
      closing.reply = .ok (.success false) ∧
      diagnoses closing.exchanges =
        [⟨.error, utf8 "FormattingWriter: dropped 5 buffered bytes closing first"⟩] ∧
      History step (fun _ _ => True) closing.after later t ∧
      later.map Step.reply = [.error (.closed .writeFormatted), .error .missingDestination,
        .error (.closed .resetDestination), .ok .nothing, .ok .nothing] ∧
      offers (Step.allExchanges later) = [] ∧ t.writer.isClosed = true ∧
      t.writer.level = .warn := by
  have begun : History step (fun _ _ => True) (Step.answered step ⟨0, .create 0 0, ⟨.debug, 8,
    some ⟨⟨0, utf8 "first"⟩, 8, utf8 "leftover", 8, 0⟩⟩⟩ .close [3]).after [] _ := .start
  have misfit := begun.answered (.writeFormatted .info (utf8 "%d") []) [] trivial
  have missing := misfit.answered (.resetDestination none) [] trivial
  have late := missing.answered (.resetDestination (some ⟨1, utf8 "second"⟩)) [] trivial
  have raised := late.answered (.setLevel .warn) [] trivial
  have dropped := raised.answered (.log .info (utf8 "hi")) [] trivial
  have closed := Dialogue.runs_converse (step ⟨0, .create 0 0, ⟨.debug, 8,
    some ⟨⟨0, utf8 "first"⟩, 8, utf8 "leftover", 8, 0⟩⟩⟩ .close) [3]
  obtain ⟨_, hafter⟩ := closing_is_final closed
  obtain ⟨hoffers, _, hclosed, _, _, hlevel, _⟩ := hafter _ _ _ dropped
  exact ⟨.answered step _ .close [3], _, _, rfl, closed, by decide +kernel, by decide +kernel,
    dropped, by decide +kernel, hoffers, hclosed, hlevel.trans (by decide +kernel)⟩

end LeveledLog.Session
