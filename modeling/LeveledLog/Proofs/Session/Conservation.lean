import LeveledLog.Proofs.Custody
import LeveledLog.Proofs.History
import LeveledLog.Proofs.Writer.Emission
import LeveledLog.Session

/-!
# No line is lost between destinations

A session is written to, flushed and turned to other destinations in any order, while its clock
moves and its stamp is renewed. Every step moves bytes on without reordering them: what its
destinations accepted, one after the other, and what is held behind it are the contributions of
the calls that write, in the order of the calls.
-/

namespace LeveledLog.Session

open Exchange (allTaken DrawnFrom)

/-- A step of a session. -/
abbrev RequestStep := Step Session Request (Except Fault Reply)

variable {s s' start : Session} {b : Buffer} {es : List Exchange} {request : Request}
  {reply : Except Fault Reply} {steps : List RequestStep}

/-! ## Destinations -/

/-- A destination and the bytes it accepted while it was bound. -/
structure Tenure where
  destination : Sink
  accepted : Bytes
  deriving DecidableEq, Repr

/-- The bytes that a sink accepted in exchanges, in order. -/
def acceptedBy (sink : Sink) (es : List Exchange) : Bytes :=
  es.flatMap fun
    | .offered other data answer => if other = sink then data.take answer else []
    | .told _ => []

/-- The destination that a request binds when it returns a reply. -/
def bound : Request → Except Fault Reply → Option Sink
  | .resetDestination destination, .ok (.success true) => destination
  | _, _ => none

/-- The destinations of a session in the order in which they were bound. -/
structure Succession where
  former : List Tenure
  present : Tenure
  deriving DecidableEq, Repr

namespace Succession

/-- The present destination accepts bytes in a step and may be replaced at the end of it. -/
def follow (d : Succession) (step : RequestStep) : Succession :=
  let present : Tenure := ⟨d.present.destination,
    d.present.accepted ++ acceptedBy d.present.destination step.exchanges⟩
  match bound step.request step.reply with
  | none => ⟨d.former, present⟩
  | some sink => ⟨d.former ++ [present], ⟨sink, []⟩⟩

/-- The destinations after steps that began with a first one. -/
def after (first : Sink) (steps : List RequestStep) : Succession :=
  steps.foldl follow ⟨[], ⟨first, []⟩⟩

/-- The bytes that all destinations accepted, each in its turn. -/
def accepted (d : Succession) : Bytes := d.former.flatMap Tenure.accepted ++ d.present.accepted

theorem after_snoc (first : Sink) (steps : List RequestStep) (step : RequestStep) :
    after first (steps ++ [step]) = (after first steps).follow step := List.foldl_concat ..

/-- The last destination is the one that was bound last. -/
theorem follow_destination (d : Succession) (step : RequestStep) :
    (d.follow step).present.destination =
      (bound step.request step.reply).getD d.present.destination := by
  unfold follow
  cases bound step.request step.reply with
  | none => rfl
  | some sink => rfl

/-- A step adds what the present destination accepts in it. -/
theorem follow_accepted (d : Succession) (step : RequestStep) :
    (d.follow step).accepted =
      d.accepted ++ acceptedBy d.present.destination step.exchanges := by
  unfold follow
  cases bound step.request step.reply with
  | none => simp only [accepted, List.append_assoc]
  | some sink =>
    simp only [accepted, List.flatMap_append, List.flatMap_cons, List.flatMap_nil,
      List.append_nil, List.append_assoc]

end Succession

/-- When no other sink is offered anything, what a sink accepts is all that is taken. -/
theorem acceptedBy_eq {sink : Sink} (h : ∀ e ∈ es, e.ConcernsOnly sink) :
    acceptedBy sink es = allTaken es := by
  induction es with
  | nil => rfl
  | cons e es ih =>
    obtain ⟨he, hes⟩ := List.forall_mem_cons.mp h
    have htail := ih hes
    cases e with
    | offered other data answer =>
      cases he
      simp only [acceptedBy, allTaken, List.flatMap_cons, ite_true, Exchange.taken] at htail ⊢
      rw [htail]
    | told notice => simpa only [acceptedBy, allTaken, List.flatMap_cons, List.nil_append,
        Exchange.taken] using htail

/-! ## Contributions -/

/-- Whether a request writes a line. -/
def writesLine : Request → Bool
  | .write _ _ => true
  | .writeFormatted _ _ _ => true
  | _ => false

/-- What a request contributes to the bytes of the log under a stamp, by its reply. -/
inductive Contributes (stamp : Bytes) : Request → Except Fault Reply → Bytes → Prop
  /-- A message contributes by what became of its line. -/
  | write {level : Level} {message contribution : Bytes} {result : Except Fault Nat} :
      Writer.LineOutcome (Line.whole stamp level message) result contribution →
      Contributes stamp (.write level message) (result.map .size) contribution
  /-- A filled template contributes by what became of its line. -/
  | writeFormatted {level : Level} {template body contribution : Bytes}
      {arguments : List Argument} {result : Except Fault Nat} :
      Line.Body template arguments body →
      Writer.LineOutcome (Line.whole stamp level body) result contribution →
      Contributes stamp (.writeFormatted level template arguments) (result.map .size) contribution
  /-- A template that is refused contributes nothing. -/
  | refused {level : Level} {template : Bytes} {arguments : List Argument} {fault : FormatFault} :
      Contributes stamp (.writeFormatted level template arguments) (.error (.format fault)) []
  /-- A request that writes no line contributes nothing. -/
  | other {request : Request} {reply : Except Fault Reply} : writesLine request = false →
      Contributes stamp request reply []

/-- The line that a request may append under a stamp: that of a message or of a filled template,
and otherwise none. -/
inductive Appends (stamp : Bytes) : Request → Bytes → Prop
  | write {level : Level} {message : Bytes} :
      Appends stamp (.write level message) (Line.whole stamp level message)
  | writeFormatted {level : Level} {template body : Bytes} {arguments : List Argument} :
      Line.Body template arguments body →
      Appends stamp (.writeFormatted level template arguments) (Line.whole stamp level body)
  | none {request : Request} : Appends stamp request []

/-- The stamp that a step leaves, by the stamp before it: that of the clock after a refresh. -/
def stampAfter (stamp : Bytes) (step : RequestStep) : Bytes :=
  if step.request = .refresh then Stamp.ofInstant step.before.clock else stamp

/-- The stamp of the last refresh in steps, or the first stamp when there was none. -/
def lastStamp (first : Bytes) (steps : List RequestStep) : Bytes := steps.foldl stampAfter first

theorem lastStamp_snoc (first : Bytes) (steps : List RequestStep) (step : RequestStep) :
    lastStamp first (steps ++ [step]) = stampAfter (lastStamp first steps) step :=
  List.foldl_concat ..

/-- What the requests of steps contribute one after the other, each under the stamp of the last
refresh before it. -/
inductive Contributions (first : Bytes) : List RequestStep → List Bytes → Prop
  | nil : Contributions first [] []
  | snoc {steps : List RequestStep} {contributions : List Bytes} {step : RequestStep}
      {contribution : Bytes} :
      Contributions first steps contributions →
      Contributes (lastStamp first steps) step.request step.reply contribution →
      Contributions first (steps ++ [step]) (contributions ++ [contribution])

/-! ## Steps -/

/-- A request is made of the writer itself or of its clock and stamps, and leaves it open. -/
def Direct : Request → Prop
  | .log _ _ => False
  | .logFormatted _ _ _ => False
  | .close => False
  | _ => True

/-- The sink that a request hands over. -/
def handedOver : Request → Option Sink
  | .resetDestination destination => destination
  | _ => none

/-- Bytes of a line moved from a buffer to its sink behind those held before them, while a sink
may have been handed over, and then the sink was replaced if there is a next one. -/
structure Moves (b : Buffer) (line contribution : Bytes) (handed : Option Sink)
    (es : List Exchange) (next : Option Sink) (c : Buffer) : Prop where
  sound : c.Sound
  /-- What was accepted and what is held is what was held and what was contributed. -/
  order : allTaken es ++ c.held = b.held ++ contribution
  /-- What was offered is what was held and then the line. -/
  drawn : DrawnFrom (b.held ++ line) es
  /-- The sink is the next one if there is one. -/
  sink : c.sink = next.getD b.sink
  capacity : c.capacity = b.capacity
  /-- Only the sink is offered anything, and no other one is kept in its place. -/
  custody : Custody (some b.sink) handed es (some c.sink)

namespace Moves

variable {c : Buffer} {line contribution : Bytes}

/-- A flow to the sink moves bytes. -/
theorem of_flow (h : b.Flow contribution (allTaken es) c) (hc : c.Sound)
    (hdrawn : DrawnFrom (b.held ++ line) es) (hoffers : ∀ e ∈ es, e.IsOfferTo b.sink) :
    Moves b line contribution none es none c :=
  ⟨hc, h.order, hdrawn, h.sink, h.capacity, h.sink.symm ▸ .of_only_offers hoffers⟩

/-- Nothing moves while nothing happens. -/
theorem refl (hb : b.Sound) : Moves b [] [] none [] none b :=
  of_flow (.refl b) hb (Exchange.drawnFrom_nil _) (by simp)

/-- A flush moves what is held. -/
theorem flush {done : Bool} (hb : b.Sound) (h : b.flush.Runs es (done, c)) :
    Moves b [] [] none es none c :=
  of_flow (Buffer.flow_flush h) (hb.flush h) ((Buffer.drawn_flush h).mono (List.prefix_append ..))
    (Buffer.offers_flush h)

/-- A flush is followed by notices, and by a change of the sink or not. -/
theorem flush_told {done : Bool} {handed next : Option Sink} {sink : Sink} (hb : b.Sound)
    (h : b.flush.Runs es (done, c)) (hsink : sink = next.getD b.sink) (notices : List Notice)
    (hbalance : (Exchange.released (notices.map .told) ++ [sink]).Perm
      (b.sink :: handed.toList)) :
    Moves b [] [] handed (es ++ notices.map .told) next { c with sink } where
  sound := ⟨(hb.flush h).roomy, (hb.flush h).fits, (hb.flush h).balance⟩
  order := by
    rw [Exchange.allTaken_append, Exchange.allTaken_told, List.append_nil]
    exact (Buffer.flow_flush h).order
  drawn := (flush hb h).drawn.append (Exchange.drawnFrom_told c.held notices)
    (by rw [(flush hb h).order])
  sink := hsink
  capacity := (Buffer.flow_flush h).capacity
  custody := .of_offers (Buffer.offers_flush h) notices hbalance

end Moves

/-- What a request returns that an operation of the writer answers. -/
theorem runs_settle {α : Type} {d : Dialogue (Writer.Outcome α)} {answer : α → Reply} :
    (d >>= fun outcome => pure (s.settle answer outcome) : Dialogue Outcome).Runs es (reply, s') ↔
      ∃ result w', d.Runs es (result, w') ∧ reply = result.map answer ∧
        s' = { s with writer := w' } := by
  rw [Dialogue.runs_bind_pure]
  constructor
  · rintro ⟨⟨result, w'⟩, h, heq⟩
    obtain ⟨rfl, rfl⟩ := Prod.mk.inj heq
    exact ⟨result, w', h, rfl, rfl⟩
  · rintro ⟨result, w', h, rfl, rfl⟩
    exact ⟨(result, w'), h, rfl⟩

/-- Closing a session is closing its writer. -/
theorem runs_step_close : (s.step .close).Runs es (reply, s') ↔
    ∃ complete w', s.writer.close.Runs es (complete, w') ∧ reply = .ok (.success complete) ∧
      s' = { s with writer := w' } := by
  rw [step, Dialogue.runs_bind_pure]
  constructor
  · rintro ⟨⟨complete, w'⟩, h, heq⟩
    obtain ⟨rfl, rfl⟩ := Prod.mk.inj heq
    exact ⟨complete, w', h, rfl, rfl⟩
  · rintro ⟨complete, w', h, rfl, rfl⟩
    exact ⟨(complete, w'), h, rfl⟩

/-- The line of a call moves as far as it becomes part of the log. -/
theorem emit_moves {w w' : Writer} {texts : List Bytes} {result : Except Fault Nat}
    (hb : b.Sound) (h : (w.emit b (texts.map .ok)).Runs es (result, w')) :
    ∃ c contribution, w' = w.withStream c ∧
      Writer.LineOutcome texts.flatten result contribution ∧
      Moves b texts.flatten contribution none es none c := by
  obtain ⟨c, contribution, rfl, hc, hf, hsink, hdrawn, hline⟩ := Writer.emit_outcome hb h
  exact ⟨c, contribution, rfl, hline, .of_flow hf hc hdrawn hsink⟩

/-- A filled template moves as its line does, and nothing moves when it is refused. -/
theorem writeFormatted_moves {w w' : Writer} {stamp template : Bytes} {level : Level}
    {arguments : List Argument} {result : Except Fault Nat} (hb : b.Sound)
    (h : ((w.withStream b).writeFormatted stamp level template arguments).Runs es (result, w')) :
    ∃ c line contribution, w' = w.withStream c ∧
      Contributes stamp (.writeFormatted level template arguments) (result.map .size)
        contribution ∧
      Appends stamp (.writeFormatted level template arguments) line ∧
      Moves b line contribution none es none c := by
  by_cases hm : Line.Misfit template arguments
  · obtain ⟨fault, hrefused⟩ := Writer.writeFormatted_misfit hm w b stamp level
    rw [hrefused, Dialogue.runs_pure, Prod.mk.injEq] at h
    obtain ⟨rfl, rfl, rfl⟩ := h
    exact ⟨b, [], [], rfl, .refused, .none, .refl hb⟩
  · obtain ⟨texts, _, ⟨body, hbody, htexts⟩, hwrite⟩ :=
      Writer.writeFormatted_fitting hm w b stamp level
    rw [hwrite] at h
    obtain ⟨c, contribution, hw', hline, hmoves⟩ := emit_moves hb h
    rw [htexts] at hline hmoves
    exact ⟨c, _, contribution, hw', .writeFormatted hbody hline, .writeFormatted hbody, hmoves⟩

/-- Turning to another destination moves what is held to the old one. -/
theorem resetDestination_moves {w w' : Writer} {destination : Option Sink}
    {result : Except Fault Bool} (hb : b.Sound)
    (h : ((w.withStream b).resetDestination destination).Runs es (result, w')) :
    ∃ c, w' = w.withStream c ∧
      Moves b [] [] destination es
        (bound (.resetDestination destination) (result.map .success)) c := by
  cases destination with
  | none =>
    rw [Writer.resetDestination, Dialogue.runs_pure, Prod.mk.injEq] at h
    obtain ⟨rfl, rfl, rfl⟩ := h
    exact ⟨b, rfl, .refl hb⟩
  | some sink =>
    obtain ⟨done, c, flushed, hflush, rfl, rfl, rfl⟩ := Writer.runs_resetDestination h
    have hsink : c.sink = b.sink := (Buffer.flow_flush hflush).sink
    cases done with
    | true => exact ⟨_, rfl, .flush_told hb hflush rfl _ (by rw [hsink]; exact .refl _)⟩
    | false => exact ⟨c, rfl, .flush_told hb hflush hsink _ (by rw [hsink]; exact .swap ..)⟩

/-- In every step bytes move by what the request contributes. -/
theorem step_moves (hw : s.writer.stream = some b) (hb : b.Sound) (hd : Direct request)
    (hstep : (s.step request).Runs es (reply, s')) :
    ∃ c line contribution, s'.writer.stream = some c ∧
      Contributes s.stamps.current request reply contribution ∧
      Appends s.stamps.current request line ∧
      Moves b line contribution (handedOver request) es (bound request reply) c := by
  have hopen := Writer.eq_withStream hw
  cases request with
  | write level message =>
    obtain ⟨result, w', h, rfl, rfl⟩ := runs_settle.mp hstep
    obtain ⟨texts, htexts, hwrite⟩ := Writer.write_made s.writer b s.stamps.current level message
    rw [hopen, hwrite] at h
    obtain ⟨c, contribution, rfl, hline, hmoves⟩ := emit_moves hb h
    rw [htexts] at hline hmoves
    exact ⟨c, _, contribution, rfl, .write hline, .write, hmoves⟩
  | writeFormatted level template arguments =>
    obtain ⟨result, w', h, rfl, rfl⟩ := runs_settle.mp hstep
    rw [hopen] at h
    obtain ⟨c, line, contribution, rfl, hcontributes, hline, hmoves⟩ := writeFormatted_moves hb h
    exact ⟨c, line, contribution, rfl, hcontributes, hline, hmoves⟩
  | flush =>
    obtain ⟨result, w', h, rfl, rfl⟩ := runs_settle.mp hstep
    rw [hopen] at h
    obtain ⟨done, c, hflush, rfl, rfl⟩ := Writer.runs_flush h
    exact ⟨c, [], [], rfl, .other rfl, .none, .flush hb hflush⟩
  | resetDestination destination =>
    obtain ⟨result, w', h, rfl, rfl⟩ := runs_settle.mp hstep
    rw [hopen] at h
    obtain ⟨c, rfl, hmoves⟩ := resetDestination_moves hb h
    exact ⟨c, [], [], rfl, .other rfl, .none, hmoves⟩
  | setLevel | setClock | refresh =>
    rw [step, Dialogue.runs_pure, Prod.mk.injEq] at hstep
    obtain ⟨rfl, rfl, rfl⟩ := hstep
    exact ⟨b, [], [], hw, .other rfl, .none, .refl hb⟩
  | log | logFormatted | close => exact hd.elim

/-- The stamp changes by a refresh only. -/
theorem step_stamp (hstep : (s.step request).Runs es (reply, s')) :
    s'.stamps.current =
      if request = .refresh then Stamp.ofInstant s.clock else s.stamps.current := by
  cases request with
  | refresh =>
    rw [step, Dialogue.runs_pure, Prod.mk.injEq] at hstep
    obtain ⟨rfl, rfl, rfl⟩ := hstep
    rfl
  | setLevel | setClock =>
    rw [step, Dialogue.runs_pure, Prod.mk.injEq] at hstep
    obtain ⟨rfl, rfl, rfl⟩ := hstep
    rfl
  | write | writeFormatted | log | logFormatted | flush | resetDestination =>
    obtain ⟨_, _, _, rfl, rfl⟩ := runs_settle.mp hstep
    rfl
  | close =>
    obtain ⟨_, _, _, rfl, rfl⟩ := runs_step_close.mp hstep
    rfl

/-! ## Histories -/

/-- Steps ask for nothing but what is direct. -/
def AllDirect (_ : List RequestStep) (step : RequestStep) : Prop := Direct step.request

/-- After every history the buffer is before the destination that was bound last, and what the
destinations accepted together with what it holds are the contributions. -/
theorem history_conserves {sink : Sink} (hw : start.writer.stream = some b) (hb : b.Sound)
    (hsink : b.sink = sink) (hempty : b.held = [])
    (h : History step AllDirect start steps s) :
    s.stamps.current = lastStamp start.stamps.current steps ∧
      ∃ c contributions, s.writer.stream = some c ∧ c.Sound ∧
        (Succession.after sink steps).present.destination = c.sink ∧
        (Succession.after sink steps).accepted = Step.accepted steps ∧
        Step.accepted steps ++ c.held = contributions.flatten ∧
        Contributions start.stamps.current steps contributions := by
  induction h with
  | start => exact ⟨rfl, b, [], hw, hb, hsink.symm, rfl, by simp [hempty], .nil⟩
  | @snoc steps next _ hdirect hr ih =>
    obtain ⟨hstamp, c, contributions, hc, hsound, hdest, hacc, horder, hall⟩ := ih
    obtain ⟨c', _, contribution, hc', hcontributes, _, hmoves⟩ := step_moves hc hsound hdirect hr
    rw [hstamp] at hcontributes
    refine ⟨?_, c', contributions ++ [contribution], hc', hmoves.sound, ?_, ?_, ?_,
      hall.snoc hcontributes⟩
    · rw [lastStamp_snoc, ← hstamp, stampAfter, step_stamp hr]
    · rw [Succession.after_snoc, Succession.follow_destination, hdest, hmoves.sink]
    · rw [Succession.after_snoc, Succession.follow_accepted, hdest,
        acceptedBy_eq hmoves.custody.concernsOnly, hacc, Step.accepted_append,
        Step.accepted_singleton]
    · calc Step.accepted (steps ++ [next]) ++ c'.held
          = Step.accepted steps ++ (allTaken next.exchanges ++ c'.held) := by
            rw [Step.accepted_append, Step.accepted_singleton, List.append_assoc]
        _ = (Step.accepted steps ++ c.held) ++ contribution := by
            rw [hmoves.order, List.append_assoc]
        _ = (contributions ++ [contribution]).flatten := by
            rw [horder, List.flatten_concat]

/-- From the making of a writer, whatever is asked of it in whatever order and whatever its
destinations answer, what they accepted in the order in which they were bound, followed by what
is held, is what the calls contributed in their order: a call that returned contributes its
whole line and returns the length of it, a call that was refused or reports its destination
without a delivery contributes nothing, and a call that reports a delivery contributes a
beginning of its line, which is neither empty nor all of it. -/
theorem bytes_leave_in_call_order {sink : Sink} {settings : Settings} {pageSize : Int64}
    (hmade : (Writer.create (some sink) true settings pageSize).Runs [] (.ok start.writer))
    (h : History step AllDirect start steps s) :
    ∃ b contributions, s.writer.stream = some b ∧
      (Succession.after sink steps).present.destination = b.sink ∧
      (Succession.after sink steps).accepted = Step.accepted steps ∧
      (Succession.after sink steps).accepted ++ b.held = contributions.flatten ∧
      Contributions start.stamps.current steps contributions := by
  obtain ⟨capacity, hroom, hstream⟩ := Writer.stream_of_create hmade
  have hsink : (Buffer.empty sink capacity).sink = sink := rfl
  obtain ⟨_, b, contributions, hb, _, hdest, hacc, horder, hall⟩ :=
    history_conserves hstream (.empty hroom) hsink rfl h
  exact ⟨b, contributions, hb, hdest, hacc, by rw [hacc, horder], hall⟩

/-- A line is cut by the first destination after three bytes. The second one takes the stamp of
the next line and then five of the eight bytes held, so that line is cut as well. -/
theorem bytes_leave_in_call_order_twice_cut :
    ∃ (start s : Session) (steps : List RequestStep),
      (Writer.create (some ⟨0, utf8 "first"⟩) true ⟨.debug, 8⟩ 4096).Runs []
        (.ok start.writer) ∧
      History step AllDirect start steps s ∧
      Succession.after ⟨0, utf8 "first"⟩ steps =
        ⟨[⟨⟨0, utf8 "first"⟩, utf8 "197"⟩],
          ⟨⟨1, utf8 "second"⟩, utf8 "1970/01/01 00:00:00 [INFO"⟩⟩ ∧
      ∃ b contributions, s.writer.stream = some b ∧
        (Succession.after ⟨0, utf8 "first"⟩ steps).accepted ++ b.held = contributions.flatten ∧
        Contributions start.stamps.current steps contributions := by
  have begun : History step AllDirect
    ⟨0, .create 0 0, ⟨.debug, 8, some (.empty ⟨0, utf8 "first"⟩ 8)⟩⟩ [] _ := .start
  have cut := begun.answered (.write .info (utf8 "hi")) [3] trivial
  have turned := cut.answered (.resetDestination (some ⟨1, utf8 "second"⟩)) [] trivial
  have cutAgain := turned.answered (.writeFormatted .info (utf8 "%d") [.int 7]) [20, 5] trivial
  have hmade : (Writer.create (some ⟨0, utf8 "first"⟩) true ⟨.debug, 8⟩ 4096).Runs []
      (.ok ⟨.debug, 8, some (.empty ⟨0, utf8 "first"⟩ 8)⟩) := .done _
  obtain ⟨b, contributions, hb, _, _, horder, hall⟩ := bytes_leave_in_call_order hmade cutAgain
  exact ⟨_, _, _, hmade, cutAgain, by decide +kernel, b, contributions, hb, horder, hall⟩

end LeveledLog.Session
