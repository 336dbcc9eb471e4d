import LeveledLog.Proofs.Session.Closing

/-!
# The ownership of destinations

A writer is handed its destinations one by one and owns each from then on. Whatever its requests
are and however the destinations answer, it offers bytes to the present one only, turns to
another one only over an empty buffer, and releases every one of them once: the old one when it
turns to the next, the next when it cannot turn to it, and the last when it is closed.
-/

namespace LeveledLog.Session

open Exchange (allTaken offers released diagnoses DrawnFrom)

variable {s s' start : Session} {b : Buffer} {es : List Exchange} {request : Request}
  {reply : Except Fault Reply} {steps : List RequestStep} {first : Sink}

/-! ## Steps -/

/-- A request is made of the writer itself or of its clock and stamps. -/
def OfWriter (request : Request) : Prop := Direct request ∨ request = .close

/-- The buffer of a session is sound if there is one. -/
def Sound (s : Session) : Prop := ∀ b ∈ s.writer.stream, b.Sound

/-- The bytes that a session holds. -/
def held (s : Session) : Bytes := s.writer.stream.elim [] Buffer.held

theorem held_of_closed (h : s.writer.stream = none) : s.held = [] := by rw [held, h]; rfl

theorem held_of_open (h : s.writer.stream = some b) : s.held = b.held := by rw [held, h]; rfl

theorem sound_of_closed (h : s.writer.stream = none) : s.Sound := by
  intro b hb
  rw [h] at hb
  cases hb

theorem sound_of_open (h : s.writer.stream = some b) (hb : b.Sound) : s.Sound := by
  intro b' hb'
  rw [h] at hb'
  cases hb'
  exact hb

/-- What a step adds to the bytes of the log: nothing when the writer is closed. -/
def Adds (step : RequestStep) (bytes : Bytes) : Prop :=
  if step.before.writer.isClosed then bytes = []
  else Contributes step.before.stamps.current step.request step.reply bytes

/-- How a step treats the bytes that are held, those it adds, and the destinations. Some bytes
may be lost, but only by closing. -/
structure Handled (step : RequestStep) (added lost : Bytes) : Prop where
  sound : step.after.Sound
  order : allTaken step.exchanges ++ step.after.held ++ lost = step.before.held ++ added
  adds : Adds step added
  /-- What is offered is what was held and then the line of the request. -/
  drawn : ∃ line, Appends step.before.stamps.current step.request line ∧
    DrawnFrom (step.before.held ++ line) step.exchanges
  lost_only_closed : step.after.writer.isClosed = false → lost = []
  stays_closed : step.before.writer.isClosed = true → step.after.writer.isClosed = true
  custody : Custody step.before.writer.destination? (handedOver step.request) step.exchanges
    step.after.writer.destination?

/-- What comes too late is released at once. -/
theorem closedExchanges_custody (request : Request) :
    Custody none (handedOver request) (closedExchanges request) none := by
  have quiet : Custody none none [] none := ⟨⟨[], [], rfl, by simp⟩, .refl _⟩
  cases request with
  | resetDestination destination =>
    cases destination with
    | none => exact quiet
    | some sink => exact ⟨⟨[], [.released sink], rfl, by simp⟩, .refl _⟩
  | write | writeFormatted | log | logFormatted | flush | close | setLevel | setClock | refresh =>
    exact quiet

/-- Closing offers what is held, and releases the destination afterwards. -/
theorem close_custody {w w' : Writer} {complete : Bool} (hw : w.stream = some b)
    (h : w.close.Runs es (complete, w')) :
    DrawnFrom b.held es ∧ Custody (some b.sink) none es none := by
  rw [Writer.eq_withStream hw] at h
  obtain ⟨c, flushed, hflush, rfl, _⟩ := Writer.runs_close h
  have hflow := Buffer.flow_flush hflush
  constructor
  · refine (Buffer.drawn_flush hflush).append (Exchange.drawnFrom_told c.held _) ?_
    rw [hflow.order, List.append_nil]
  · refine .of_offers (Buffer.offers_flush hflush) _ ?_
    rw [hflow.sink]
    cases complete with
    | true => exact .refl _
    | false => exact .refl _

/-- A step on a closed writer moves no bytes. -/
theorem handled_closed {step : RequestStep} (hw : step.before.writer.stream = none)
    (hr : (step.before.step step.request).Runs step.exchanges (step.reply, step.after)) :
    Handled step [] [] := by
  obtain ⟨hes, _, hafter⟩ := (runs_step_closed hw).mp hr
  have hnone : step.after.writer.stream = none := by rw [hafter, adjust_stream, hw]
  have hcustody : Custody none (handedOver step.request) step.exchanges none :=
    hes ▸ closedExchanges_custody step.request
  refine ⟨sound_of_closed hnone, ?order, ?adds, ⟨[], .none, hcustody.drawnFrom _⟩, fun _ => rfl,
    fun _ => Writer.isClosed_iff.mpr hnone, ?custody⟩
  case order =>
    rw [held_of_closed hw, held_of_closed hnone, hes, (closedExchanges_unheard _).2.1]
    rfl
  case adds => rw [Adds, if_pos (Writer.isClosed_iff.mpr hw)]
  case custody =>
    rw [Writer.destination?, Writer.destination?, hw, hnone]
    exact hcustody

/-- A step that leaves the writer open loses nothing. -/
theorem handled_direct {step : RequestStep} (hw : step.before.writer.stream = some b)
    (hb : b.Sound) (hd : Direct step.request)
    (hr : (step.before.step step.request).Runs step.exchanges (step.reply, step.after)) :
    ∃ added, Handled step added [] := by
  obtain ⟨c, line, contribution, hc, hcontributes, hline, hmoves⟩ := step_moves hw hb hd hr
  have hopen := Writer.isClosed_of_open hw
  refine ⟨contribution, sound_of_open hc hmoves.sound, ?order, ?adds, ⟨line, hline, ?drawn⟩,
    fun _ => rfl, fun hclosed => ?stays, ?custody⟩
  case order => rw [held_of_open hw, held_of_open hc, List.append_nil, hmoves.order]
  case adds =>
    rw [Adds, if_neg (by rw [hopen]; decide)]
    exact hcontributes
  case drawn =>
    rw [held_of_open hw]
    exact hmoves.drawn
  case stays =>
    rw [hopen] at hclosed
    cases hclosed
  case custody =>
    rw [Writer.destination?, Writer.destination?, hw, hc]
    exact hmoves.custody

/-- Closing loses what the destination does not take. -/
theorem handled_close {step : RequestStep} (hw : step.before.writer.stream = some b)
    (hclose : step.request = .close)
    (hr : (step.before.step step.request).Runs step.exchanges (step.reply, step.after)) :
    ∃ lost, Handled step [] lost := by
  rw [hclose] at hr
  obtain ⟨complete, w', hrun, hreply, hafter⟩ := runs_step_close.mp hr
  obtain ⟨hclosed, _, _, _, _, lost, horder, _⟩ := close_accounts hw hrun
  obtain ⟨hdrawn, hcustody⟩ := close_custody hw hrun
  have hisClosed : step.after.writer.isClosed = true := by rw [hafter, hclosed]
  have hnone := Writer.isClosed_iff.mp hisClosed
  refine ⟨lost, sound_of_closed hnone, ?order, ?adds, ⟨[], .none, ?drawn⟩, fun hopen => ?lost,
    fun _ => hisClosed, ?custody⟩
  case order =>
    rw [held_of_open hw, held_of_closed hnone, List.append_nil, List.append_nil, horder]
  case adds =>
    rw [Adds, if_neg (by rw [Writer.isClosed_of_open hw]; decide), hclose]
    exact .other rfl
  case drawn =>
    rw [held_of_open hw, List.append_nil]
    exact hdrawn
  case lost =>
    rw [hisClosed] at hopen
    cases hopen
  case custody =>
    rw [Writer.destination?, Writer.destination?, hw, hnone, hclose]
    exact hcustody

/-- Every step of the writer's treats bytes and destinations well. -/
theorem step_handled {step : RequestStep} (hs : step.before.Sound) (hd : OfWriter step.request)
    (hr : (step.before.step step.request).Runs step.exchanges (step.reply, step.after)) :
    ∃ added lost, Handled step added lost := by
  cases hw : step.before.writer.stream with
  | none => exact ⟨_, _, handled_closed hw hr⟩
  | some b =>
    rcases hd with hdirect | hclose
    · obtain ⟨added, h⟩ := handled_direct hw (hs b hw) hdirect hr
      exact ⟨added, [], h⟩
    · obtain ⟨lost, h⟩ := handled_close hw hclose hr
      exact ⟨[], lost, h⟩

/-! ## Histories -/

/-- Steps ask the writer only. -/
def AllOfWriter (_ : List RequestStep) (step : RequestStep) : Prop := OfWriter step.request

theorem history_sound (hs : start.Sound) (h : History step AllOfWriter start steps s) :
    s.Sound := by
  induction h with
  | start => exact hs
  | snoc _ hof hr ih =>
    obtain ⟨_, _, hhandled⟩ := step_handled ih hof hr
    exact hhandled.sound

/-- Over a history, what is accepted, held and lost is what was held and what the steps add, in
order. Something is lost only when the writer is closed. -/
theorem history_adds (hs : start.Sound) (h : History step AllOfWriter start steps s) :
    ∃ added lost, List.Forall₂ Adds steps added ∧
      Step.accepted steps ++ s.held ++ lost = start.held ++ added.flatten ∧
      (s.writer.isClosed = false → lost = []) := by
  induction h with
  | start => exact ⟨[], [], .nil, by simp, fun _ => rfl⟩
  | @snoc steps next hprev hof hr ih =>
    obtain ⟨added, lost, hadds, horder, hlost⟩ := ih
    obtain ⟨bytes, dropped, hnext⟩ := step_handled (history_sound hs hprev) hof hr
    have hall : List.Forall₂ Adds (steps ++ [next]) (added ++ [bytes]) :=
      List.rel_append hadds (.cons hnext.adds .nil)
    by_cases hclosed : next.before.writer.isClosed = true
    · -- Nothing was held, so the step neither takes nor loses anything.
      have hbytes : bytes = [] := by simpa only [Adds, if_pos hclosed] using hnext.adds
      have hempty := hnext.order
      rw [held_of_closed (Writer.isClosed_iff.mp hclosed), hbytes, List.append_nil,
        List.append_eq_nil_iff, List.append_eq_nil_iff] at hempty
      obtain ⟨⟨htaken, hheld⟩, _⟩ := hempty
      rw [held_of_closed (Writer.isClosed_iff.mp hclosed)] at horder
      refine ⟨_, lost, hall, ?_, fun hopen => ?_⟩
      · simpa only [Step.accepted_append, Step.accepted_singleton, htaken, hheld, hbytes,
          List.flatten_concat, List.append_nil] using horder
      · rw [hnext.stays_closed hclosed] at hopen
        cases hopen
    · have hnone : lost = [] := hlost (by simpa using hclosed)
      rw [hnone, List.append_nil] at horder
      refine ⟨_, dropped, hall, ?_, hnext.lost_only_closed⟩
      calc Step.accepted (steps ++ [next]) ++ next.after.held ++ dropped
          = Step.accepted steps ++ (allTaken next.exchanges ++ next.after.held ++ dropped) := by
            simp only [Step.accepted_append, Step.accepted_singleton, List.append_assoc]
        _ = Step.accepted steps ++ next.before.held ++ bytes := by
            rw [hnext.order, List.append_assoc]
        _ = start.held ++ (added ++ [bytes]).flatten := by
            rw [horder, List.flatten_concat, List.append_assoc]

/-- The sinks that were handed to a writer: its first one and those of the requests. -/
def sinksGiven (first : Sink) (steps : List RequestStep) : List Sink :=
  first :: steps.filterMap fun step => handedOver step.request

theorem sinksGiven_snoc (first : Sink) (steps : List RequestStep) (step : RequestStep) :
    sinksGiven first (steps ++ [step]) =
      sinksGiven first steps ++ (handedOver step.request).toList := by
  cases h : handedOver step.request <;> simp [sinksGiven, h]

/-- Steps ask the writer only, and no sink is handed over twice. -/
def Owning (first : Sink) (steps : List RequestStep) (step : RequestStep) : Prop :=
  OfWriter step.request ∧
    ∀ sink ∈ handedOver step.request, sink.id ∉ (sinksGiven first steps).map Sink.id

/-- A history enters every sink that is handed over into the ledger. -/
theorem history_ledger (hs : start.Sound) (hfirst : start.writer.destination? = some first)
    (h : History step (Owning first) start steps s) :
    Ledger (sinksGiven first steps) (Step.allExchanges steps) s.writer.destination? := by
  induction h with
  | start => exact hfirst ▸ .begin first
  | @snoc steps next hprev howning hr ih =>
    have hsound := history_sound hs (hprev.weaken fun _ _ h => h.1)
    obtain ⟨_, _, hnext⟩ := step_handled hsound howning.1 hr
    rw [sinksGiven_snoc, Step.allExchanges_append, Step.allExchanges_singleton]
    exact ih.act hnext.custody howning.2

/-! ## Changing the destination -/

/-- A step turned the writer from the buffer before its old destination to an empty buffer
before a new one. -/
structure Turned (swap : RequestStep) (new : Sink) (old fresh : Buffer) : Prop where
  before : swap.before.writer.stream = some old
  after : swap.after.writer = swap.before.writer.withStream fresh
  emptied : fresh.held = []
  bound : fresh.sink = new
  capacity : fresh.capacity = old.capacity
  /-- The old destination was offered everything that was held, and took it. -/
  offered : offers swap.exchanges = if old.held = [] then [] else [(old.sink, old.held)]
  taken : allTaken swap.exchanges = old.held
  released : released swap.exchanges = [old.sink]

/-- A step kept the old destination of a writer, with what it did not take, and released the one
that was to replace it. -/
structure Kept (swap : RequestStep) (refused : Sink) (old kept : Buffer) : Prop where
  before : swap.before.writer.stream = some old
  after : swap.after.writer = swap.before.writer.withStream kept
  bound : kept.sink = old.sink
  capacity : kept.capacity = old.capacity
  /-- The old destination was offered everything that was held, and what is kept is what it did
  not take. -/
  offered : offers swap.exchanges = [(old.sink, old.held)]
  rest : allTaken swap.exchanges ++ kept.held = old.held
  nonempty : kept.held ≠ []
  report : diagnoses swap.exchanges = [⟨.warn, utf8 "FormattingWriter: keeping " ++
    old.sink.name ++ utf8 ", " ++ Numeral.decimal kept.held.length ++
    utf8 " bytes could not be flushed before switching to " ++ refused.name⟩]
  released : released swap.exchanges = [refused]

/-- A writer that answers a change of its destination with success or failure is open, and the
answer is that of a flush. -/
theorem runs_step_reset {sink : Sink} {done : Bool}
    (h : (s.step (.resetDestination (some sink))).Runs es (.ok (.success done), s')) :
    ∃ b c flushed, s.writer.stream = some b ∧ b.flush.Runs flushed (done, c) ∧
      es = flushed ++ List.map .told (if done then [.released c.sink]
        else [.diagnosed ⟨.warn, Writer.keepingReport c sink⟩, .released sink]) ∧
      s'.writer = s.writer.withStream (if done then { c with sink } else c) := by
  cases hw : s.writer.stream with
  | none =>
    obtain ⟨_, hreply, _⟩ := (runs_step_closed hw).mp h
    cases hreply
  | some b =>
    obtain ⟨result, w', hrun, hreply, rfl⟩ := runs_settle.mp h
    rw [Writer.eq_withStream hw] at hrun
    obtain ⟨done', c, flushed, hflush, rfl, hes, hw'⟩ := Writer.runs_resetDestination hrun
    cases hreply
    exact ⟨b, c, flushed, rfl, hflush, hes, hw'⟩

/-- A change of the destination that succeeds turns the writer. -/
theorem turned_of_true {swap : RequestStep} {new : Sink}
    (hrequest : swap.request = .resetDestination (some new))
    (hreply : swap.reply = .ok (.success true))
    (hr : (swap.before.step swap.request).Runs swap.exchanges (swap.reply, swap.after)) :
    ∃ old fresh, Turned swap new old fresh := by
  rw [hrequest, hreply] at hr
  obtain ⟨old, c, flushed, hw, hflush, hes, hafter⟩ := runs_step_reset hr
  have hflow := Buffer.flow_flush hflush
  have hempty := (Buffer.flush_complete_iff hflush).mp rfl
  have horder : allTaken flushed = old.held := by
    simpa only [hempty, List.append_nil] using hflow.order
  refine ⟨old, { c with sink := new }, hw, hafter, hempty, rfl, hflow.capacity, ?_, ?_, ?_⟩
  · rw [hes, Exchange.offers_append, Exchange.offers_told, List.append_nil,
      Buffer.offered_flush hflush]
  · rw [hes, Exchange.allTaken_append, Exchange.allTaken_told, List.append_nil, horder]
  · rw [hes, Exchange.released_append,
      (Exchange.released_of_offers (Buffer.offers_flush hflush)).1, ← hflow.sink]
    rfl

/-- A change of the destination that fails keeps the old one. -/
theorem kept_of_false {swap : RequestStep} {refused : Sink}
    (hrequest : swap.request = .resetDestination (some refused))
    (hreply : swap.reply = .ok (.success false))
    (hr : (swap.before.step swap.request).Runs swap.exchanges (swap.reply, swap.after)) :
    ∃ old kept, Kept swap refused old kept := by
  rw [hrequest, hreply] at hr
  obtain ⟨old, c, flushed, hw, hflush, hes, hafter⟩ := runs_step_reset hr
  have hflow := Buffer.flow_flush hflush
  obtain ⟨hreleased, hdiagnoses⟩ := Exchange.released_of_offers (Buffer.offers_flush hflush)
  have hrest : c.held ≠ [] := fun hempty => by
    cases (Buffer.flush_complete_iff hflush).mpr hempty
  have horder : allTaken flushed ++ c.held = old.held := by
    rw [hflow.order, List.append_nil]
  have hheld : old.held ≠ [] := horder ▸ List.append_ne_nil_of_right_ne_nil _ hrest
  refine ⟨old, c, hw, hafter, hflow.sink, hflow.capacity, ?_, ?_, hrest, ?_, ?_⟩
  · rw [hes, Exchange.offers_append, Exchange.offers_told, List.append_nil,
      Buffer.offered_flush hflush, if_neg hheld]
  · rw [hes, Exchange.allTaken_append, Exchange.allTaken_told, List.append_nil, horder]
  · rw [hes, Exchange.diagnoses_append, hdiagnoses, ← hflow.sink]
    rfl
  · rw [hes, Exchange.released_append, hreleased]
    rfl

/-- An open writer answers a change of its destination with success or failure. A closed one
releases the sink at once and refuses. -/
theorem reset_answer {sink : Sink}
    (h : (s.step (.resetDestination (some sink))).Runs es (reply, s')) :
    (∃ done, reply = .ok (.success done)) ∨
      (s.writer.isClosed = true ∧ reply = .error (.closed .resetDestination) ∧
        es = [.told (.released sink)] ∧ s' = s) := by
  cases hw : s.writer.stream with
  | none =>
    obtain ⟨rfl, rfl, rfl⟩ := (runs_step_closed hw).mp h
    exact .inr ⟨Writer.isClosed_iff.mpr hw, rfl, rfl, rfl⟩
  | some b =>
    obtain ⟨result, w', hrun, rfl, rfl⟩ := runs_settle.mp h
    rw [Writer.eq_withStream hw] at hrun
    obtain ⟨done, _, _, _, rfl, _⟩ := Writer.runs_resetDestination hrun
    exact .inl ⟨done, rfl⟩

/-- A missing destination is refused without a trace. -/
theorem runs_step_reset_missing : (s.step (.resetDestination none)).Runs es (reply, s') ↔
    es = [] ∧ reply = .error .missingDestination ∧ s' = s := by
  simp only [step, Writer.resetDestination, runs_settle, Dialogue.runs_pure, Prod.mk.injEq]
  constructor
  · rintro ⟨_, _, ⟨rfl, rfl, rfl⟩, rfl, rfl⟩
    exact ⟨rfl, rfl, rfl⟩
  · rintro ⟨rfl, rfl, rfl⟩
    exact ⟨_, _, ⟨rfl, rfl, rfl⟩, rfl, rfl⟩

/-! ## Whole runs -/

/-- Whatever is offered in a step is offered to the destination that is bound before it. -/
theorem offered_to_destination {step : RequestStep} {sink : Sink} {data : Bytes} {answer : Nat}
    (hs : start.Sound) (h : History Session.step AllOfWriter start steps s) (hmem : step ∈ steps)
    (he : .offered sink data answer ∈ step.exchanges) :
    step.before.writer.destination? = some sink := by
  obtain ⟨before, after, rfl⟩ := List.append_of_mem hmem
  obtain ⟨hbefore, hof, hr, _⟩ := h.cut_around
  obtain ⟨_, _, hhandled⟩ := step_handled (history_sound hs hbefore) hof hr
  exact hhandled.custody.eq_some_of_offered he

/-- A sink is not offered anything up to the end of the step that hands it over. -/
theorem avoids_before {before after : List RequestStep} {swap : RequestStep} {new : Sink}
    (hs : start.Sound) (hfirst : start.writer.destination? = some first)
    (h : History step (Owning first) start (before ++ swap :: after) s)
    (hnew : new ∈ handedOver swap.request) :
    ∀ e ∈ Step.allExchanges (before ++ [swap]), e.Avoids new := by
  obtain ⟨hbefore, hof, hr, _⟩ := h.cut_around
  have hsound := history_sound hs (hbefore.weaken fun _ _ h => h.1)
  obtain ⟨_, _, hhandled⟩ := step_handled hsound hof.1 hr
  rw [Step.allExchanges_append, Step.allExchanges_singleton]
  exact (history_ledger hs hfirst hbefore).avoids_fresh hhandled.custody (hof.2 new hnew)

/-- A sink is not offered anything after the step that releases it. -/
theorem avoids_after {before after : List RequestStep} {swap : RequestStep} {old : Sink}
    (hs : start.Sound) (hfirst : start.writer.destination? = some first)
    (h : History step (Owning first) start (before ++ swap :: after) s)
    (hold : old ∈ released swap.exchanges) :
    ∀ e ∈ Step.allExchanges after, e.Avoids old := by
  have hledger := history_ledger hs hfirst h
  rw [Step.allExchanges_around] at hledger
  refine hledger.avoids_released ?_
  rw [Step.allExchanges_append, Step.allExchanges_singleton, Exchange.released_append]
  exact List.mem_append_right _ hold

/-- What is offered in a step goes on where the bytes end that were accepted so far, in what was
held at first, what was added since, and the line of the step. -/
theorem offers_go_on {before after : List RequestStep} {next : RequestStep} (hs : start.Sound)
    (h : History step AllOfWriter start (before ++ next :: after) s) :
    ∃ added line rest, List.Forall₂ Adds before added ∧
      Appends next.before.stamps.current next.request line ∧
      Step.accepted before ++ rest = start.held ++ added.flatten ++ line ∧
      DrawnFrom rest next.exchanges := by
  obtain ⟨hbefore, hof, hr, _⟩ := h.cut_around
  obtain ⟨_, _, hhandled⟩ := step_handled (history_sound hs hbefore) hof hr
  obtain ⟨added, lost, hadds, horder, hlost⟩ := history_adds hs hbefore
  cases hw : next.before.writer.stream with
  | none =>
    -- A closed writer offers nothing.
    have hcustody := hhandled.custody
    rw [Writer.destination?, hw] at hcustody
    rw [held_of_closed hw, List.append_nil] at horder
    exact ⟨added, [], lost, hadds, .none, by rw [horder, List.append_nil], hcustody.drawnFrom lost⟩
  | some b =>
    obtain ⟨line, hline, hdrawn⟩ := hhandled.drawn
    rw [hlost (Writer.isClosed_of_open hw), List.append_nil] at horder
    refine ⟨added, line, next.before.held ++ line, hadds, hline, ?_, hdrawn⟩
    rw [← List.append_assoc, horder]

/-- When a writer turns to another destination, all that was added before was accepted by then,
and what is accepted or held afterwards, together with what a closing may lose, is what is added
afterwards. -/
theorem turned_parts {before after : List RequestStep} {swap : RequestStep} {new : Sink}
    {old fresh : Buffer} (hs : start.Sound) (hheld : start.held = [])
    (h : History step AllOfWriter start (before ++ swap :: after) s)
    (hturned : Turned swap new old fresh) :
    (∃ earlier, List.Forall₂ Adds before earlier ∧
      Step.accepted (before ++ [swap]) = earlier.flatten) ∧
    (∃ later lost, List.Forall₂ Adds after later ∧
      Step.accepted after ++ s.held ++ lost = later.flatten ∧
      (s.writer.isClosed = false → lost = [])) ∧
    ∀ between next rest, after = between ++ next :: rest → ∃ later line source,
      List.Forall₂ Adds between later ∧
      Appends next.before.stamps.current next.request line ∧
      Step.accepted between ++ source = later.flatten ++ line ∧
      DrawnFrom source next.exchanges := by
  obtain ⟨hbefore, hof, hr, hafter⟩ := h.cut_around
  obtain ⟨_, _, hhandled⟩ := step_handled (history_sound hs hbefore) hof hr
  have hstream : swap.after.writer.stream = some fresh := by
    rw [hturned.after]
    rfl
  have hempty : swap.after.held = [] := (held_of_open hstream).trans hturned.emptied
  refine ⟨?_, ?_, ?_⟩
  · obtain ⟨earlier, lost, hearlier, horder, hlost⟩ := history_adds hs hbefore
    rw [hlost (Writer.isClosed_of_open hturned.before), held_of_open hturned.before,
      hheld] at horder
    refine ⟨earlier, hearlier, ?_⟩
    simpa only [Step.accepted_append, Step.accepted_singleton, hturned.taken, List.append_nil,
      List.nil_append] using horder
  · obtain ⟨later, lost, hlater, horder, hlost⟩ := history_adds hhandled.sound hafter
    rw [hempty, List.nil_append] at horder
    exact ⟨later, lost, hlater, horder, hlost⟩
  · rintro between next rest rfl
    obtain ⟨later, line, source, hlater, hline, horder, hdrawn⟩ :=
      offers_go_on hhandled.sound hafter
    rw [hempty, List.nil_append] at horder
    exact ⟨later, line, source, hlater, hline, horder, hdrawn⟩

/-- No destination is bound after a history that ends with a closing. -/
theorem destination_of_close {allowed : List RequestStep → RequestStep → Prop}
    {last : RequestStep} (h : History step allowed start steps s) (hlast : last ∈ steps.getLast?)
    (hclose : last.request = .close) : s.writer.destination? = none := by
  obtain ⟨before, rfl⟩ := List.getLast?_eq_some_iff.mp hlast
  obtain ⟨_, _, hr, rfl⟩ := h.last
  rw [hclose] at hr
  obtain ⟨complete, w', hrun, _, hafter⟩ := runs_step_close.mp hr
  rw [hafter, Writer.destination?, (closed_of_close hrun).1]
  rfl

/-- From the making of a writer on, whatever is asked of it and however its destinations answer:
every offer goes to the destination that is bound at the time. A change of the destination that
succeeds leaves an empty buffer of the same capacity before the new one. The new one was offered
nothing so far and all that was added so far has been accepted; the old one is offered nothing
any more, and what is offered and accepted from then on is what is added from then on. A change
that fails keeps the old destination and the bytes that it did not take, warns of their number
and releases the other one, which is never offered anything. There is no other answer, except
that a closed writer refuses and releases the sink at once. A missing destination is refused
without a trace. Of the destinations that were handed over, all different, each is released once
or still bound, and released if the last request, as the destruction of a writer does, closes
it; none is offered anything after its release. -/
theorem destinations_are_owned {settings : Settings} {pageSize : Int64}
    (hmade : (Writer.create (some first) true settings pageSize).Runs [] (.ok start.writer))
    (h : History step (Owning first) start steps s) :
    (∀ step ∈ steps, ∀ sink data answer, .offered sink data answer ∈ step.exchanges →
      step.before.writer.destination? = some sink) ∧
    (∀ before swap after new, steps = before ++ swap :: after →
      swap.request = .resetDestination (some new) → swap.reply = .ok (.success true) →
      ∃ old fresh, Turned swap new old fresh ∧
        (∀ e ∈ Step.allExchanges (before ++ [swap]), e.Avoids new) ∧
        (∀ e ∈ Step.allExchanges after, e.Avoids old.sink) ∧
        (∃ earlier, List.Forall₂ Adds before earlier ∧
          Step.accepted (before ++ [swap]) = earlier.flatten) ∧
        (∃ later lost, List.Forall₂ Adds after later ∧
          Step.accepted after ++ s.held ++ lost = later.flatten ∧
          (s.writer.isClosed = false → lost = [])) ∧
        ∀ between next rest, after = between ++ next :: rest → ∃ later line source,
          List.Forall₂ Adds between later ∧
          Appends next.before.stamps.current next.request line ∧
          Step.accepted between ++ source = later.flatten ++ line ∧
          DrawnFrom source next.exchanges) ∧
    (∀ before swap after refused, steps = before ++ swap :: after →
      swap.request = .resetDestination (some refused) → swap.reply = .ok (.success false) →
      ∃ old kept, Kept swap refused old kept ∧
        ∀ e ∈ Step.allExchanges steps, e.Avoids refused) ∧
    (∀ step ∈ steps, ∀ sink, step.request = .resetDestination (some sink) →
      (∃ done, step.reply = .ok (.success done)) ∨
        (step.before.writer.isClosed = true ∧
          step.reply = .error (.closed .resetDestination) ∧
          step.exchanges = [.told (.released sink)] ∧ step.after = step.before)) ∧
    (∀ step ∈ steps, step.request = .resetDestination none →
      step.exchanges = [] ∧ step.reply = .error .missingDestination ∧
        step.after = step.before) ∧
    ((sinksGiven first steps).map Sink.id).Nodup ∧
    (released (Step.allExchanges steps) ++ s.writer.destination?.toList).Perm
      (sinksGiven first steps) ∧
    (∀ last ∈ steps.getLast?, last.request = .close →
      (released (Step.allExchanges steps)).Perm (sinksGiven first steps)) ∧
    (Step.allExchanges steps).Pairwise Spares := by
  obtain ⟨capacity, hroom, hstream⟩ := Writer.stream_of_create hmade
  have hs : start.Sound := sound_of_open hstream (.empty hroom)
  have hfirst : start.writer.destination? = some first := by
    rw [Writer.destination?, hstream]
    rfl
  have hof : History step AllOfWriter start steps s := h.weaken fun _ _ h => h.1
  have hledger := history_ledger hs hfirst h
  refine ⟨?_, ?_, ?_, ?_, ?_, hledger.distinct, hledger.balance, ?_, hledger.spares⟩
  · exact fun step hmem sink data answer he => offered_to_destination hs hof hmem he
  · rintro before swap after new rfl hrequest hreply
    obtain ⟨_, _, hr, _⟩ := hof.cut_around
    obtain ⟨old, fresh, hturned⟩ := turned_of_true hrequest hreply hr
    refine ⟨old, fresh, hturned, ?_, ?_, turned_parts hs (held_of_open hstream) hof hturned⟩
    · exact avoids_before hs hfirst h (by rw [hrequest]; rfl)
    · exact avoids_after hs hfirst h (by rw [hturned.released]; exact List.mem_cons_self)
  · rintro before swap after refused rfl hrequest hreply
    obtain ⟨_, _, hr, _⟩ := hof.cut_around
    obtain ⟨old, kept, hkept⟩ := kept_of_false hrequest hreply hr
    refine ⟨old, kept, hkept, fun e he => ?_⟩
    rw [Step.allExchanges_around] at he
    rcases List.mem_append.mp he with he | he
    · exact avoids_before hs hfirst h (by rw [hrequest]; rfl) e he
    · exact avoids_after hs hfirst h (by rw [hkept.released]; exact List.mem_cons_self) e he
  · intro step hmem sink hrequest
    have hr := h.runs_of_mem step hmem
    rw [hrequest] at hr
    exact reset_answer hr
  · intro step hmem hrequest
    have hr := h.runs_of_mem step hmem
    rw [hrequest] at hr
    exact runs_step_reset_missing.mp hr
  · intro last hlast hclose
    have hnone := destination_of_close h hlast hclose
    simpa only [hnone, Option.toList_none, List.append_nil] using hledger.balance

/-- The first destination takes ten of thirty bytes, so the second is released unused, and then
the other twenty, so the third takes its place. -/
theorem destinations_are_owned_refused_once :
    ∃ (start s : Session) (steps : List RequestStep),
      (Writer.create (some ⟨0, utf8 "first"⟩) true ⟨.debug, 64⟩ 4096).Runs []
        (.ok start.writer) ∧
      History step (Owning ⟨0, utf8 "first"⟩) start steps s ∧
      steps.map Step.reply = [.ok (.size 30), .ok (.success false), .ok (.success true),
        .error .missingDestination, .ok (.success true)] ∧
      diagnoses (Step.allExchanges steps) = [⟨.warn, utf8 "FormattingWriter: keeping first, " ++
        utf8 "20 bytes could not be flushed before switching to second"⟩] ∧
      released (Step.allExchanges steps) =
        [⟨1, utf8 "second"⟩, ⟨0, utf8 "first"⟩, ⟨2, utf8 "third"⟩] ∧
      (released (Step.allExchanges steps)).Perm (sinksGiven ⟨0, utf8 "first"⟩ steps) ∧
      (Step.allExchanges steps).Pairwise Spares := by
  have begun : History step (Owning ⟨0, utf8 "first"⟩)
    ⟨0, .create 0 0, ⟨.debug, 64, some (.empty ⟨0, utf8 "first"⟩ 64)⟩⟩ [] _ := .start
  have written := begun.answered (.write .info (utf8 "hi")) []
    ⟨.inl trivial, fun _ h => by cases h⟩
  have refused := written.answered (.resetDestination (some ⟨1, utf8 "second"⟩)) [10]
    ⟨.inl trivial, fun _ h => by cases h; decide +kernel⟩
  have turned := refused.answered (.resetDestination (some ⟨2, utf8 "third"⟩)) [20]
    ⟨.inl trivial, fun _ h => by cases h; decide +kernel⟩
  have missing := turned.answered (.resetDestination none) []
    ⟨.inl trivial, fun _ h => by cases h⟩
  have closed := missing.answered .close [] ⟨.inr rfl, fun _ h => by cases h⟩
  have hmade : (Writer.create (some ⟨0, utf8 "first"⟩) true ⟨.debug, 64⟩ 4096).Runs []
      (.ok ⟨.debug, 64, some (.empty ⟨0, utf8 "first"⟩ 64)⟩) := .done _
  obtain ⟨_, _, _, _, _, _, _, hreleased, hspares⟩ := destinations_are_owned hmade closed
  exact ⟨_, _, _, hmade, closed, by decide +kernel, by decide +kernel, by decide +kernel,
    hreleased _ rfl rfl, hspares⟩

end LeveledLog.Session
