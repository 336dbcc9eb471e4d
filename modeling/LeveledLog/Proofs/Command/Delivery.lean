import LeveledLog.Command.Relay
import LeveledLog.Proofs.Acceptance

/-!
# The relay delivers all lines or says so

A relay gets the lines of an input while its stamp is renewed now and then. Whether it holds
back bytes, flushes every line or sends them past its buffer, it fails exactly when its
destination does not take everything it is offered. If it does not fail, the destination has in
the end all lines in their order.
-/

namespace LeveledLog.Command

open Exchange (allTaken AllTakenWhole)

/-! ## Lines -/

/-- The pieces of a text without the last one if that is empty. -/
def dropEmptyEnd (pieces : List Bytes) : List Bytes :=
  if pieces.getLast? = some [] then pieces.dropLast else pieces

theorem dropEmptyEnd_cons (piece : Bytes) {pieces : List Bytes} (h : pieces ≠ []) :
    dropEmptyEnd (piece :: pieces) = piece :: dropEmptyEnd pieces := by
  have hlast : (piece :: pieces).getLast? = pieces.getLast? := by
    rw [List.getLast?_cons, List.getLast?_eq_some_getLast h, Option.getD_some]
  unfold dropEmptyEnd
  rw [hlast]
  split
  · rw [List.dropLast_cons_of_ne_nil h]
  · rfl

private theorem modifyHead_nil_append (pieces : List Bytes) :
    pieces.modifyHead ([] ++ ·) = pieces := by
  cases pieces <;> simp

/-- The first line goes on with the bytes of it that were read before. -/
theorem go_linesOf (reversed input : Bytes) : linesOf.go reversed input =
    dropEmptyEnd ((input.splitOn Bytes.lineFeed).modifyHead (reversed.reverse ++ ·)) := by
  rw [List.splitOn_eq_splitOnP]
  induction input generalizing reversed with
  | nil =>
    rw [List.splitOnP_nil, linesOf.go]
    cases reversed <;> simp [dropEmptyEnd]
  | cons b input ih =>
    have hne : input.splitOnP (fun x => x == Bytes.lineFeed) ≠ [] := List.splitOnP_ne_nil _ _
    rw [List.splitOnP_cons_eq_if_modifyHead, linesOf.go]
    by_cases hb : (b == Bytes.lineFeed) = true
    · rw [if_pos hb, if_pos hb, ih, List.reverse_nil, modifyHead_nil_append,
        List.modifyHead_cons, dropEmptyEnd_cons _ hne, List.append_nil]
    · rw [if_neg hb, if_neg hb, ih, List.modifyHead_modifyHead, List.reverse_cons]
      simp [Function.comp_def]

/-- The lines of an input are the pieces between its line feeds. Behind the last line feed there
is a line only if it is not empty. -/
theorem linesOf_eq (input : Bytes) :
    linesOf input = dropEmptyEnd (input.splitOn Bytes.lineFeed) := by
  rw [linesOf, go_linesOf, List.reverse_nil, modifyHead_nil_append]

namespace Relay

/-! ## One line -/

variable {r r' r'' : Relay} {b c d : Buffer} {entered entered' : Bytes} {es es' : List Exchange}

/-- A relay goes on from `r` with the buffer `b` to `r'` with the buffer `c`. It has failed when
it had failed before or something was not taken. Otherwise the bytes that entered are behind
those that were held. -/
structure Advances (r : Relay) (b : Buffer) (entered : Bytes) (es : List Exchange) (r' : Relay)
    (c : Buffer) : Prop where
  stream : r'.writer.stream = some c
  sound : c.Sound
  sink : c.sink = b.sink
  options : r'.options = r.options
  level : r'.writer.level = r.writer.level
  /-- Nothing is offered to any other sink. -/
  concerns : ∀ e ∈ es, e.ConcernsOnly b.sink
  failed : r'.failed = false ↔ r.failed = false ∧ AllTakenWhole es
  order : r'.failed = false → allTaken es ++ c.held = b.held ++ entered

namespace Advances

/-- A relay that does nothing stays as it is. -/
theorem refl (hr : r.writer.stream = some b) (hb : b.Sound) : Advances r b [] [] r b where
  stream := hr
  sound := hb
  sink := rfl
  options := rfl
  level := rfl
  concerns := by simp
  failed := by simp
  order := by simp

/-- A failed relay takes nothing in. -/
theorem of_failed (hr : r.writer.stream = some b) (hb : b.Sound) (hf : r.failed = true)
    (entered : Bytes) : Advances r b entered [] r b where
  stream := hr
  sound := hb
  sink := rfl
  options := rfl
  level := rfl
  concerns := by simp
  failed := by simp
  order := by
    intro hok
    rw [hf] at hok
    cases hok

theorem trans (h : Advances r b entered es r' c) (h' : Advances r' c entered' es' r'' d) :
    Advances r b (entered ++ entered') (es ++ es') r'' d where
  stream := h'.stream
  sound := h'.sound
  sink := h'.sink.trans h.sink
  options := h'.options.trans h.options
  level := h'.level.trans h.level
  concerns := by
    intro e he
    rcases List.mem_append.mp he with he | he
    · exact h.concerns e he
    · exact h.sink ▸ h'.concerns e he
  failed := by rw [h'.failed, h.failed, Exchange.allTakenWhole_append, and_assoc]
  order := by
    intro hok
    have hmiddle := (h'.failed.mp hok).1
    calc allTaken (es ++ es') ++ d.held
        = allTaken es ++ (allTaken es' ++ d.held) := by
          rw [Exchange.allTaken_append, List.append_assoc]
      _ = (allTaken es ++ c.held) ++ entered' := by rw [h'.order hok, List.append_assoc]
      _ = b.held ++ (entered ++ entered') := by rw [h.order hmiddle, List.append_assoc]

/-- The stamp that a relay goes on with does not matter for the rest of it. -/
theorem of_stamps {stamps : StampCache} (h : Advances { r with stamps } b entered es r' c) :
    Advances r b entered es r' c where
  stream := h.stream
  sound := h.sound
  sink := h.sink
  options := h.options
  level := h.level
  concerns := h.concerns
  failed := h.failed
  order := h.order

end Advances

/-- A relay that fails says why. -/
theorem runs_fail {message : Bytes} : (r.fail message).Runs es r' ↔
    es = [.told (.said (complaint message))] ∧ r' = { r with failed := true } := by
  simp only [fail, Dialogue.runs_bind, Dialogue.runs_tell, Dialogue.runs_pure]
  constructor
  · rintro ⟨_, _, _, rfl, ⟨rfl, rfl⟩, rfl⟩
    exact ⟨rfl, rfl⟩
  · rintro ⟨rfl, rfl⟩
    exact ⟨_, (), _, rfl, ⟨rfl, rfl⟩, rfl⟩

/-- A failure follows on exchanges in which something was not taken. -/
theorem Advances.fail {w : Writer} {message : Bytes} (hw : w.stream = some c) (hc : c.Sound)
    (hsink : c.sink = b.sink) (hlevel : w.level = r.writer.level)
    (hconcerns : ∀ e ∈ es, e.ConcernsOnly b.sink) (hnot : ¬ AllTakenWhole es)
    (h : ({ r with writer := w }.fail message).Runs es' r') :
    Advances r b entered (es ++ es') r' c := by
  obtain ⟨rfl, rfl⟩ := runs_fail.mp h
  exact {
    stream := hw
    sound := hc
    sink := hsink
    options := rfl
    level := hlevel
    concerns := by
      intro e he
      rcases List.mem_append.mp he with he | he
      · exact hconcerns e he
      · obtain rfl := List.mem_singleton.mp he
        exact trivial
    failed := by simp [hnot]
    order := nofun }

/-- Whether a line is flushed at once or not, the bytes that are held go on in order. -/
theorem flushLine_advances (hr : r.writer.stream = some b) (hb : b.Sound)
    (h : r.flushLine.Runs es r') : ∃ c, Advances r b [] es r' c := by
  unfold flushLine at h
  split at h
  · rw [Writer.eq_withStream hr] at h
    simp only [Dialogue.runs_bind] at h
    obtain ⟨es₁, ⟨result, w⟩, es₂, h₁, h₂, rfl⟩ := h
    obtain ⟨done, c, hflush, rfl, rfl⟩ := Writer.runs_flush h₁
    have hflow := Buffer.flow_flush hflush
    have htrue := Buffer.flush_true_iff hflush
    have hconcerns := Buffer.concerns_flush hflush
    cases done with
    | true =>
      simp only [Dialogue.runs_pure] at h₂
      obtain ⟨rfl, rfl⟩ := h₂
      refine ⟨c, rfl, hb.flush hflush, hflow.sink, rfl, rfl, ?_, ?_, ?_⟩
      · simpa using hconcerns
      · simp [htrue.mp rfl]
      · intro _
        simpa using hflow.order
    | false =>
      have hnot : ¬ AllTakenWhole es₁ := fun hall => Bool.false_ne_true (htrue.mpr hall)
      exact ⟨c, .fail (w := r.writer.withStream c) rfl (hb.flush hflush) hflow.sink rfl hconcerns
        hnot h₂⟩
  · obtain ⟨rfl, rfl⟩ := Dialogue.runs_pure.mp h
    exact ⟨b, .refl hr hb⟩

/-- What a line adds to the bytes for the destination: nothing below the threshold. -/
def contribution (r : Relay) (line : Bytes) : Bytes :=
  if r.options.level.passes r.writer.level then
    Line.whole r.stamps.current r.options.level line
  else []

/-- A line goes on behind the bytes that are held, or the relay fails because something was not
taken. -/
theorem feed_advances {line : Bytes} (hr : r.writer.stream = some b) (hb : b.Sound)
    (h : (r.feed line).Runs es r') : ∃ c, Advances r b (r.contribution line) es r' c := by
  unfold feed at h
  split at h
  case isTrue hskip =>
    obtain ⟨rfl, rfl⟩ := Dialogue.runs_pure.mp h
    rcases Bool.or_eq_true_iff.mp hskip with hfailed | hbelow
    · exact ⟨b, .of_failed hr hb hfailed _⟩
    · have hnone : r'.contribution line = [] := by
        simp only [Logger.isEnabled, Bool.not_eq_true'] at hbelow
        rw [contribution, hbelow, if_neg Bool.false_ne_true]
      exact ⟨b, hnone ▸ .refl hr hb⟩
  case isFalse hgo =>
    obtain ⟨hok, hpasses⟩ : r.failed = false ∧
        r.options.level.passes r.writer.level = true := by
      simpa [Logger.isEnabled] using hgo
    have hline : r.contribution line =
        Line.whole r.stamps.current r.options.level line := if_pos hpasses
    simp only [Dialogue.runs_bind] at h
    obtain ⟨es₁, ⟨result, w⟩, es₂, h₁, h₂, rfl⟩ := h
    obtain ⟨texts, htexts, hwrite⟩ :=
      Writer.write_made r.writer b r.stamps.current r.options.level line
    rw [Writer.eq_withStream hr, hwrite] at h₁
    obtain ⟨c, entered, rfl, hc, hflow, hoffers, _, houtcome⟩ := Writer.emit_outcome hb h₁
    have hok_iff := Writer.emit_ok_iff h₁
    have hconcerns : ∀ e ∈ es₁, e.ConcernsOnly b.sink := fun e he => (hoffers e he).concernsOnly
    cases result with
    | ok size =>
      have hall : AllTakenWhole es₁ := hok_iff.mp ⟨size, rfl⟩
      have hentered : entered = r.contribution line := by
        rw [hline, ← htexts]
        cases houtcome
        rfl
      have hwritten : Advances r b (r.contribution line) es₁
          { r with writer := r.writer.withStream c } c := by
        refine ⟨rfl, hc, hflow.sink, rfl, rfl, hconcerns, ?_, ?_⟩
        · simp [hall]
        · intro _
          rw [← hentered]
          exact hflow.order
      obtain ⟨d, hflushed⟩ := flushLine_advances hwritten.stream hc h₂
      refine ⟨d, ?_⟩
      simpa using hwritten.trans hflushed
    | error fault =>
      have hnot : ¬ AllTakenWhole es₁ := fun hall => by
        obtain ⟨size, hsize⟩ := hok_iff.mpr hall
        cases hsize
      exact ⟨c, .fail (w := r.writer.withStream c) rfl hc hflow.sink rfl hconcerns hnot h₂⟩

private theorem flushLine_stamps (h : r.flushLine.Runs es r') : r'.stamps = r.stamps := by
  unfold flushLine at h
  split at h
  · simp only [Dialogue.runs_bind] at h
    obtain ⟨_, ⟨result, w⟩, _, _, h, _⟩ := h
    rcases result with fault | done
    · obtain ⟨_, rfl⟩ := runs_fail.mp h
      rfl
    · cases done with
      | true =>
        obtain ⟨_, rfl⟩ := Dialogue.runs_pure.mp h
        rfl
      | false =>
        obtain ⟨_, rfl⟩ := runs_fail.mp h
        rfl
  · obtain ⟨_, rfl⟩ := Dialogue.runs_pure.mp h
    rfl

/-- A line changes no stamp. -/
theorem feed_stamps {line : Bytes} (h : (r.feed line).Runs es r') : r'.stamps = r.stamps := by
  unfold feed at h
  split at h
  · obtain ⟨_, rfl⟩ := Dialogue.runs_pure.mp h
    rfl
  · simp only [Dialogue.runs_bind] at h
    obtain ⟨_, ⟨result, w⟩, _, _, h, _⟩ := h
    cases result with
    | ok size => exact flushLine_stamps (r := { r with writer := w }) h
    | error fault =>
      obtain ⟨_, rfl⟩ := runs_fail.mp h
      rfl

/-! ## A whole input -/

/-- What a relay meets while it reads: a line comes in, or its stamp is renewed. -/
inductive Event where
  | line (text : Bytes)
  | refresh (now : Instant)

/-- The line that comes in, if one does. -/
def Event.line? : Event → Option Bytes
  | line text => some text
  | refresh _ => none

/-- Go on with an event. -/
def meet (r : Relay) : Event → Dialogue Relay
  | .line text => r.feed text
  | .refresh now => return { r with stamps := r.stamps.refresh now }

/-- Go on with events in order. -/
def meetAll (r : Relay) : List Event → Dialogue Relay
  | [] => return r
  | event :: rest => do (← r.meet event).meetAll rest

/-- An input is served by going on with its lines. -/
theorem feedAll_eq_meetAll (r : Relay) (lines : List Bytes) :
    r.feedAll lines = r.meetAll (lines.map .line) := by
  induction lines generalizing r with
  | nil => rfl
  | cons line lines ih =>
    simp only [feedAll, List.map_cons, meetAll, meet, ih]

/-- A line and the stamp that is current when it comes in. -/
structure StampedLine where
  stamp : Bytes
  text : Bytes

/-- The line that comes in while a stamp is current, if one does. -/
def Event.stamped? (stamp : Bytes) : Event → Option StampedLine
  | line text => some ⟨stamp, text⟩
  | refresh _ => none

/-- The stamp that is current after an event. -/
def Event.stampAfter (stamp : Bytes) : Event → Bytes
  | line _ => stamp
  | refresh now => Stamp.ofInstant now

/-- The lines that come in, each with its stamp, when the stamp is the given one at first. -/
def stampedLines (stamp : Bytes) : List Event → List StampedLine
  | [] => []
  | event :: rest => (event.stamped? stamp).toList ++ stampedLines (event.stampAfter stamp) rest

theorem map_text_stampedLines (stamp : Bytes) (events : List Event) :
    (stampedLines stamp events).map StampedLine.text = events.filterMap Event.line? := by
  induction events generalizing stamp with
  | nil => rfl
  | cons event events ih =>
    rw [stampedLines, List.map_append, ih]
    cases event with
    | line text => rfl
    | refresh now => rfl

/-- What a destination has at the end of an input: each line with its stamp and the tag of the
level, or nothing when the level is below the threshold. -/
def log (level threshold : Level) (lines : List StampedLine) : Bytes :=
  if level.passes threshold then
    lines.flatMap fun line => Line.whole line.stamp level line.text
  else []

/-- A relay advances by what the events bring in. -/
theorem meetAll_advances {events : List Event} (hr : r.writer.stream = some b) (hb : b.Sound)
    (h : (r.meetAll events).Runs es r') : ∃ c, Advances r b
      (log r.options.level r.writer.level (stampedLines r.stamps.current events)) es r' c := by
  induction events generalizing r b es with
  | nil =>
    obtain ⟨rfl, rfl⟩ := Dialogue.runs_pure.mp h
    have hnone : log r'.options.level r'.writer.level
        (stampedLines r'.stamps.current []) = [] := by simp [log, stampedLines]
    exact ⟨b, hnone ▸ .refl hr hb⟩
  | cons event events ih =>
    simp only [meetAll, Dialogue.runs_bind] at h
    obtain ⟨es₁, r₁, es₂, h₁, h₂, rfl⟩ := h
    cases event with
    | line text =>
      obtain ⟨c, hfirst⟩ := feed_advances hr hb h₁
      obtain ⟨d, hrest⟩ := ih hfirst.stream hfirst.sound h₂
      refine ⟨d, ?_⟩
      have hall := hfirst.trans hrest
      rw [hfirst.options, hfirst.level, feed_stamps h₁] at hall
      have hlog : log r.options.level r.writer.level
          (stampedLines r.stamps.current (.line text :: events)) = r.contribution text ++
            log r.options.level r.writer.level (stampedLines r.stamps.current events) := by
        unfold log contribution
        split
        · rfl
        · rfl
      rw [hlog]
      exact hall
    | refresh now =>
      obtain ⟨rfl, rfl⟩ := Dialogue.runs_pure.mp h₁
      obtain ⟨d, hrest⟩ := ih (r := { r with stamps := r.stamps.refresh now }) hr hb h₂
      have hstamped : stampedLines r.stamps.current (.refresh now :: events) =
          stampedLines (r.stamps.refresh now).current events := by
        rw [stampedLines, Event.stamped?, Option.toList_none, List.nil_append, Event.stampAfter,
          StampCache.refresh]
      rw [hstamped]
      exact ⟨d, hrest.of_stamps⟩

/-- Closing the writer hands on what is held, and the status tells whether all of it was taken
after nothing had failed before. -/
theorem finish_status {status : UInt8} (hr : r.writer.stream = some b)
    (h : r.finish.Runs es status) :
    (status = 0 ∨ status = 1) ∧ (∀ e ∈ es, e.ConcernsOnly b.sink) ∧
      (status = 0 ↔ r.failed = false ∧ AllTakenWhole es) ∧
      (status = 0 → allTaken es = b.held) := by
  simp only [finish, Dialogue.runs_bind] at h
  rw [Writer.eq_withStream hr] at h
  obtain ⟨es₁, ⟨complete, w⟩, es₂, h₁, ⟨es₃, stamps, es₄, h₃, h₄, rfl⟩, rfl⟩ := h
  obtain ⟨c, flushed, hflush, rfl, rfl⟩ := Writer.runs_close h₁
  obtain ⟨notices, rfl⟩ : ∃ notices : List Notice, es₃ = notices.map .told := by
    unfold StampCache.stop at h₃
    split at h₃
    · simp only [Dialogue.runs_bind, Dialogue.runs_report, Dialogue.runs_pure] at h₃
      obtain ⟨_, _, _, rfl, ⟨rfl, _⟩, rfl⟩ := h₃
      exact ⟨[_], rfl⟩
    · obtain ⟨rfl, _⟩ := Dialogue.runs_pure.mp h₃
      exact ⟨[], rfl⟩
  obtain ⟨rfl, rfl⟩ := Dialogue.runs_pure.mp h₄
  have horder := (Buffer.flow_flush hflush).order
  have htrue := Buffer.flush_true_iff hflush
  have hstatus : (if r.failed || !complete then (1 : UInt8) else 0) = 0 ↔
      r.failed = false ∧ complete = true := by
    cases r.failed <;> cases complete <;> decide
  -- What follows on the flush are notices only.
  generalize hclosing : (if complete then [Notice.released c.sink]
    else [.diagnosed ⟨.error, Writer.droppedReport c⟩, .released c.sink]) = closing
  rw [List.append_nil]
  refine ⟨?_, ?_, ?_, ?_⟩
  · split
    · exact .inr rfl
    · exact .inl rfl
  · intro e he
    rcases List.mem_append.mp he with he | he
    · rcases List.mem_append.mp he with he | he
      · exact Buffer.concerns_flush hflush e he
      · obtain ⟨_, _, rfl⟩ := List.mem_map.mp he
        exact trivial
    · obtain ⟨_, _, rfl⟩ := List.mem_map.mp he
      exact trivial
  · rw [hstatus]
    simp [htrue]
  · intro hzero
    have hempty := (Buffer.flush_complete_iff hflush).mp (hstatus.mp hzero).2
    simpa [hempty] using horder

/-- Relay what events bring in to a destination that was opened. -/
def relayTo (options : Options) (stamps : StampCache) (settings : Settings) (pageSize : Int64)
    (sink : Sink) (events : List Event) : Dialogue UInt8 := do
  match ← open? options stamps settings pageSize (.ok sink) with
  | .error status => return status
  | .ok relay => (← relay.meetAll events).finish

variable {options : Options} {stamps : StampCache} {settings : Settings} {pageSize : Int64}
  {sink : Sink} {events : List Event} {status : UInt8}

/-- A relay can be set up for every destination that was opened, and begins with nothing. -/
theorem relayTo_eq (options : Options) (stamps : StampCache) (settings : Settings)
    (pageSize : Int64) (sink : Sink) (events : List Event) :
    ∃ relay : Relay, ∃ capacity, 0 < capacity ∧
      relay.writer.stream = some (.empty sink capacity) ∧ relay.options = options ∧
      relay.stamps = stamps ∧ relay.writer.level = settings.level ∧ relay.failed = false ∧
      relayTo options stamps settings pageSize sink events =
        relay.meetAll events >>= Relay.finish := by
  obtain ⟨w, hw, hlevel⟩ : ∃ w, Writer.create (some sink) true settings pageSize =
      pure (.ok w) ∧ w.level = settings.level := ⟨_, rfl, rfl⟩
  have hmade : (Writer.create (some sink) true settings pageSize).Runs [] (.ok w) := by
    rw [hw]
    exact .done _
  obtain ⟨capacity, hpos, hstream⟩ := Writer.stream_of_create hmade
  refine ⟨⟨options, stamps, w, false⟩, capacity, hpos, hstream, rfl, rfl, hlevel, rfl, ?_⟩
  rw [relayTo, open?]
  simp only [hw]
  rfl

/-- If the stamp is not renewed while the input is read, this is the relay that is set up and
serves the input. -/
theorem relayTo_lines (options : Options) (stamps : StampCache) (settings : Settings)
    (pageSize : Int64) (sink : Sink) (input : Bytes) :
    relayTo options stamps settings pageSize sink ((linesOf input).map .line) = (do
      match ← open? options stamps settings pageSize (.ok sink) with
      | .error status => return status
      | .ok relay => relay.serve input) := by
  simp only [relayTo, serve, feedAll_eq_meetAll]

/-- Whatever the answers of the destination, the status is that of a delivery without a gap, or
it reports the gap. -/
theorem relayTo_delivers
    (h : (relayTo options stamps settings pageSize sink events).Runs es status) :
    (status = 0 ∨ status = 1) ∧ (∀ e ∈ es, e.ConcernsOnly sink) ∧
      (status = 0 ↔ AllTakenWhole es) ∧
      (status = 0 → allTaken es =
        log options.level settings.level (stampedLines stamps.current events)) := by
  obtain ⟨relay, capacity, hpos, hstream, rfl, rfl, hlevel, hfresh, heq⟩ :=
    relayTo_eq options stamps settings pageSize sink events
  rw [heq, Dialogue.runs_bind] at h
  obtain ⟨es₁, r₁, es₂, h₁, h₂, rfl⟩ := h
  obtain ⟨c, hadv⟩ := meetAll_advances hstream (.empty hpos) h₁
  obtain ⟨hcode, hconcerns, hzero, hrest⟩ := finish_status hadv.stream h₂
  have hsink : c.sink = sink := hadv.sink
  have hiff : status = 0 ↔ AllTakenWhole (es₁ ++ es₂) := by
    rw [hzero, hadv.failed, Exchange.allTakenWhole_append, hfresh]
    simp
  refine ⟨hcode, ?_, hiff, ?_⟩
  · intro e he
    rcases List.mem_append.mp he with he | he
    · exact hadv.concerns e he
    · exact hsink ▸ hconcerns e he
  · intro hok
    have hheld := hadv.order (hzero.mp hok).1
    rw [Exchange.allTaken_append, hrest hok, hheld, hlevel]
    rfl

/-- The relay of an input meets its lines and nothing else, unless the stamp is renewed while it
reads. Its status is zero exactly when its destination takes all the bytes of every offer, and
otherwise one. If it is zero, the destination has, and no other sink was offered anything, for
every piece between line feeds and for what is behind the last one unless that is empty, a line
with the stamp of its time and the tag of the level; or it has nothing, when the level is below
the threshold. So another capacity, and flushing every line or not, make no difference to what
arrives. -/
theorem relay_delivers_or_says_so {input : Bytes}
    (hinput : events.filterMap Event.line? = linesOf input)
    (h : (relayTo options stamps settings pageSize sink events).Runs es status) :
    (status = 0 ↔ ∀ e ∈ es, e.IsTakenWhole) ∧
    ((∃ e ∈ es, ¬ e.IsTakenWhole) → status = 1) ∧
    (∀ e ∈ es, e.ConcernsOnly sink) ∧
    ((stampedLines stamps.current events).map StampedLine.text =
      dropEmptyEnd (input.splitOn Bytes.lineFeed)) ∧
    (status = 0 → allTaken es = if options.level.passes settings.level then
      (stampedLines stamps.current events).flatMap fun line =>
        line.stamp ++ options.level.tag ++ line.text ++ [Bytes.lineFeed]
      else []) ∧
    (∀ options' settings' pageSize' sink' es',
      options'.level = options.level → settings'.level = settings.level →
      (relayTo options' stamps settings' pageSize' sink' events).Runs es' 0 → status = 0 →
        allTaken es' = allTaken es) ∧
    relayTo options stamps settings pageSize sink ((linesOf input).map .line) = (do
      match ← open? options stamps settings pageSize (.ok sink) with
      | .error status => return status
      | .ok relay => relay.serve input) := by
  obtain ⟨hcode, hconcerns, hzero, htaken⟩ := relayTo_delivers h
  refine ⟨hzero, ?_, hconcerns, ?_, htaken, ?_, relayTo_lines ..⟩
  · rintro ⟨e, he, hshort⟩
    exact hcode.resolve_left fun hok => hshort (hzero.mp hok e he)
  · rw [map_text_stampedLines, hinput, linesOf_eq]
  · intro options' settings' pageSize' sink' es' hlevel hthreshold h' hok
    obtain ⟨_, _, _, htaken'⟩ := relayTo_delivers h'
    rw [htaken' rfl, htaken hok, hlevel, hthreshold]

/-- Two lines and a rest of one byte pass a buffer of 40 bytes while the stamp is renewed once.
Taken whole they are delivered with status zero; when the second offer is cut short the status
is one. At a level below the threshold nothing is delivered, and the status is zero. -/
theorem relay_delivers_or_says_so_renewed_once :
    ∃ (events : List Event) (run : Level → List Nat → List Exchange × UInt8),
      events.filterMap Event.line? = linesOf (utf8 "one\n\nx") ∧
      (∀ level answers, (relayTo ⟨[], [], 0, level, false⟩ (.create 0 0) ⟨.info, 40⟩ 4096
        ⟨0, utf8 "log"⟩ events).Runs (run level answers).1 (run level answers).2) ∧
      (run .warn [99, 99, 99]).2 = 0 ∧ (run .warn [99, 5]).2 = 1 ∧
      allTaken (run .warn [99, 99, 99]).1 = utf8 "1970/01/01 00:00:00 [WARN] one\n" ++
        utf8 "1970/01/01 00:00:09 [WARN] \n" ++ utf8 "1970/01/01 00:00:09 [WARN] x\n" ∧
      (run .trace []).2 = 0 ∧ allTaken (run .trace []).1 = [] := by
  have hrun (level : Level) := Dialogue.runs_converse (relayTo ⟨[], [], 0, level, false⟩
    (.create 0 0) ⟨.info, 40⟩ 4096 ⟨0, utf8 "log"⟩
    [.line (utf8 "one"), .refresh 9000, .line [], .line (utf8 "x")])
  have hinput : [Event.line (utf8 "one"), .refresh 9000, .line [], .line (utf8 "x")].filterMap
      Event.line? = linesOf (utf8 "one\n\nx") := by decide +kernel
  obtain ⟨hzero, _, _, _, hbytes, _⟩ := relay_delivers_or_says_so hinput (hrun .warn [99, 99, 99])
  obtain ⟨_, hone, _⟩ := relay_delivers_or_says_so hinput (hrun .warn [99, 5])
  obtain ⟨hquiet, _, _, _, hnothing, _⟩ := relay_delivers_or_says_so hinput (hrun .trace [])
  have hok := hzero.mpr (by decide +kernel)
  have hsilent := hquiet.mpr (by decide +kernel)
  have hbelow : ¬ Level.trace.passes .info = true := by
    rw [Level.passes_iff]
    decide
  refine ⟨_, fun level => _, hinput, hrun, hok, hone ?_, (hbytes hok).trans (by decide +kernel),
    hsilent, (hnothing hsilent).trans (if_neg hbelow)⟩
  decide +kernel

end Relay

end LeveledLog.Command
