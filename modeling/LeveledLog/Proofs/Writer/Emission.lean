import LeveledLog.Proofs.Buffer.Flow
import LeveledLog.Proofs.Line.Filling
import LeveledLog.Writer

/-!
# What becomes of a line

A line is handed to the buffer in parts. Either all of it enters the buffer, or it is taken
back without a trace, or the destination has taken a beginning of it and the rest is gone. The
result tells the three apart.
-/

namespace LeveledLog.Writer

open Exchange (allTaken DrawnFrom)

variable {w w' : Writer} {b : Buffer} {es : List Exchange} {result : Except Fault Nat}

/-- How the message ends when part of a line was delivered. -/
def deliveryNote : Bytes := utf8 "; part of the line was delivered"

/-- What a call to write a line contributes to the bytes of the log, by its result. -/
inductive LineOutcome (line : Bytes) : Except Fault Nat → Bytes → Prop
  /-- The line, when its length was returned. -/
  | written : LineOutcome line (.ok line.length) line
  /-- Nothing, when the destination failed and the message says no more than that. -/
  | takenBack {destination : Bytes} {delivered : Bool} :
      ¬ deliveryNote <:+ (Fault.sinkFailed destination delivered).message →
      LineOutcome line (.error (.sinkFailed destination delivered)) []
  /-- A beginning of the line, when the message says that part of it was delivered. -/
  | cut {destination contribution : Bytes} {delivered : Bool} :
      deliveryNote <:+ (Fault.sinkFailed destination delivered).message →
      contribution ≠ [] → contribution <+: line → contribution.length < line.length →
      LineOutcome line (.error (.sinkFailed destination delivered)) contribution

/-- The message mentions a delivery exactly when there was one. -/
theorem deliveryNote_suffix_iff (destination : Bytes) (delivered : Bool) :
    deliveryNote <:+ (Fault.sinkFailed destination delivered).message ↔ delivered = true := by
  cases delivered with
  | true => exact iff_of_true (List.suffix_append ..) rfl
  | false =>
    refine iff_of_false (fun h => ?_) (by simp)
    obtain ⟨front, h⟩ := h
    have hlast : (front ++ deliveryNote).getLast? =
        (Fault.sinkFailed destination false).message.getLast? := congrArg List.getLast? h
    have hnote : deliveryNote.getLast? = some 'd'.toUInt8 := by decide +kernel
    have hplain : (utf8 " failed while draining the buffer").getLast? = some 'r'.toUInt8 := by
      decide +kernel
    simp only [Fault.message, Bool.false_eq_true, ite_false, List.append_nil,
      List.getLast?_append, hnote, hplain, Option.some_or] at hlast
    exact absurd hlast (by decide)

theorem textOf_made (texts : List Bytes) : Line.textOf (texts.map .ok) = texts.flatten := by
  simp only [Line.textOf, List.flatMap_map, Except.toOption, Option.getD_some, List.flatMap_id']

/-- A line whose parts could all be made flows into the buffer as far as its result says: all
of it, nothing, or a beginning that has left for the destination already. -/
theorem emit_outcome {texts : List Bytes} (hb : b.Sound)
    (h : (w.emit b (texts.map .ok)).Runs es (result, w')) :
    ∃ c contribution, w' = w.withStream c ∧ c.Sound ∧
      b.Flow contribution (allTaken es) c ∧ (∀ e ∈ es, e.IsOfferTo b.sink) ∧
      DrawnFrom (b.held ++ texts.flatten) es ∧ LineOutcome texts.flatten result contribution := by
  simp only [emit, Dialogue.runs_bind] at h
  obtain ⟨es₁, ⟨outcome, after⟩, es₂, h₁, h₂, rfl⟩ := h
  obtain ⟨done, k, rfl, hk, hf, hafter, hsink, hdrawn, hdone⟩ := Buffer.flow_appendAll hb h₁
  cases done with
  | true =>
    simp only [Dialogue.runs_pure, Prod.mk.injEq] at h₂
    obtain ⟨rfl, rfl, rfl⟩ := h₂
    rw [hdone.mp rfl, List.take_length] at hf
    rw [textOf_made, List.append_nil]
    exact ⟨after, texts.flatten, rfl, hafter, hf, hsink, hdrawn, .written⟩
  | false =>
    have hshort : k < texts.flatten.length := Nat.lt_of_le_of_ne hk (by simpa using hdone)
    obtain ⟨clean, restored, hr⟩ : ∃ clean restored, after.rollback b.mark = (clean, restored) :=
      ⟨_, _, rfl⟩
    simp only [hr, Dialogue.runs_pure, Prod.mk.injEq] at h₂
    obtain ⟨rfl, rfl, rfl⟩ := h₂
    have hsound : restored.Sound := hafter.rollback (hf.appended ▸ Nat.le_add_right ..) hr
    rw [List.append_nil]
    rcases hf.undo hb hafter hr with ⟨rfl, hflow⟩ | ⟨rfl, _, young, hne, hpre, hflow⟩
    · refine ⟨restored, [], rfl, hsound, hflow, hsink, hdrawn, ?_⟩
      exact .takenBack fun hnote => by simpa using (deliveryNote_suffix_iff _ _).mp hnote
    · refine ⟨restored, young, rfl, hsound, hflow, hsink, hdrawn, ?_⟩
      have hlength := hpre.length_le
      rw [List.length_take] at hlength
      exact .cut ((deliveryNote_suffix_iff _ _).mpr rfl) hne (hpre.trans (List.take_prefix ..))
        (by omega)

/-- A line whose parts could all be made is written, or the destination fails. -/
theorem emit_made {texts : List Bytes} (h : (w.emit b (texts.map .ok)).Runs es (result, w')) :
    (∃ size, result = .ok size) ∨
      ∃ destination delivered, result = .error (.sinkFailed destination delivered) := by
  simp only [emit, Dialogue.runs_bind] at h
  obtain ⟨_, ⟨outcome, after⟩, _, h₁, h₂, _⟩ := h
  obtain ⟨done, rfl⟩ := Buffer.appendAll_made h₁
  cases done with
  | true =>
    simp only [Dialogue.runs_pure, Prod.mk.injEq] at h₂
    exact .inl ⟨_, h₂.2.1⟩
  | false =>
    simp only [Dialogue.runs_pure, Prod.mk.injEq] at h₂
    exact .inr ⟨_, _, h₂.2.1⟩

/-! ## The two ways to write -/

/-- A template that does not fit its arguments is refused before anything is offered. -/
theorem writeFormatted_misfit {template : Bytes} {arguments : List Argument}
    (h : Line.Misfit template arguments) (w : Writer) (b : Buffer) (stamp : Bytes)
    (level : Level) : ∃ fault, (w.withStream b).writeFormatted stamp level template arguments =
      pure (.error (.format fault), w.withStream b) := by
  cases hc : Line.check template arguments with
  | ok => exact absurd h (Line.check_eq_ok_iff.mp hc)
  | error fault => exact ⟨fault, by simp only [writeFormatted, withStream, hc]⟩

/-- A template that fits its arguments is written as a line of parts that can all be made. -/
theorem writeFormatted_fitting {template : Bytes} {arguments : List Argument}
    (h : ¬ Line.Misfit template arguments) (w : Writer) (b : Buffer) (stamp : Bytes)
    (level : Level) : ∃ texts : List Bytes,
      Line.parts stamp level (Line.bodyParts template arguments) = texts.map .ok ∧
      (∃ body, Line.Body template arguments body ∧
        texts.flatten = Line.whole stamp level body) ∧
      (w.withStream b).writeFormatted stamp level template arguments =
        (w.withStream b).emit b (texts.map .ok) := by
  have hc := Line.check_eq_ok_iff.mpr h
  obtain ⟨body, hbody, hfill⟩ := Line.bodyParts_made hc
  obtain ⟨texts, htexts, hflat⟩ := Line.parts_made stamp level body
  rw [← hbody] at htexts
  refine ⟨texts, htexts, ⟨_, hfill, hflat⟩, ?_⟩
  simp only [writeFormatted, withStream, hc, htexts]

/-- A message is written as a line of parts that can all be made. -/
theorem write_made (w : Writer) (b : Buffer) (stamp : Bytes) (level : Level) (message : Bytes) :
    ∃ texts : List Bytes, texts.flatten = Line.whole stamp level message ∧
      (w.withStream b).write stamp level message =
        (w.withStream b).emit b (texts.map .ok) := by
  obtain ⟨texts, htexts, hflat⟩ := Line.parts_made stamp level [message]
  refine ⟨texts, by simpa using hflat, ?_⟩
  rw [← htexts]
  rfl

/-! ## Between lines -/

theorem eq_withStream (h : w.stream = some b) : w = w.withStream b := by
  rw [withStream, ← h]

/-- A writer that was made has an empty buffer before its destination. -/
theorem stream_of_create {sink : Sink} {settings : Settings} {pageSize : Int64}
    (h : (create (some sink) true settings pageSize).Runs [] (.ok w)) :
    ∃ capacity, 0 < capacity ∧ w.stream = some (.empty sink capacity) := by
  simp only [create, Bool.not_true, Bool.false_eq_true, ite_false, Dialogue.runs_pure,
    Except.ok.injEq, true_and] at h
  refine ⟨if settings.capacity = 0 then Settings.defaultCapacity pageSize else settings.capacity,
    ?_, by rw [h]⟩
  split
  · exact Settings.defaultCapacity_pos pageSize
  · omega

/-- A flush of a writer is a flush of its buffer. -/
theorem runs_flush {outcome : Except Fault Bool}
    (h : ((w.withStream b).flush).Runs es (outcome, w')) :
    ∃ done c, b.flush.Runs es (done, c) ∧ outcome = .ok done ∧ w' = w.withStream c := by
  simp only [flush, withStream, Dialogue.runs_bind, Dialogue.runs_pure, Prod.mk.injEq] at h
  obtain ⟨_, ⟨done, c⟩, _, h, ⟨rfl, rfl, rfl⟩, rfl⟩ := h
  exact ⟨done, c, by simpa using h, rfl, rfl⟩

/-- A writer turns to another destination when a flush leaves nothing for the old one, and
releases that one. If bytes are left, it keeps them and the old one, reports how many they are
and releases the new one. -/
theorem runs_resetDestination {sink : Sink} {outcome : Except Fault Bool}
    (h : ((w.withStream b).resetDestination (some sink)).Runs es (outcome, w')) :
    ∃ done c flushed, b.flush.Runs flushed (done, c) ∧ outcome = .ok done ∧
      es = flushed ++ List.map .told (if done then [.released c.sink]
        else [.diagnosed ⟨.warn, keepingReport c sink⟩, .released sink]) ∧
      w' = w.withStream (if done then { c with sink } else c) := by
  simp only [resetDestination, withStream, Dialogue.runs_bind] at h
  obtain ⟨flushed, ⟨done, c⟩, _, h, h₂, rfl⟩ := h
  cases done with
  | true =>
    simp only [ite_true, Dialogue.runs_bind, Dialogue.runs_tell, Dialogue.runs_pure,
      Prod.mk.injEq] at h₂
    obtain ⟨_, _, _, rfl, ⟨rfl, rfl, rfl⟩, rfl⟩ := h₂
    exact ⟨true, c, flushed, h, rfl, rfl, rfl⟩
  | false =>
    simp only [Bool.false_eq_true, ite_false, Dialogue.runs_bind, Dialogue.runs_report,
      Dialogue.runs_tell, Dialogue.runs_pure, Prod.mk.injEq] at h₂
    obtain ⟨_, _, _, rfl, ⟨_, _, _, rfl, ⟨rfl, rfl, rfl⟩, rfl⟩, rfl⟩ := h₂
    exact ⟨false, c, flushed, h, rfl, rfl, rfl⟩

theorem isClosed_iff : w.isClosed = true ↔ w.stream = none := Option.isNone_iff_eq_none

theorem isClosed_of_open (h : w.stream = some b) : w.isClosed = false := by
  rw [isClosed, h, Option.isNone_some]

/-- A closed writer has nothing to close. -/
theorem runs_close_closed {complete : Bool} (h : w.stream = none) :
    w.close.Runs es (complete, w') ↔ es = [] ∧ complete = true ∧ w' = w := by
  simp only [close, h, Dialogue.runs_pure, Prod.mk.injEq]

/-- Closing flushes the buffer, reports how many bytes are left if there are any, and releases
the destination. -/
theorem runs_close {complete : Bool} (h : (w.withStream b).close.Runs es (complete, w')) :
    ∃ c flushed, b.flush.Runs flushed (complete, c) ∧
      es = flushed ++ List.map .told (if complete then [.released c.sink]
        else [.diagnosed ⟨.error, droppedReport c⟩, .released c.sink]) ∧
      w' = { w with stream := none } := by
  simp only [close, withStream, Dialogue.runs_bind] at h
  obtain ⟨flushed, ⟨done, c⟩, _, h, h₂, rfl⟩ := h
  cases done with
  | true =>
    simp only [Bool.not_true, Bool.false_eq_true, ite_false, Dialogue.runs_bind,
      Dialogue.runs_tell, Dialogue.runs_pure, Prod.mk.injEq] at h₂
    obtain ⟨_, _, _, rfl, ⟨rfl, rfl, rfl⟩, rfl⟩ := h₂
    exact ⟨c, flushed, h, rfl, rfl⟩
  | false =>
    simp only [Bool.not_false, ite_true, Dialogue.runs_bind, Dialogue.runs_report,
      Dialogue.runs_tell, Dialogue.runs_pure, Prod.mk.injEq] at h₂
    obtain ⟨_, _, _, rfl, ⟨_, _, _, rfl, ⟨rfl, rfl, rfl⟩, rfl⟩, rfl⟩ := h₂
    exact ⟨c, flushed, h, rfl, rfl⟩

/-! ## The threshold -/

/-- Whatever becomes of a line, the threshold stays. -/
theorem level_of_emit {parts : List (Except FormatFault Bytes)}
    (h : (w.emit b parts).Runs es (result, w')) : w'.level = w.level := by
  simp only [emit, Dialogue.runs_bind] at h
  obtain ⟨_, ⟨outcome, after⟩, _, _, h, _⟩ := h
  rcases outcome with fault | _ | _ <;>
  · rw [Dialogue.runs_pure, Prod.mk.injEq] at h
    rw [h.2.2]
    rfl

theorem level_of_write {stamp message : Bytes} {level : Level}
    (h : (w.write stamp level message).Runs es (result, w')) : w'.level = w.level := by
  unfold write at h
  split at h
  · rw [Dialogue.runs_pure, Prod.mk.injEq] at h
    rw [h.2.2]
  · exact level_of_emit h

theorem level_of_writeFormatted {stamp template : Bytes} {level : Level}
    {arguments : List Argument}
    (h : (w.writeFormatted stamp level template arguments).Runs es (result, w')) :
    w'.level = w.level := by
  unfold writeFormatted at h
  split at h
  · rw [Dialogue.runs_pure, Prod.mk.injEq] at h
    rw [h.2.2]
  · split at h
    · rw [Dialogue.runs_pure, Prod.mk.injEq] at h
      rw [h.2.2]
    · exact level_of_emit h

theorem level_of_flush {outcome : Except Fault Bool} (h : w.flush.Runs es (outcome, w')) :
    w'.level = w.level := by
  cases hw : w.stream with
  | none =>
    rw [flush, hw, Dialogue.runs_pure, Prod.mk.injEq] at h
    rw [h.2.2]
  | some b =>
    rw [eq_withStream hw] at h
    obtain ⟨_, _, _, _, rfl⟩ := runs_flush h
    rfl

theorem level_of_resetDestination {destination : Option Sink} {outcome : Except Fault Bool}
    (h : (w.resetDestination destination).Runs es (outcome, w')) : w'.level = w.level := by
  cases destination with
  | none =>
    rw [resetDestination, Dialogue.runs_pure, Prod.mk.injEq] at h
    rw [h.2.2]
  | some sink =>
    cases hw : w.stream with
    | none =>
      simp only [resetDestination, hw, Dialogue.runs_bind, Dialogue.runs_pure, Prod.mk.injEq] at h
      obtain ⟨_, _, _, _, ⟨_, _, rfl⟩, _⟩ := h
      rfl
    | some b =>
      rw [eq_withStream hw] at h
      obtain ⟨_, _, _, _, _, _, rfl⟩ := runs_resetDestination h
      rfl

end LeveledLog.Writer
