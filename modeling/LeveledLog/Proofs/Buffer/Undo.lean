import LeveledLog.Proofs.Buffer.Conservation

/-!
# Undoing to a mark

A mark is the count of the bytes appended when it was taken. Whatever is appended, flushed and
undone after it, the bytes that were held at the mark leave first and in order. So a rollback
to the mark finds everything younger still held, and removes exactly that, unless the sink has
already taken some of it.
-/

namespace LeveledLog.Buffer

open Exchange (allTaken)

variable {marked b c : Buffer} {es : List Exchange} {reply : Except Fault Bool}

/-- A step after a mark: no other sink is turned to, and what is undone was appended after a
checkpoint that was taken since the mark and is still in reach. -/
def SinceMark (steps : List ActionStep) (step : ActionStep) : Prop :=
  match step.request with
  | .reset _ => False
  | .rollback mark =>
    (∃ earlier ∈ steps ++ [step], mark = earlier.before.mark) ∧ mark ≤ step.before.appended
  | _ => True

/-- The part of its bytes that a step let into the buffer. -/
def entered (step : ActionStep) : Bytes :=
  match step.request with
  | .append data => data.take (step.after.appended - step.before.appended)
  | .appendByte byte => [byte].take (step.after.appended - step.before.appended)
  | _ => []

/-- The bytes that steps let into the buffer, in order, also those that were undone later. -/
def allEntered (steps : List ActionStep) : Bytes := steps.flatMap entered

theorem allEntered_snoc (steps : List ActionStep) (step : ActionStep) :
    allEntered (steps ++ [step]) = allEntered steps ++ entered step := by
  simp only [allEntered, List.flatMap_append, List.flatMap_cons, List.flatMap_nil, List.append_nil]

/-- No step undoes anything. -/
def NothingUndone (steps : List ActionStep) : Prop :=
  ∀ step ∈ steps, ∀ mark, step.request ≠ .rollback mark

/-- An append after a mark is a flow: what it lets in comes behind what entered before. -/
private theorem flow_append_since {data s left : Bytes} {r : Bool} (hb : b.Sound)
    (hf : Flow marked s left b) (h : (b.append data).Runs es (r, c)) :
    Flow marked (s ++ data.take (c.appended - b.appended)) (left ++ allTaken es) c := by
  obtain ⟨k, hk, hstep, _⟩ := flow_append hb h
  have hgrowth : c.appended - b.appended = k := by
    rw [hstep.appended, List.length_take, Nat.min_eq_left hk, Nat.add_sub_cancel_left]
  rw [hgrowth]
  exact hf.trans hstep

/-- A step after a mark is a flow from the marked buffer: the bytes it lets in come behind
those that entered before it, and a rollback takes some of these back from their end. -/
theorem flow_step {steps : List ActionStep} {step : ActionStep} {s left : Bytes}
    (hm : marked.Sound) (hb : step.before.Sound) (hf : Flow marked s left step.before)
    (hmarks : ∀ earlier ∈ steps, marked.appended ≤ earlier.before.appended)
    (ha : SinceMark steps step)
    (h : (step.before.act step.request).Runs step.exchanges (step.reply, step.after)) :
    ∃ t, Flow marked t (left ++ allTaken step.exchanges) step.after ∧ t <+: s ++ entered step ∧
      ((∀ mark, step.request ≠ .rollback mark) → t = s ++ entered step) ∧
      step.after.Sound ∧ ∀ e ∈ step.exchanges, e.ConcernsOnly marked.sink := by
  cases hq : step.request with
  | append data =>
    rw [hq] at h
    obtain ⟨r, h, _⟩ := runs_act_append.mp h
    refine ⟨_, ?_, List.prefix_rfl, fun _ => rfl, hb.append h, hf.sink ▸ concerns_append h⟩
    simpa only [entered, hq] using flow_append_since hb hf h
  | appendByte byte =>
    rw [hq] at h
    obtain ⟨r, h, _⟩ := runs_act_appendByte.mp h
    refine ⟨_, ?_, List.prefix_rfl, fun _ => rfl, hb.append h, hf.sink ▸ concerns_append h⟩
    simpa only [entered, hq] using flow_append_since hb hf h
  | flush =>
    rw [hq] at h
    obtain ⟨r, h, _⟩ := runs_act_flush.mp h
    refine ⟨_, ?_, List.prefix_rfl, fun _ => rfl, hb.flush h, hf.sink ▸ concerns_flush h⟩
    simpa only [entered, hq] using hf.trans (flow_flush h)
  | reset sink =>
    rw [SinceMark, hq] at ha
    exact ha.elim
  | rollback mark =>
    rw [SinceMark, hq] at ha
    rw [hq] at h
    obtain ⟨hes, r, h, _⟩ := runs_act_rollback.mp h
    obtain ⟨⟨earlier, hmem, hmark⟩, hreach⟩ := ha
    -- A checkpoint taken since the mark counts at least what the mark counts.
    have hstart : marked.appended ≤ mark := by
      rw [hmark, Buffer.mark]
      rcases List.mem_append.mp hmem with hmem | hmem
      · exact hmarks earlier hmem
      · rw [List.mem_singleton.mp hmem, hf.appended]
        exact Nat.le_add_right ..
    refine ⟨s.take (max mark step.before.drained - marked.appended), ?_, ?_,
      fun hno => absurd rfl (hno mark), hb.rollback hreach h, by simp [hes]⟩
    · simpa only [hes, Exchange.allTaken_nil, List.append_nil] using
        hf.rollback hm hb hstart hreach h
    · simpa only [entered, hq, List.append_nil] using List.take_prefix ..

/-- All that happened since a mark is one flow from the marked buffer to one sink. The bytes
that entered are among those that were let in, and all of them when nothing was undone. -/
theorem flow_since {steps : List ActionStep} (hm : marked.Sound)
    (h : History act SinceMark marked steps b) :
    b.Sound ∧ (∀ step ∈ steps, marked.appended ≤ step.before.appended) ∧
      (∀ step ∈ steps, ∀ e ∈ step.exchanges, e.ConcernsOnly marked.sink) ∧
      ∃ s, Flow marked s (Step.accepted steps) b ∧ s.Sublist (allEntered steps) ∧
        (NothingUndone steps → s = allEntered steps) := by
  induction h with
  | start => exact ⟨hm, by simp, by simp, [], .refl _, .refl _, fun _ => rfl⟩
  | @snoc steps step _ ha hr ih =>
    obtain ⟨hb, hmarks, hsink, s, hf, hsub, hall⟩ := ih
    obtain ⟨t, hf', hpre, hno, hs, hsink'⟩ := flow_step hm hb hf hmarks ha hr
    refine ⟨hs, ?_, ?_, t, ?_, ?_, ?_⟩
    · intro earlier hmem
      rcases List.mem_append.mp hmem with hmem | hmem
      · exact hmarks earlier hmem
      · rw [List.mem_singleton.mp hmem, hf.appended]
        exact Nat.le_add_right ..
    · intro earlier hmem
      rcases List.mem_append.mp hmem with hmem | hmem
      · exact hsink earlier hmem
      · rw [List.mem_singleton.mp hmem]
        exact hsink'
    · rw [Step.accepted_append, Step.accepted_singleton]
      exact hf'
    · rw [allEntered_snoc]
      exact hpre.sublist.trans (hsub.append_right _)
    · intro hnone
      rw [allEntered_snoc, hno (hnone step (by simp)),
        hall fun earlier hmem => hnone earlier (List.mem_append_left _ hmem)]

/-- Take a mark in any state a buffer reaches, go on in any way that neither turns to another
sink nor undoes to an older mark, and undo to the mark. What the sink took since is some of
what was held at the mark, followed by younger bytes only if all of that was taken. The
rollback is clean exactly when the sink took nothing younger, and then everything taken and
held is what it was at the mark, and so is the count. Otherwise nothing is held, nothing older
than the mark is lost, and the younger bytes taken are in the order in which they were let in;
they are the first of those when nothing was undone in between. -/
theorem rollback_undoes_exactly {sink : Sink} {capacity : Nat} {past since : List ActionStep}
    {clean : Bool} (hc : 0 < capacity)
    (reached : History act InReach (.empty sink capacity) past marked)
    (later : History act SinceMark marked since b)
    (undone : b.rollback marked.mark = (clean, c)) :
    (∀ step ∈ since, ∀ e ∈ step.exchanges, e.ConcernsOnly marked.sink) ∧
    ∃ old young, Step.accepted since = old ++ young ∧ old <+: marked.held ∧
      (young ≠ [] → old = marked.held) ∧ young.Sublist (allEntered since) ∧
      (clean = true ↔ young = []) ∧
      (clean = true →
        Step.accepted (past ++ since) ++ c.held = Step.accepted past ++ marked.held ∧
        c.appended = marked.mark) ∧
      (clean = false →
        c.held = [] ∧ young ≠ [] ∧
        Step.accepted (past ++ since) = Step.accepted past ++ marked.held ++ young ∧
        (NothingUndone since → young <+: allEntered since)) := by
  obtain ⟨hm, _, _⟩ := history_counts hc reached
  obtain ⟨hb, _, hsink, s, hf, hsub, hall⟩ := flow_since hm later
  refine ⟨hsink, ?_⟩
  rcases hf.undo hm hb undone with ⟨rfl, hflow⟩ | ⟨rfl, hempty, young, hne, hpre, hflow⟩
  · have horder : Step.accepted since ++ c.held = marked.held := by
      rw [hflow.order, List.append_nil]
    refine ⟨Step.accepted since, [], (List.append_nil _).symm, ⟨c.held, horder⟩, by simp,
      List.nil_sublist _, by simp, fun _ => ⟨?_, hflow.appended⟩, by simp⟩
    rw [Step.accepted_append, List.append_assoc, horder]
  · have horder : Step.accepted since = marked.held ++ young := by
      rw [← hflow.order, hempty, List.append_nil]
    refine ⟨marked.held, young, horder, List.prefix_rfl, fun _ => rfl, hpre.sublist.trans hsub,
      by simp [hne], by simp, fun _ => ⟨hempty, hne, ?_, ?_⟩⟩
    · rw [Step.accepted_append, horder, List.append_assoc]
    · intro hnone
      rw [← hall hnone]
      exact hpre

/-- A byte is held at the mark, another one is appended and undone, and of two more the sink
takes only the first after the byte held. The rollback finds that one gone. -/
theorem rollback_undoes_exactly_too_late :
    0 < 2 ∧
    History act InReach (.empty ⟨0, []⟩ 2)
      [⟨.empty ⟨0, []⟩ 2, .appendByte 1, [], .ok true, ⟨⟨0, []⟩, 2, [1], 1, 0⟩⟩]
      ⟨⟨0, []⟩, 2, [1], 1, 0⟩ ∧
    History act SinceMark ⟨⟨0, []⟩, 2, [1], 1, 0⟩
      [⟨⟨⟨0, []⟩, 2, [1], 1, 0⟩, .appendByte 2, [], .ok true, ⟨⟨0, []⟩, 2, [1, 2], 2, 0⟩⟩,
        ⟨⟨⟨0, []⟩, 2, [1, 2], 2, 0⟩, .rollback 1, [], .ok true, ⟨⟨0, []⟩, 2, [1], 1, 0⟩⟩,
        ⟨⟨⟨0, []⟩, 2, [1], 1, 0⟩, .append [3, 4],
          [.offered ⟨0, []⟩ [1] 1, .offered ⟨0, []⟩ [3, 4] 1], .ok false,
          ⟨⟨0, []⟩, 2, [], 2, 2⟩⟩]
      ⟨⟨0, []⟩, 2, [], 2, 2⟩ ∧
    (Buffer.mk ⟨0, []⟩ 2 [] 2 2).rollback (Buffer.mk ⟨0, []⟩ 2 [1] 1 0).mark =
      (false, ⟨⟨0, []⟩, 2, [], 2, 2⟩) ∧
    ∃ young, young ≠ [] ∧
      allTaken [.offered ⟨0, []⟩ [1] 1, .offered ⟨0, []⟩ [3, 4] 1] = [1] ++ young := by
  have made : History act InReach (.empty ⟨0, []⟩ 2) [] _ := .start
  have reached := made.answered (.appendByte 1) [] (by simp [InReach])
  have marked : History act SinceMark ⟨⟨0, []⟩, 2, [1], 1, 0⟩ [] _ := .start
  have appended := marked.answered (.appendByte 2) [] (by simp [SinceMark])
  have undone := appended.answered (.rollback 1) []
    ⟨⟨_, List.mem_append_left _ (List.mem_cons_self ..), rfl⟩, by decide⟩
  have cut := undone.answered (.append [3, 4]) [1, 1] (by simp [SinceMark])
  obtain ⟨_, _, young, _, _, _, _, _, _, h⟩ :=
    rollback_undoes_exactly (by decide) reached cut rfl
  obtain ⟨_, hyoung, htaken, _⟩ := h rfl
  exact ⟨by decide, reached, cut, rfl, young, hyoung, htaken⟩

end LeveledLog.Buffer
