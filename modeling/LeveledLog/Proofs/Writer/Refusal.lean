import LeveledLog.Proofs.Writer.Emission

/-!
# Refused templates

A template is checked before anything is written, so a refusal leaves no trace. What passes
the check can be rendered in full: once a line has begun, only its destination can fail it.
-/

namespace LeveledLog.Writer

variable {w w' : Writer} {b : Buffer} {stamp template : Bytes} {level : Level}
  {arguments : List Argument} {es : List Exchange} {result : Except Fault Nat}

/-- A call is refused for its format exactly when the template does not fit its arguments. -/
theorem refused_iff_misfit
    (h : ((w.withStream b).writeFormatted stamp level template arguments).Runs es (result, w')) :
    (∃ fault, result = .error (.format fault)) ↔ Line.Misfit template arguments := by
  by_cases hm : Line.Misfit template arguments
  · obtain ⟨fault, hw⟩ := writeFormatted_misfit hm w b stamp level
    rw [hw, Dialogue.runs_pure, Prod.mk.injEq] at h
    exact iff_of_true ⟨fault, h.2.1⟩ hm
  · obtain ⟨texts, _, _, hw⟩ := writeFormatted_fitting hm w b stamp level
    rw [hw] at h
    refine iff_of_false ?_ hm
    rintro ⟨fault, rfl⟩
    rcases emit_made h with ⟨size, hs⟩ | ⟨destination, delivered, hs⟩
    · cases hs
    · cases hs

/-- A call that is refused for its format offers nothing and changes nothing. -/
theorem refused_without_trace {fault : FormatFault}
    (h : ((w.withStream b).writeFormatted stamp level template arguments).Runs es
      (.error (.format fault), w')) : es = [] ∧ w' = w.withStream b := by
  have hm := (refused_iff_misfit h).mp ⟨fault, rfl⟩
  obtain ⟨_, hw⟩ := writeFormatted_misfit hm w b stamp level
  rw [hw, Dialogue.runs_pure, Prod.mk.injEq] at h
  exact ⟨h.1, h.2.2⟩

/-- On an open writer in any state, with any destination, a template is refused exactly when
the numbers of slots and arguments differ, or a slot is not well formed, or a verb does not
accept its argument, and a refusal leaves the writer as it was and offers nothing. In every
other case each slot is read and rendered, no part of the line is missing when it is appended,
and whoever answers, the call returns a length or reports its destination. No slot that is
found in a template is malformed. -/
theorem template_refused_whole_or_not_at_all (w : Writer) (b : Buffer) (stamp : Bytes)
    (level : Level) (template : Bytes) (arguments : List Argument) :
    (∀ es result w',
      ((w.withStream b).writeFormatted stamp level template arguments).Runs es (result, w') →
        ((∃ fault, result = .error (.format fault)) ↔ Line.Misfit template arguments) ∧
        ((∃ fault, result = .error (.format fault)) → es = [] ∧ w' = w.withStream b)) ∧
    (¬ Line.Misfit template arguments →
      (∀ slot ∈ Template.slots template, ∃ spec argument text,
        Spec.parse slot.text = .ok spec ∧ arguments[slot.ordinal]? = some argument ∧
          Rendering.value spec argument = .ok text) ∧
      (∀ es outcome after,
        (b.appendAll (Line.parts stamp level (Line.bodyParts template arguments))).Runs es
          (outcome, after) → ∃ done, outcome = .ok done) ∧
      ∀ (σ : Type) (p : Partner (StateM σ)) (s : σ), ∃ result w' s',
        (((w.withStream b).writeFormatted stamp level template arguments).run p).run s =
          ((result, w'), s') ∧
        ((∃ size, result = .ok size) ∨
          ∃ destination delivered, result = .error (.sinkFailed destination delivered))) ∧
    ∀ slot ∈ Template.slots template, ∀ cited,
      Spec.parse slot.text ≠ .error (.malformed cited) := by
  refine ⟨fun es result w' h => ⟨refused_iff_misfit h, ?_⟩, fun hm => ⟨?_, ?_, ?_⟩, ?_⟩
  · rintro ⟨fault, rfl⟩
    exact refused_without_trace h
  · intro slot hslot
    have hfits := (Line.check_eq_ok_iff_fits.mp (Line.check_eq_ok_iff.mpr hm)).2
    exact (hfits slot hslot).rendered
  · intro es outcome after h
    obtain ⟨texts, htexts, _⟩ := writeFormatted_fitting hm w b stamp level
    rw [htexts] at h
    exact Buffer.appendAll_made h
  · intro σ p s
    obtain ⟨texts, _, _, hw⟩ := writeFormatted_fitting hm w b stamp level
    obtain ⟨es, h⟩ := Dialogue.exists_runs_run p
      ((w.withStream b).writeFormatted stamp level template arguments) s
    rw [hw] at h
    exact ⟨_, _, _, rfl, by rw [hw]; exact emit_made h⟩
  · intro slot hslot cited
    exact Spec.parse_slot_ne_malformed hslot cited

/-- A slot for a number refuses a truth value, and nothing is offered to the destination of the
full buffer. With a number in its place the slot is rendered and the call comes to an end. -/
theorem template_refused_whole_or_not_at_all_number :
    Line.Misfit (utf8 "%3d") [.bool true] ∧ ¬ Line.Misfit (utf8 "%3d") [.int 7] ∧
    (∀ es result w',
      (((Writer.mk .debug 2 none).withStream ⟨⟨0, []⟩, 2, [1, 2], 2, 0⟩).writeFormatted [65] .info
        (utf8 "%3d") [.bool true]).Runs es (result, w') → es = []) ∧
    (∀ slot ∈ Template.slots (utf8 "%3d"), ∃ spec argument text, Spec.parse slot.text = .ok spec ∧
      [Argument.int 7][slot.ordinal]? = some argument ∧
        Rendering.value spec argument = .ok text) ∧
    ∀ (p : Partner (StateM Nat)), ∃ result w' s',
      ((((Writer.mk .debug 2 none).withStream ⟨⟨0, []⟩, 2, [1, 2], 2, 0⟩).writeFormatted [65]
        .info (utf8 "%3d") [.int 7]).run p).run 0 = ((result, w'), s') ∧
      ((∃ size, result = .ok size) ∨
        ∃ destination delivered, result = .error (.sinkFailed destination delivered)) := by
  have hrefused : Line.Misfit (utf8 "%3d") [.bool true] := by
    by_contra hfits
    have hcheck := Line.check_eq_ok_iff.mpr hfits
    cases hcheck
  have haccepted : ¬ Line.Misfit (utf8 "%3d") [.int 7] := Line.check_eq_ok_iff.mp rfl
  obtain ⟨hruns, _, _⟩ := template_refused_whole_or_not_at_all (.mk .debug 2 none)
    ⟨⟨0, []⟩, 2, [1, 2], 2, 0⟩ [65] .info (utf8 "%3d") [.bool true]
  obtain ⟨_, hwhole, _⟩ := template_refused_whole_or_not_at_all (.mk .debug 2 none)
    ⟨⟨0, []⟩, 2, [1, 2], 2, 0⟩ [65] .info (utf8 "%3d") [.int 7]
  obtain ⟨hrendered, _, hanswered⟩ := hwhole haccepted
  refine ⟨hrefused, haccepted, fun es result w' h => ?_, hrendered,
    fun p => hanswered Nat p 0⟩
  obtain ⟨hiff, htrace⟩ := hruns es result w' h
  exact (htrace (hiff.mpr hrefused)).1

end LeveledLog.Writer
