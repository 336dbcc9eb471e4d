import LeveledLog.Line
import LeveledLog.Proofs.Format.Slots

/-!
# Filling templates

The check of a template against its arguments and the rendering of its slots are two passes
over the same tokens. They agree: the check refuses exactly the misfits, and what it lets
through is rendered without a fault, token by token.
-/

namespace LeveledLog.Line

open Template (Slot Token)

variable {arguments : List Argument} {template : Bytes} {slot : Slot}

/-- A slot is well formed and its verb accepts the argument in its place. -/
def Fits (arguments : List Argument) (slot : Slot) : Prop :=
  ∃ spec argument, Spec.parse slot.text = .ok spec ∧
    arguments[slot.ordinal]? = some argument ∧ spec.verb.accepts argument.kind = true

/-- A template and arguments do not fit together: their numbers differ, or a slot is not well
formed, or the verb of a slot does not accept the argument in its place. -/
def Misfit (template : Bytes) (arguments : List Argument) : Prop :=
  Template.slotCount template ≠ arguments.length ∨
  (∃ slot ∈ Template.slots template, ∃ fault, Spec.parse slot.text = .error fault) ∨
  ∃ slot ∈ Template.slots template, ∃ spec argument, Spec.parse slot.text = .ok spec ∧
    arguments[slot.ordinal]? = some argument ∧ spec.verb.accepts argument.kind = false

/-- What a token contributes to the body of a line: plain text itself, a slot one backslash for
each of its markers and then the text of the argument in its place. -/
inductive Fills (arguments : List Argument) : Token → Bytes → Prop
  | text (content : Bytes) : Fills arguments (.text content) content
  | slot {slot : Slot} {spec : Spec} {argument : Argument} {value : Bytes} :
      Spec.parse slot.text = .ok spec → arguments[slot.ordinal]? = some argument →
      Rendering.value spec argument = .ok value →
      Fills arguments (.slot slot) (List.replicate slot.markers Bytes.backslash ++ value)

/-- The body of a filled template: what its tokens contribute, in their order. -/
def Body (template : Bytes) (arguments : List Argument) (body : Bytes) : Prop :=
  ∃ fillings, List.Forall₂ (Fills arguments) (Template.tokens template) fillings ∧
    body = fillings.flatten

/-- A whole line: the stamp, the tag of the level, the body and the byte that ends it. -/
def whole (stamp : Bytes) (level : Level) (body : Bytes) : Bytes :=
  stamp ++ level.tag ++ body ++ [Bytes.lineFeed]

private theorem forM_eq_ok {ε α : Type} {f : α → Except ε Unit} {xs : List α} :
    xs.forM f = .ok () ↔ ∀ x ∈ xs, f x = .ok () := by
  induction xs with
  | nil => simp [List.forM, pure, Except.pure]
  | cons x xs ih =>
    change (f x >>= fun _ => xs.forM f) = _ ↔ _
    rw [bind_eq_ok, List.forall_mem_cons, ← ih]
    constructor
    · rintro ⟨_, hx, hxs⟩
      exact ⟨hx, hxs⟩
    · rintro ⟨hx, hxs⟩
      exact ⟨(), hx, hxs⟩

/-- A slot passes the check exactly when it fits. -/
theorem checkSlot_eq_ok_iff : checkSlot arguments slot = .ok () ↔ Fits arguments slot := by
  unfold checkSlot
  cases ha : arguments[slot.ordinal]? with
  | none => simp [Fits, ha]
  | some argument =>
    simp only [bind_eq_ok]
    constructor
    · rintro ⟨spec, hspec, h⟩
      refine ⟨spec, argument, hspec, ha, ?_⟩
      split at h
      · assumption
      · cases h
    · rintro ⟨spec, argument', hspec, ha', hv⟩
      cases ha.symm.trans ha'
      exact ⟨spec, hspec, if_pos hv⟩

/-- A template passes the check exactly when it has as many slots as there are arguments and
all of them fit. -/
theorem check_eq_ok_iff_fits : check template arguments = .ok () ↔
    Template.slotCount template = arguments.length ∧
      ∀ slot ∈ Template.slots template, Fits arguments slot := by
  unfold check
  rw [bind_eq_ok]
  constructor
  · rintro ⟨_, hslots, hcount⟩
    refine ⟨?_, fun slot hslot => checkSlot_eq_ok_iff.mp (forM_eq_ok.mp hslots slot hslot)⟩
    split at hcount
    · assumption
    · cases hcount
  · rintro ⟨hcount, hfits⟩
    exact ⟨(), forM_eq_ok.mpr fun slot hslot => checkSlot_eq_ok_iff.mpr (hfits slot hslot),
      if_pos hcount⟩

/-- The check refuses exactly the misfits. -/
theorem check_eq_ok_iff : check template arguments = .ok () ↔ ¬ Misfit template arguments := by
  rw [check_eq_ok_iff_fits]
  constructor
  · rintro ⟨hcount, hfits⟩ (h | ⟨slot, hslot, fault, h⟩ | ⟨slot, hslot, spec, argument, h, ha, hv⟩)
    · exact h hcount
    · obtain ⟨spec, _, hspec, _⟩ := hfits slot hslot
      cases h.symm.trans hspec
    · obtain ⟨spec', argument', hspec, ha', hv'⟩ := hfits slot hslot
      cases h.symm.trans hspec
      cases ha.symm.trans ha'
      cases hv.symm.trans hv'
  · intro h
    have hcount : Template.slotCount template = arguments.length :=
      Decidable.byContradiction fun hne => h (.inl hne)
    refine ⟨hcount, fun slot hslot => ?_⟩
    -- With as many arguments as slots, no slot is left without one.
    have hlt : slot.ordinal < arguments.length := hcount ▸ Template.ordinal_lt_slotCount hslot
    have ha : arguments[slot.ordinal]? = some arguments[slot.ordinal] :=
      List.getElem?_eq_getElem hlt
    cases hspec : Spec.parse slot.text with
    | error fault => exact absurd (.inr (.inl ⟨slot, hslot, fault, hspec⟩)) h
    | ok spec =>
      refine ⟨spec, _, hspec, ha, ?_⟩
      cases hv : spec.verb.accepts (arguments[slot.ordinal]).kind with
      | true => rfl
      | false => exact absurd (.inr (.inr ⟨slot, hslot, spec, _, hspec, ha, hv⟩)) h

/-- A slot that fits is rendered without a fault. -/
theorem Fits.rendered (h : Fits arguments slot) :
    ∃ spec argument text, Spec.parse slot.text = .ok spec ∧
      arguments[slot.ordinal]? = some argument ∧ Rendering.value spec argument = .ok text := by
  obtain ⟨spec, argument, hspec, ha, hv⟩ := h
  exact ⟨spec, argument, _, hspec, ha, if_pos hv⟩

/-- The parts of a token whose slot fits can all be made, and they are what fills it. -/
theorem tokenParts_made {token : Token}
    (h : ∀ slot, token = .slot slot → Fits arguments slot) :
    ∃ texts : List Bytes, tokenParts arguments token = texts.map .ok ∧
      Fills arguments token texts.flatten := by
  cases token with
  | text content => exact ⟨[content], rfl, by simpa using Fills.text content⟩
  | slot slot =>
    obtain ⟨spec, argument, text, hspec, ha, ht⟩ := (h slot rfl).rendered
    have hvalue : slotValue arguments slot = .ok text := by
      simp only [slotValue, hspec, ha]
      exact ht
    refine ⟨List.replicate slot.markers [Bytes.backslash] ++ [text], ?_, ?_⟩
    · simp only [tokenParts, hvalue, List.map_append, List.map_replicate, List.map_cons,
        List.map_nil]
    · have hf := Fills.slot hspec ha ht
      simpa using hf

/-- The parts of tokens whose slots fit can all be made. -/
theorem flatMap_tokenParts_made {tokens : List Token}
    (h : ∀ slot, .slot slot ∈ tokens → Fits arguments slot) :
    ∃ texts : List Bytes, tokens.flatMap (tokenParts arguments) = texts.map .ok ∧
      ∃ fillings, List.Forall₂ (Fills arguments) tokens fillings ∧
        texts.flatten = fillings.flatten := by
  induction tokens with
  | nil => exact ⟨[], rfl, [], .nil, rfl⟩
  | cons token tokens ih =>
    have hhead (slot : Slot) (hs : token = .slot slot) : Fits arguments slot :=
      h slot (hs ▸ List.mem_cons_self ..)
    have htail (slot : Slot) (hs : .slot slot ∈ tokens) : Fits arguments slot :=
      h slot (List.mem_cons_of_mem _ hs)
    obtain ⟨texts, htexts, hfill⟩ := tokenParts_made hhead
    obtain ⟨rest, hrest, fillings, hfillings, hflat⟩ := ih htail
    refine ⟨texts ++ rest, ?_, texts.flatten :: fillings, .cons hfill hfillings, ?_⟩
    · rw [List.flatMap_cons, htexts, hrest, List.map_append]
    · rw [List.flatten_append, List.flatten_cons, hflat]

/-- The parts of a template that passed the check can all be made, and they are its body. -/
theorem bodyParts_made (h : check template arguments = .ok ()) :
    ∃ texts : List Bytes, bodyParts template arguments = texts.map .ok ∧
      Body template arguments texts.flatten := by
  obtain ⟨_, hfits⟩ := check_eq_ok_iff_fits.mp h
  exact flatMap_tokenParts_made fun slot hslot => hfits slot (Template.mem_slots_iff.mpr hslot)

/-- Around a body whose parts can all be made, the parts of the line can all be made. -/
theorem parts_made (stamp : Bytes) (level : Level) (texts : List Bytes) :
    ∃ all : List Bytes, parts stamp level (texts.map .ok) = all.map .ok ∧
      all.flatten = whole stamp level texts.flatten := by
  refine ⟨stamp :: level.tag :: texts ++ [[Bytes.lineFeed]], ?_, ?_⟩
  · simp only [parts, List.cons_append, List.map_cons, List.map_append, List.map_nil]
  · simp only [whole, List.cons_append, List.flatten_cons, List.flatten_append, List.flatten_nil,
      List.append_nil, List.append_assoc]

end LeveledLog.Line
