import LeveledLog.Format.Template
import Mathlib

/-!
# The slots of a template

Every slot that is read from a template runs from a percent sign to the first verb byte behind
it, and the slots are numbered from zero in the order in which they stand.
-/

namespace LeveledLog

/-- What is joined succeeds when both steps do. -/
theorem bind_eq_ok {ε α β : Type} {x : Except ε α} {f : α → Except ε β} {b : β} :
    x >>= f = .ok b ↔ ∃ a, x = .ok a ∧ f a = .ok b := by
  cases x <;> simp [bind, Except.bind]

end LeveledLog

namespace LeveledLog.Template

open Spec (percent)

/-- A text from a percent sign to the first verb byte behind it. -/
def IsSlotText (text : Bytes) : Prop :=
  ∃ modifiers verb, text = percent :: modifiers ++ [verb] ∧ Verb.isVerb verb = true ∧
    ∀ b ∈ modifiers, Verb.isVerb b = false

/-- A slot that is being read begins with a percent sign and has met no verb yet. -/
def Reading.IsOpen : Reading → Prop
  | plain _ _ => True
  | slot reversed =>
    ∃ modifiers, reversed = modifiers ++ [percent] ∧ ∀ b ∈ modifiers, Verb.isVerb b = false

/-- Nothing that breaks off is a slot. -/
theorem slot_notMem_stop (reading : Reading) (text : Bytes) : .slot text ∉ reading.stop := by
  cases reading with
  | plain escaped reversed => cases reversed <;> simp [Reading.stop]
  | slot reversed => simp [Reading.stop]

/-- Whatever has been read, the slots that follow have the form of slots. -/
theorem isSlotText_of_mem_piecesFrom {reading : Reading} {rest text : Bytes}
    (hopen : reading.IsOpen) (h : .slot text ∈ piecesFrom reading rest) : IsSlotText text := by
  fun_induction piecesFrom reading rest with
  | case1 reading => exact absurd h (slot_notMem_stop _ _)
  | case2 reversed b rest hverb ih =>
    rcases List.mem_cons.mp h with h | h
    · obtain ⟨modifiers, rfl, hmod⟩ := hopen
      refine ⟨modifiers.reverse, b, ?_, hverb, ?_⟩
      · simpa using h
      · simpa using hmod
    · exact ih trivial h
  | case3 reversed b rest hverb ih =>
    obtain ⟨modifiers, rfl, hmod⟩ := hopen
    refine ih ⟨b :: modifiers, rfl, ?_⟩ h
    intro m hm
    rcases List.mem_cons.mp hm with rfl | hm
    · simpa using hverb
    · exact hmod m hm
  | case4 escaped reversed b hpercent ih =>
    rcases List.mem_append.mp h with h | h
    · exact absurd h (slot_notMem_stop _ _)
    · exact ih ⟨[], by simpa using hpercent, by simp⟩ h
  | case5 escaped reversed b hpercent ih => exact ih trivial h
  | case6 escaped reversed b c rest hescape ih =>
    rcases List.mem_append.mp h with h | h
    · exact absurd h (slot_notMem_stop _ _)
    · exact ih trivial h
  | case7 escaped reversed b c rest _ hpercent ih =>
    rcases List.mem_append.mp h with h | h
    · exact absurd h (slot_notMem_stop _ _)
    · exact ih ⟨[], by simpa using hpercent, by simp⟩ h
  | case8 escaped reversed b c rest _ hpercent ih => exact ih trivial h

/-- The slots of located pieces have the texts of slot pieces. -/
theorem slot_mem_of_mem_locate {offset ordinal : Nat} {ps : List Piece} {slot : Slot}
    (h : .slot slot ∈ locate offset ordinal ps) : .slot slot.text ∈ ps := by
  fun_induction locate offset ordinal ps with
  | case1 => simp at h
  | case2 offset ordinal escaped text rest ih => simpa using ih (by simpa using h)
  | case3 offset ordinal text rest ih =>
    rcases List.mem_cons.mp h with h | h
    · cases h
      exact List.mem_cons_self ..
    · exact List.mem_cons_of_mem _ (ih h)

@[simp] theorem slot?_text (content : Bytes) : (Token.text content).slot? = none := rfl

@[simp] theorem slot?_slot (slot : Slot) : (Token.slot slot).slot? = some slot := rfl

theorem mem_slots_iff {template : Bytes} {slot : Slot} :
    slot ∈ slots template ↔ .slot slot ∈ tokens template := by
  simp only [slots, List.mem_filterMap]
  constructor
  · rintro ⟨token, hmem, hslot⟩
    cases token with
    | text content => cases hslot
    | slot s =>
      cases hslot
      exact hmem
  · intro hmem
    exact ⟨_, hmem, rfl⟩

/-- Every slot of a template has the form of a slot. -/
theorem isSlotText_of_mem_slots {template : Bytes} {slot : Slot} (h : slot ∈ slots template) :
    IsSlotText slot.text := by
  have hopen : (Reading.plain false []).IsOpen := trivial
  exact isSlotText_of_mem_piecesFrom hopen (slot_mem_of_mem_locate (mem_slots_iff.mp h))

/-- Located slots are numbered one after the other. -/
theorem ordinals_locate (offset ordinal : Nat) (ps : List Piece) :
    ((locate offset ordinal ps).filterMap Token.slot?).map Slot.ordinal =
      List.range' ordinal ((locate offset ordinal ps).filterMap Token.slot?).length := by
  fun_induction locate offset ordinal ps with
  | case1 => rfl
  | case2 offset ordinal escaped text rest ih =>
    simp only [List.filterMap_cons, slot?_text]
    exact ih
  | case3 offset ordinal text rest ih =>
    simp only [List.filterMap_cons, slot?_slot, List.map_cons, List.length_cons, List.range'_succ,
      ih]

/-- The slots of a template are numbered from zero in the order in which they stand. -/
theorem ordinals_slots (template : Bytes) :
    (slots template).map Slot.ordinal = List.range (slotCount template) := by
  rw [List.range_eq_range']
  exact ordinals_locate 0 0 (pieces template)

/-- The number of a slot is less than the number of slots. -/
theorem ordinal_lt_slotCount {template : Bytes} {slot : Slot} (h : slot ∈ slots template) :
    slot.ordinal < slotCount template := by
  have hmem : slot.ordinal ∈ (slots template).map Slot.ordinal := List.mem_map_of_mem h
  rw [ordinals_slots] at hmem
  exact List.mem_range.mp hmem

end LeveledLog.Template

namespace LeveledLog.Spec

/-- The text of a slot is read by its modifiers without their backslashes. -/
theorem parse_slotText {modifiers : Bytes} {b : UInt8} {verb : Verb}
    (h : Verb.ofByte? b = some verb) :
    parse (percent :: modifiers ++ [b]) =
      ofModifiers (percent :: modifiers ++ [b]) verb
        (modifiers.filter fun m => m != Bytes.backslash) := by
  have hlast : (modifiers ++ [b]).getLast?.bind Verb.ofByte? = some verb := by
    rw [List.getLast?_concat, Option.bind_some, h]
  have hinner : (modifiers ++ [b]).dropLast = modifiers := List.dropLast_concat
  simp only [parse, List.cons_append, hlast, hinner, bne_self_eq_false, Bool.false_eq_true,
    ite_false]

private theorem bind_ne_error {ε α β : Type} {x : Except ε α} {f : α → Except ε β} {e : ε}
    (hx : x ≠ .error e) (hf : ∀ a, f a ≠ .error e) : x >>= f ≠ .error e := by
  cases x with
  | error e' => exact fun h => hx (congrArg Except.error (Except.error.inj h))
  | ok a => exact hf a

/-- A run of digits is never at fault for the form of the text. -/
theorem number_ne_malformed {p digits q : Bytes} : number p digits ≠ .error (.malformed q) := by
  unfold number
  split <;> simp

/-- A width is never at fault for the form of the text. -/
theorem readWidth_ne_malformed {p rest q : Bytes} : readWidth p rest ≠ .error (.malformed q) := by
  unfold readWidth
  split
  · simp
  · exact bind_ne_error number_ne_malformed nofun

/-- A precision is never at fault for the form of the text. -/
theorem readPrecision_ne_malformed {p rest q : Bytes} :
    readPrecision p rest ≠ .error (.malformed q) := by
  unfold readPrecision
  split
  · simp
  · split
    · simp
    · refine bind_ne_error number_ne_malformed fun precision => ?_
      split <;> simp

/-- Modifiers are never at fault for the form of the text. -/
theorem ofModifiers_ne_malformed {p modifiers q : Bytes} {verb : Verb} :
    ofModifiers p verb modifiers ≠ .error (.malformed q) := by
  unfold ofModifiers
  refine bind_ne_error readWidth_ne_malformed fun width => ?_
  exact bind_ne_error readPrecision_ne_malformed nofun

/-- What was read as a slot always has the form of a placeholder. -/
theorem parse_slot_ne_malformed {template : Bytes} {slot : Template.Slot}
    (h : slot ∈ Template.slots template) (q : Bytes) :
    parse slot.text ≠ .error (.malformed q) := by
  obtain ⟨modifiers, b, htext, hverb, _⟩ := Template.isSlotText_of_mem_slots h
  obtain ⟨verb, hv⟩ := Option.isSome_iff_exists.mp hverb
  rw [htext, parse_slotText hv]
  exact ofModifiers_ne_malformed

end LeveledLog.Spec
