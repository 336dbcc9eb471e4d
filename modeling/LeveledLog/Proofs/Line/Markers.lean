import LeveledLog.Proofs.Format.Grammar
import LeveledLog.Proofs.Line.Filling

/-!
# Backslashes in front of values

A slot writes one backslash for every second one of its own, and only then the value that it would
have without any of them. Two backslashes that stand side by side make one in this way. So do two
that are each left over from a run of their own, with modifiers between them.
-/

namespace LeveledLog.Template

open Bytes (backslash)
open Spec (percent)

/-- The maximal runs of backslashes in a text, with an empty one between other bytes. -/
def backslashRuns (text : Bytes) : List Bytes := text.splitOnP fun b => b != backslash

/-- The number of pairs of adjacent backslashes, none of which is in two pairs. -/
def pairs (text : Bytes) : Nat := ((backslashRuns text).map fun run => run.length / 2).sum

/-- The number of runs in which a backslash is left without a partner. -/
def leftovers (text : Bytes) : Nat := (backslashRuns text).countP fun run => run.length % 2 = 1

/-- A text without its backslashes. -/
def withoutBackslashes (text : Bytes) : Bytes := text.filter fun b => b != backslash

/-- Every backslash is in one run. -/
theorem sum_length_backslashRuns (text : Bytes) :
    ((backslashRuns text).map List.length).sum = text.count backslash := by
  induction text with
  | nil => rfl
  | cons b text ih =>
    unfold backslashRuns at *
    rw [List.splitOnP_cons_eq_if_modifyHead, List.count_cons]
    by_cases hb : b = backslash
    · obtain ⟨run, runs, hruns⟩ := List.exists_cons_of_ne_nil
        (List.splitOnP_ne_nil (fun b => b != backslash) text)
      rw [hruns, List.map_cons, List.sum_cons] at ih
      rw [hruns, if_neg (by simp [hb]), if_pos (by simp [hb]), List.modifyHead_cons,
        List.map_cons, List.sum_cons, List.length_cons, ← ih]
      omega
    · rw [if_pos (by simp [hb]), if_neg (by simp [hb]), List.map_cons, List.sum_cons, ih]
      simp

/-- The backslashes of a text are its pairs and what is left over from its runs. -/
theorem count_backslash (text : Bytes) :
    text.count backslash = 2 * pairs text + leftovers text := by
  rw [← sum_length_backslashRuns, pairs, leftovers]
  induction backslashRuns text with
  | nil => rfl
  | cons run runs ih =>
    have hrun := Nat.div_add_mod run.length 2
    rw [List.map_cons, List.sum_cons, List.map_cons, List.sum_cons, List.countP_cons, ih]
    rcases Nat.mod_two_eq_zero_or_one run.length with hparity | hparity
    · simp only [hparity, Nat.zero_ne_one, decide_false, Bool.false_eq_true, if_false]
      omega
    · simp only [hparity, decide_true, if_true]
      omega

/-- A slot that means something means the same without its backslashes. -/
theorem parse_withoutBackslashes {text : Bytes} {spec : Spec} (h : Spec.parse text = .ok spec) :
    Spec.parse (withoutBackslashes text) = .ok spec := by
  have hpercent : (percent != backslash) = true := by decide
  have hverb (v : Verb) : (v.byte != backslash) = true := by cases v <;> decide
  obtain ⟨q, hq, ⟨modifiers, rfl, hmodifiers⟩, hmeaning⟩ := Spec.parse_eq_ok_iff.mp h
  refine Spec.parse_eq_ok_iff.mpr ⟨q, hq, ⟨withoutBackslashes modifiers, ?_, ?_⟩, hmeaning⟩
  · simp only [withoutBackslashes, List.cons_append, List.filter_cons, List.filter_append,
      List.filter_nil, hpercent, hverb, if_true]
  · rw [withoutBackslashes, List.filter_filter]
    simpa only [Bool.and_self] using hmodifiers

end LeveledLog.Template

namespace LeveledLog.Line

open Bytes (backslash)
open Template (Slot Token pairs leftovers withoutBackslashes)

variable {arguments : List Argument}

theorem textOf_append (parts more : List (Except FormatFault Bytes)) :
    textOf (parts ++ more) = textOf parts ++ textOf more := List.flatMap_append

/-- What a slot that fits contributes to a line are its backslashes and its value. -/
theorem textOf_slot {slot : Slot} {value : Bytes} (h : slotValue arguments slot = .ok value) :
    textOf (tokenParts arguments (.slot slot)) =
      List.replicate slot.markers backslash ++ value := by
  have hmarkers (n : Nat) :
      textOf (List.replicate n (.ok [backslash])) = List.replicate n backslash := by
    induction n with
    | zero => rfl
    | succ n ih =>
      rw [List.replicate_succ, List.replicate_succ, ← ih]
      rfl
  have hvalue : textOf [.ok value] = value := List.append_nil value
  rw [tokenParts, h, textOf_append, hmarkers, hvalue]

/-- A slot has one marker for each pair of adjacent backslashes, and one more for every second
run that leaves a backslash over. In a line that is made from the template, exactly as many
backslashes stand between what the tokens before the slot contribute and the value of the slot, and
the value is that of the slot without its backslashes. -/
theorem markers_before_value (template : Bytes) :
    (∀ slot ∈ Template.slots template,
      slot.markers = pairs slot.text + leftovers slot.text / 2) ∧
    ∀ arguments, check template arguments = .ok () →
      (∀ part ∈ bodyParts template arguments, ∃ text, part = .ok text) ∧
      ∀ (before : List Token) (slot : Slot) (after : List Token),
        Template.tokens template = before ++ .slot slot :: after →
        ∃ spec argument value, Spec.parse (withoutBackslashes slot.text) = .ok spec ∧
          arguments[slot.ordinal]? = some argument ∧
          Rendering.value spec argument = .ok value ∧
          textOf (bodyParts template arguments) =
            textOf (before.flatMap (tokenParts arguments)) ++
              (List.replicate slot.markers backslash ++ value) ++
              textOf (after.flatMap (tokenParts arguments)) := by
  refine ⟨fun slot _ => ?_, fun arguments h => ⟨?_, ?_⟩⟩
  · have hcount := Template.count_backslash slot.text
    rw [Slot.markers]
    omega
  · obtain ⟨texts, htexts, _⟩ := bodyParts_made h
    rw [htexts]
    intro part hpart
    obtain ⟨text, _, rfl⟩ := List.mem_map.mp hpart
    exact ⟨text, rfl⟩
  · intro before slot after hsplit
    have hslot : slot ∈ Template.slots template := by
      rw [Template.mem_slots_iff, hsplit]
      simp
    obtain ⟨spec, argument, value, hspec, hargument, hvalue⟩ :=
      ((check_eq_ok_iff_fits.mp h).2 slot hslot).rendered
    have hslotValue : slotValue arguments slot = .ok value := by
      simp only [slotValue, hspec, hargument]
      exact hvalue
    refine ⟨spec, argument, value, Template.parse_withoutBackslashes hspec, hargument, hvalue, ?_⟩
    rw [bodyParts, hsplit, List.flatMap_append, List.flatMap_cons, textOf_append, textOf_append,
      textOf_slot hslotValue, ← List.append_assoc]

/-- Of three backslashes in a slot two are a pair. One backslash stands in front of the number,
which is filled up with zeros. -/
theorem markers_before_value_pair :
    Template.slots (utf8 "a%\\\\0\\4xb") = [⟨utf8 "%\\\\0\\4x", 1, 0⟩] ∧
    check (utf8 "a%\\\\0\\4xb") [.int 42] = .ok () ∧
    pairs (utf8 "%\\\\0\\4x") = 1 ∧ leftovers (utf8 "%\\\\0\\4x") = 1 ∧
    textOf (bodyParts (utf8 "a%\\\\0\\4xb") [.int 42]) = utf8 "a\\002ab" := by
  have hslots : Template.slots (utf8 "a%\\\\0\\4xb") = [⟨utf8 "%\\\\0\\4x", 1, 0⟩] := by
    decide +kernel
  have hcheck : check (utf8 "a%\\\\0\\4xb") [.int 42] = .ok () := by decide +kernel
  have hpairs : pairs (utf8 "%\\\\0\\4x") = 1 := by decide +kernel
  have hleftovers : leftovers (utf8 "%\\\\0\\4x") = 1 := by decide +kernel
  obtain ⟨hmarkers, hbody⟩ := markers_before_value (utf8 "a%\\\\0\\4xb")
  obtain ⟨spec, argument, value, hspec, hargument, hvalue, htext⟩ :=
    (hbody [.int 42] hcheck).2 [.text (utf8 "a")] ⟨utf8 "%\\\\0\\4x", 1, 0⟩ [.text (utf8 "b")]
      (by decide +kernel)
  have hone := hmarkers ⟨utf8 "%\\\\0\\4x", 1, 0⟩ (by simp [hslots])
  have hplain : Spec.parse (withoutBackslashes (utf8 "%\\\\0\\4x")) =
      .ok { verb := .hex, zero := true, width := some 4 } := by decide +kernel
  obtain rfl := Except.ok.inj (hspec.symm.trans hplain)
  obtain rfl := Option.some.inj hargument
  have hrendered : Rendering.value { verb := .hex, zero := true, width := some 4 } (.int 42) =
      .ok (utf8 "002a") := by decide +kernel
  obtain rfl := Except.ok.inj (hvalue.symm.trans hrendered)
  rw [hpairs, hleftovers] at hone
  rw [hone] at htext
  exact ⟨hslots, hcheck, hpairs, hleftovers, htext⟩

/-- Two backslashes with a digit between them are no pair, and make a marker. -/
theorem marker_of_separated_backslashes :
    Template.slots (utf8 "%\\5\\d") = [⟨utf8 "%\\5\\d", 0, 0⟩] ∧
      pairs (utf8 "%\\5\\d") = 0 ∧ (⟨utf8 "%\\5\\d", 0, 0⟩ : Slot).markers = 1 := by
  decide +kernel

end LeveledLog.Line
