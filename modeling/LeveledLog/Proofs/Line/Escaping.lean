import LeveledLog.Proofs.Line.Filling

/-!
# Escaped text

Any plain text can be written in a template, with a backslash in front of each byte that would
not be plain by itself. A template that is written from plain texts and slots in turn is read
back as these texts and these slots, whatever stands next to what.
-/

namespace LeveledLog.Template

open Bytes (backslash)
open Spec (percent)

/-- Plain text as it is written in a template. -/
def escape (text : Bytes) : Bytes :=
  text.flatMap fun b => if isEscapable b then [backslash, b] else [b]

/-- Plain text and the slot behind it. -/
structure Section where
  text : Bytes
  slot : Bytes
  isSlotText : IsSlotText slot

/-- A section as it is written in a template. -/
def Section.source (s : Section) : Bytes := escape s.text ++ s.slot

/-- The template of sections, of the plain text behind the last slot, and of a tail. -/
def ofSections (sections : List Section) (last tail : Bytes) : Bytes :=
  sections.flatMap Section.source ++ escape last ++ tail

/-- A tail is empty, or a percent sign without a verb behind it. -/
def IsTail (tail : Bytes) : Prop :=
  tail = [] ∨ ∃ rest, tail = percent :: rest ∧ ∀ b ∈ rest, Verb.isVerb b = false

/-- The plain text of a token. -/
def Token.content : Token → Bytes
  | .text content => content
  | .slot _ => []

/-- The plain text before, between and behind the slots of a template. -/
def plainTexts (template : Bytes) : List Bytes :=
  ((tokens template).splitOnP fun token => token.slot?.isSome).map
    fun run => run.flatMap Token.content

/-! ## Reading byte by byte -/

variable {escaped : Bool} {reversed rest text : Bytes} {b c : UInt8}

/-- A byte that is plain by itself is taken up. -/
theorem piecesFrom_plain (h : isEscapable b = false) :
    piecesFrom (.plain escaped reversed) (b :: rest) =
      piecesFrom (.plain escaped (b :: reversed)) rest := by
  simp only [isEscapable, Bool.or_eq_false_iff] at h
  cases rest with
  | nil => simp only [piecesFrom, h, Bool.false_eq_true, ite_false]
  | cons c rest => simp only [piecesFrom, h, Bool.false_and, Bool.false_eq_true, ite_false]

/-- An escaped byte begins a new run. -/
theorem piecesFrom_escaped (h : isEscapable c = true) :
    piecesFrom (.plain escaped reversed) (backslash :: c :: rest) =
      (Reading.plain escaped reversed).stop ++ piecesFrom (.plain true [c]) rest := by
  simp only [piecesFrom, h, beq_self_eq_true, Bool.and_self, ite_true]

/-- A percent sign opens a slot. -/
theorem piecesFrom_percent :
    piecesFrom (.plain escaped reversed) (percent :: rest) =
      (Reading.plain escaped reversed).stop ++ piecesFrom (.slot [percent]) rest := by
  have hne : (percent == backslash) = false := by decide
  cases rest with
  | nil => simp only [piecesFrom, beq_self_eq_true, ite_true]
  | cons c rest => simp only [piecesFrom, hne, Bool.false_and, Bool.false_eq_true, ite_false,
      beq_self_eq_true, ite_true]

/-- Bytes that are no verbs are taken up by an open slot. -/
theorem piecesFrom_modifiers {modifiers : Bytes}
    (h : ∀ b ∈ modifiers, Verb.isVerb b = false) :
    piecesFrom (.slot reversed) (modifiers ++ rest) =
      piecesFrom (.slot (modifiers.reverse ++ reversed)) rest := by
  induction modifiers generalizing reversed with
  | nil => rfl
  | cons b modifiers ih =>
    obtain ⟨hb, hmod⟩ := List.forall_mem_cons.mp h
    rw [List.cons_append, piecesFrom, hb, if_neg Bool.false_ne_true, ih hmod,
      List.reverse_cons, List.append_assoc, List.singleton_append]

/-- The text of a slot is read as that slot. -/
theorem piecesFrom_slotText (h : IsSlotText text) :
    piecesFrom (.plain escaped reversed) (text ++ rest) =
      (Reading.plain escaped reversed).stop ++ .slot text :: pieces rest := by
  obtain ⟨modifiers, verb, rfl, hverb, hmod⟩ := h
  have hclose : piecesFrom (.slot [percent]) (modifiers ++ verb :: rest) =
      .slot (percent :: modifiers ++ [verb]) :: pieces rest := by
    rw [piecesFrom_modifiers hmod, piecesFrom, if_pos hverb, pieces, List.reverse_cons,
      List.reverse_append, List.reverse_reverse, List.reverse_singleton, List.singleton_append]
  rw [List.append_assoc, List.cons_append, piecesFrom_percent, List.singleton_append, hclose]

/-! ## Runs of plain text -/

/-- Pieces are all plain, and a text is what they say. -/
def Spells (ps : List Piece) (text : Bytes) : Prop :=
  ∃ runs : List (Bool × Bytes), ps = runs.map (fun run => .plain run.1 run.2) ∧
    text = runs.flatMap Prod.snd

theorem Spells.append {ps qs : List Piece} {text' : Bytes} (h : Spells ps text)
    (h' : Spells qs text') : Spells (ps ++ qs) (text ++ text') := by
  obtain ⟨runs, rfl, rfl⟩ := h
  obtain ⟨runs', rfl, rfl⟩ := h'
  exact ⟨runs ++ runs', by rw [List.map_append], by rw [List.flatMap_append]⟩

/-- What breaks off is plain text. -/
theorem spells_stop_plain (escaped : Bool) (reversed : Bytes) :
    Spells (Reading.plain escaped reversed).stop reversed.reverse := by
  cases reversed with
  | nil => exact ⟨[], rfl, rfl⟩
  | cons b reversed => exact ⟨[(escaped, (b :: reversed).reverse)], rfl, by simp⟩

/-- An escaped text is read as what it stands for, behind what was read before. -/
theorem piecesFrom_escape (text : Bytes) (escaped : Bool) (reversed rest : Bytes) :
    ∃ ps escaped' reversed', piecesFrom (.plain escaped reversed) (escape text ++ rest) =
      ps ++ piecesFrom (.plain escaped' reversed') rest ∧
      ∃ done, Spells ps done ∧ done ++ reversed'.reverse = reversed.reverse ++ text := by
  induction text generalizing escaped reversed with
  | nil => exact ⟨[], escaped, reversed, rfl, [], ⟨[], rfl, rfl⟩, by simp⟩
  | cons b text ih =>
    cases hb : isEscapable b with
    | false =>
      obtain ⟨ps, escaped', reversed', hread, done, hdone, htext⟩ := ih escaped (b :: reversed)
      refine ⟨ps, escaped', reversed', ?_, done, hdone, by simpa using htext⟩
      rw [← hread, escape, List.flatMap_cons, hb, if_neg Bool.false_ne_true]
      exact piecesFrom_plain hb
    | true =>
      obtain ⟨ps, escaped', reversed', hread, done, hdone, htext⟩ := ih true [b]
      refine ⟨_ ++ ps, escaped', reversed', ?_, _,
        (spells_stop_plain escaped reversed).append hdone, by simpa using htext⟩
      rw [List.append_assoc, ← hread, escape, List.flatMap_cons, hb, if_pos rfl]
      exact piecesFrom_escaped hb

/-- A section is read as its text and its slot, and the reading starts anew behind it. -/
theorem pieces_section (s : Section) (rest : Bytes) :
    ∃ ps, pieces (s.source ++ rest) = ps ++ .slot s.slot :: pieces rest ∧ Spells ps s.text := by
  obtain ⟨ps, escaped, reversed, hread, done, hdone, htext⟩ :=
    piecesFrom_escape s.text false [] (s.slot ++ rest)
  have hplain := hdone.append (spells_stop_plain escaped reversed)
  rw [htext, List.reverse_nil, List.nil_append] at hplain
  refine ⟨_, ?_, hplain⟩
  rw [pieces, Section.source, List.append_assoc, hread, piecesFrom_slotText s.isSlotText,
    List.append_assoc]

/-- Plain text with a tail is read as plain text. -/
theorem pieces_escape_tail {tail : Bytes} (text : Bytes) (h : IsTail tail) :
    Spells (pieces (escape text ++ tail)) (text ++ tail) := by
  obtain ⟨ps, escaped, reversed, hread, done, hdone, htext⟩ := piecesFrom_escape text false [] tail
  have hplain := hdone.append (spells_stop_plain escaped reversed)
  rw [htext, List.reverse_nil, List.nil_append] at hplain
  rw [pieces, hread]
  rcases h with rfl | ⟨rest, rfl, hrest⟩
  · simpa only [piecesFrom, List.append_nil] using hplain
  · have hopen : piecesFrom (.slot [percent]) rest = [.plain false (percent :: rest)] := by
      calc piecesFrom (.slot [percent]) rest
          = piecesFrom (.slot [percent]) (rest ++ []) := by rw [List.append_nil]
        _ = (Reading.slot (rest.reverse ++ [percent])).stop := by
          rw [piecesFrom_modifiers hrest, piecesFrom]
        _ = [.plain false (percent :: rest)] := by
          rw [Reading.stop, List.reverse_append, List.reverse_reverse, List.reverse_singleton,
            List.singleton_append]
    rw [piecesFrom_percent, hopen, ← List.append_assoc]
    exact hplain.append ⟨[(false, percent :: rest)], rfl, by simp⟩

/-! ## Tokens -/

/-- Plain pieces become plain tokens, and what follows them is numbered as before. -/
theorem locate_spells {ps : List Piece} (h : Spells ps text) (offset ordinal : Nat)
    (qs : List Piece) : ∃ run later, locate offset ordinal (ps ++ qs) =
      run ++ locate later ordinal qs ∧ (∀ token ∈ run, token.slot? = none) ∧
      run.flatMap Token.content = text := by
  obtain ⟨runs, rfl, rfl⟩ := h
  induction runs generalizing offset with
  | nil => exact ⟨[], offset, rfl, by simp, rfl⟩
  | cons run runs ih =>
    obtain ⟨tokens, later, hlocate, hplain, hcontent⟩ :=
      ih (offset + (Piece.plain run.1 run.2).source.length)
    refine ⟨.text run.2 :: tokens, later, ?_, ?_, ?_⟩
    · rw [List.map_cons, List.cons_append, locate, hlocate, List.cons_append]
    · intro token hmem
      rcases List.mem_cons.mp hmem with rfl | hmem
      · rfl
      · exact hplain token hmem
    · rw [List.flatMap_cons, List.flatMap_cons, hcontent, Token.content]

/-- Escaped text with a tail has no slots, and its tokens say what it stands for. -/
theorem locate_escape_tail (text : Bytes) {tail : Bytes} (h : IsTail tail)
    (offset ordinal : Nat) :
    (∀ token ∈ locate offset ordinal (pieces (escape text ++ tail)), token.slot? = none) ∧
      (locate offset ordinal (pieces (escape text ++ tail))).flatMap Token.content =
        text ++ tail := by
  obtain ⟨run, _, hlocate, hplain, hcontent⟩ :=
    locate_spells (pieces_escape_tail text h) offset ordinal []
  rw [List.append_nil, locate, List.append_nil] at hlocate
  rw [hlocate]
  exact ⟨hplain, hcontent⟩

/-- A token without a slot does not end a run. -/
private theorem not_isSome_of_plain {ts : List Token} (h : ∀ token ∈ ts, token.slot? = none) :
    ∀ token ∈ ts, token.slot?.isSome = false := by
  intro token hmem
  rw [h token hmem, Option.isSome_none]

/-- The tokens of a template, wherever they are counted from, are what it was written from. -/
theorem locate_ofSections (sections : List Section) (last : Bytes) {tail : Bytes}
    (h : IsTail tail) (offset ordinal : Nat) :
    ((locate offset ordinal (pieces (ofSections sections last tail))).splitOnP
        fun token => token.slot?.isSome).map (fun run => run.flatMap Token.content) =
      sections.map Section.text ++ [last ++ tail] ∧
    ((locate offset ordinal (pieces (ofSections sections last tail))).filterMap
      Token.slot?).map Slot.text = sections.map Section.slot := by
  induction sections generalizing offset ordinal with
  | nil =>
    obtain ⟨hplain, hcontent⟩ := locate_escape_tail last h offset ordinal
    rw [ofSections, List.flatMap_nil, List.nil_append,
      List.splitOnP_eq_singleton (not_isSome_of_plain hplain), List.map_singleton, hcontent,
      List.filterMap_eq_nil_iff.mpr hplain]
    exact ⟨rfl, rfl⟩
  | cons s sections ih =>
    obtain ⟨ps, hpieces, hspells⟩ := pieces_section s (ofSections sections last tail)
    obtain ⟨run, later, hlocate, hplain, hcontent⟩ :=
      locate_spells hspells offset ordinal (.slot s.slot :: pieces (ofSections sections last tail))
    have htemplate : ofSections (s :: sections) last tail =
        s.source ++ ofSections sections last tail := by
      simp only [ofSections, List.flatMap_cons, List.append_assoc]
    obtain ⟨htexts, hslots⟩ := ih (later + (Piece.slot s.slot).source.length) (ordinal + 1)
    rw [htemplate, hpieces, hlocate, locate,
      List.splitOnP_append_cons_of_forall_mem (not_isSome_of_plain hplain) _ rfl]
    constructor
    · rw [List.map_cons, hcontent, htexts, List.map_cons, List.cons_append]
    · rw [List.filterMap_append, List.filterMap_eq_nil_iff.mpr hplain, List.nil_append,
        List.filterMap_cons, slot?_slot, List.map_cons, hslots, List.map_cons]

/-- A template without slots has the parts that its tokens say, whatever the arguments. -/
theorem bodyParts_plain {template : Bytes} {arguments : List Argument}
    (h : ∀ token ∈ tokens template, token.slot? = none) :
    Line.bodyParts template arguments = ((tokens template).map Token.content).map .ok := by
  have hparts : ∀ token ∈ tokens template,
      Line.tokenParts arguments token = [.ok token.content] := by
    intro token hmem
    cases token with
    | text content => rfl
    | slot slot => cases h _ hmem
  rw [Line.bodyParts, List.flatMap_congr hparts, List.map_map]
  exact List.map_eq_flatMap.symm

/-- A template that is written from plain texts and slots in turn, with a tail behind them, is
read as exactly these slots, numbered from zero, and its plain text before, between and behind
them is what was written. An escaped message takes no arguments, and it is the body of its own
line. -/
theorem reading_undoes_writing (sections : List Section) (last : Bytes) {tail : Bytes}
    (h : IsTail tail) :
    slotCount (ofSections sections last tail) = sections.length ∧
    (slots (ofSections sections last tail)).map Slot.text = sections.map Section.slot ∧
    (slots (ofSections sections last tail)).map Slot.ordinal = List.range sections.length ∧
    plainTexts (ofSections sections last tail) =
      sections.map Section.text ++ [last ++ tail] ∧
    ∀ message, Line.check (escape message) [] = .ok () ∧
      ∃ texts : List Bytes, Line.bodyParts (escape message) [] = texts.map .ok ∧
        texts.flatten = message := by
  obtain ⟨htexts, hslots⟩ := locate_ofSections sections last h 0 0
  have hcount : slotCount (ofSections sections last tail) = sections.length := by
    have hlength := congrArg List.length hslots
    rw [List.length_map, List.length_map] at hlength
    exact hlength
  refine ⟨hcount, hslots, ?_, htexts, fun message => ?_⟩
  · rw [ordinals_slots, hcount]
  · obtain ⟨hplain, hcontent⟩ := locate_escape_tail message (.inl rfl) 0 0
    rw [List.append_nil] at hplain
    rw [List.append_nil (escape message)] at hcontent
    have hnone : slots (escape message) = [] := List.filterMap_eq_nil_iff.mpr hplain
    refine ⟨Line.check_eq_ok_iff_fits.mpr ⟨?_, ?_⟩, _, bodyParts_plain hplain, ?_⟩
    · rw [slotCount, hnone, List.length_nil, List.length_nil]
    · rw [hnone]
      simp
    · rw [← List.flatMap_def, tokens, hcontent, List.append_nil]

/-- A backslash that is text stands before a slot with backslashes of its own, a slot with a
second percent sign stands right behind it, and at the end a text meets an open slot. -/
theorem reading_undoes_writing_adjacent :
    ∃ sections : List Section, IsTail (utf8 "%5") ∧
      ofSections sections (utf8 "\\") (utf8 "%5") = utf8 "100\\%\\\\%-\\\\5d%%s\\\\%5" ∧
      (slots (utf8 "100\\%\\\\%-\\\\5d%%s\\\\%5")).map Slot.text =
        [utf8 "%-\\\\5d", utf8 "%%s"] ∧
      plainTexts (utf8 "100\\%\\\\%-\\\\5d%%s\\\\%5") =
        [utf8 "100%\\", [], utf8 "\\%5"] := by
  have first : IsSlotText (utf8 "%-\\\\5d") :=
    ⟨utf8 "-\\\\5", 'd'.toUInt8, by decide +kernel, by decide, by decide +kernel⟩
  have second : IsSlotText (utf8 "%%s") :=
    ⟨utf8 "%", 's'.toUInt8, by decide +kernel, by decide, by decide +kernel⟩
  have tail : IsTail (utf8 "%5") := .inr ⟨utf8 "5", by decide +kernel, by decide +kernel⟩
  have source : ofSections [⟨utf8 "100%\\", _, first⟩, ⟨[], _, second⟩] (utf8 "\\") (utf8 "%5") =
      utf8 "100\\%\\\\%-\\\\5d%%s\\\\%5" := by rfl
  obtain ⟨_, htexts, _, hplain, _⟩ := reading_undoes_writing
    [⟨utf8 "100%\\", _, first⟩, ⟨[], _, second⟩] (utf8 "\\") tail
  rw [source] at htexts hplain
  exact ⟨_, tail, source, htexts, hplain⟩

end LeveledLog.Template
