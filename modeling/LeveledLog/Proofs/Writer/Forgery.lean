import LeveledLog.Proofs.Rendering.Character
import LeveledLog.Proofs.Writer.Emission

/-!
# No argument forges a line

A filled template comes out as one line unless a line feed is let in openly: by the plain text
of the template, by a text that is written as it is, or as a character. Every other way to
render an argument keeps line feeds out, so an argument cannot make one line look like two.
-/

namespace LeveledLog

open Bytes (IsClean lineFeed)
open Exchange (allTaken)

/-- An argument lets a line feed in: a text that has one is written plainly, or the number ten
or the byte itself is written as a character. -/
def Argument.LetsLineFeedIn (spec : Spec) : Argument → Prop
  | .string s => (spec.verb = .text ∨ spec.verb = .default ∧ spec.sharp = false) ∧ lineFeed ∈ s
  | .int n => spec.verb = .char ∧ n = 10
  | .uint n => spec.verb = .char ∧ n = 10
  | .char c => (spec.verb = .char ∨ spec.verb = .default ∨ spec.verb = .text) ∧ c = 10
  | _ => False

namespace Rendering

variable {spec : Spec}

/-- Only one code point is written with a line feed. -/
theorem lineFeed_not_mem_encode {cp : Nat} (h : cp ≠ 10) : lineFeed ∉ Utf8.encode cp :=
  fun hmem => h (Utf8.eq_of_mem_encode hmem (by decide))

/-- A whole number is written with a line feed only as the character that has its number. -/
theorem lineFeed_not_mem_whole {w : Word} (h : spec.verb = .char → w.toInt ≠ 10) :
    lineFeed ∉ (whole spec w).bytes := by
  by_cases hchar : spec.verb = .char
  · have hpoint : (codePoint w).toNat ≠ 10 := by
      have hn := h hchar
      rw [toNat_codePoint]
      split
      · omega
      · decide
    have hwhole : whole spec w = plain (Utf8.encode (codePoint w).toNat) := by
      simp only [whole, hchar]
    rw [hwhole, bytes_plain]
    exact lineFeed_not_mem_encode hpoint
  · exact (isClean_whole hchar w).lineFeed_not_mem

/-- A text is written with a line feed only if it has one and is written plainly. -/
theorem lineFeed_not_mem_string {s : Bytes} (haccepts : spec.verb.accepts .string = true)
    (htype : spec.verb ≠ .type) (h : ¬ (Argument.string s).LetsLineFeedIn spec) :
    lineFeed ∉ string spec s := by
  have hcut (hplain : spec.verb = .text ∨ spec.verb = .default ∧ spec.sharp = false) :
      lineFeed ∉ cut spec.precision s := by
    have hs : lineFeed ∉ s := fun hmem => h ⟨hplain, hmem⟩
    cases spec.precision with
    | none => exact hs
    | some n => exact fun hmem => hs (List.take_subset _ _ hmem)
  have hliteral (t : Bytes) : lineFeed ∉ Quoted.literal t :=
    (Quoted.isClean_between (by decide) t).lineFeed_not_mem
  unfold string
  split
  · exact (isClean_hexBytes spec s).lineFeed_not_mem
  · exact (isClean_hexBytes spec s).lineFeed_not_mem
  · extract_lets shown
    split
    case isTrue hraw => exact Quoted.lineFeed_not_mem_raw (Bool.and_eq_true_iff.mp hraw).2
    case isFalse => exact hliteral _
  case h_4 hdefault =>
    extract_lets shown
    split
    case isTrue => exact hliteral _
    case isFalse hsharp => exact hcut (.inr ⟨hdefault, by simpa using hsharp⟩)
  case h_5 hhex hupper hquoted hdefault =>
    have htext : spec.verb = .text := by
      revert haccepts htype hhex hupper hquoted hdefault
      cases spec.verb <;> simp [Verb.accepts]
    exact hcut (.inl htext)

/-- An argument is rendered with a line feed only if it lets one in openly, whatever the flags,
the width and the precision are. -/
theorem lineFeed_not_mem_value {argument : Argument} {text : Bytes}
    (h : value spec argument = .ok text) (hno : ¬ argument.LetsLineFeedIn spec) :
    lineFeed ∉ text := by
  obtain ⟨haccepts, rfl⟩ : spec.verb.accepts argument.kind = true ∧
      (ofArgument spec argument).fit spec = text := by
    unfold value at h
    split at h
    · exact ⟨‹_›, Except.ok.inj h⟩
    · cases h
  have hbytes : lineFeed ∉ (ofArgument spec argument).bytes := by
    unfold ofArgument
    split
    · rw [bytes_plain]
      exact argument.kind.isClean_name.lineFeed_not_mem
    case isFalse htype =>
      cases argument with
      | bool b =>
        have hname : IsClean (plain (utf8 (if b then "true" else "false"))).bytes := by
          cases b <;> decide
        exact hname.lineFeed_not_mem
      | int n =>
        refine lineFeed_not_mem_whole fun hchar hten => hno ⟨hchar, ?_⟩
        exact Int64.toInt_inj.mp hten
      | uint n =>
        refine lineFeed_not_mem_whole fun hchar hten => hno ⟨hchar, ?_⟩
        exact UInt64.toNat_inj.mp (Int.ofNat.inj hten)
      | float x => exact (isClean_real spec x).lineFeed_not_mem
      | char c =>
        have hten (h : c.toNat = 10) : c = 10 := UInt8.toNat_inj.mp h
        dsimp only
        split
        case isTrue hdefault =>
          have hverb : spec.verb = .default ∨ spec.verb = .text := by
            simpa [Verb.isDefault] using hdefault
          rw [bytes_plain]
          exact lineFeed_not_mem_encode fun h => hno ⟨.inr hverb, hten h⟩
        case isFalse =>
          refine lineFeed_not_mem_whole fun hchar h => hno ⟨.inl hchar, hten ?_⟩
          rw [Word.toInt_ofByte] at h
          exact Int.ofNat.inj h
      | string s =>
        dsimp only
        rw [bytes_plain]
        exact lineFeed_not_mem_string haccepts htype hno
      | pointer p => exact (isClean_integer _ _ _ _ _).lineFeed_not_mem
      | duration d =>
        dsimp only
        split
        · rw [bytes_plain]
          exact d.isClean_text.lineFeed_not_mem
        · refine lineFeed_not_mem_whole fun hchar => ?_
          rw [hchar] at haccepts
          cases haccepts
  intro hmem
  rcases mem_fit hmem with hmem | hblank | hzero
  · exact hbytes hmem
  · exact absurd hblank (by decide)
  · exact absurd hzero (by decide)

end Rendering

namespace Line

open Template (Token)

variable {template body : Bytes} {arguments : List Argument}

/-- A body has no line feed when neither the plain text of the template nor an argument in its
slot lets one in. -/
theorem lineFeed_not_mem_body (hbody : Body template arguments body)
    (hplain : ∀ content, .text content ∈ Template.tokens template → lineFeed ∉ content)
    (hslots : ∀ slot ∈ Template.slots template, ∀ spec argument,
      Spec.parse slot.text = .ok spec → arguments[slot.ordinal]? = some argument →
      ¬ argument.LetsLineFeedIn spec) :
    lineFeed ∉ body := by
  obtain ⟨fillings, hfill, rfl⟩ := hbody
  have hslots (slot : Template.Slot) (hslot : .slot slot ∈ Template.tokens template) :=
    hslots slot (Template.mem_slots_iff.mpr hslot)
  generalize Template.tokens template = tokens at hfill hplain hslots
  induction hfill with
  | nil => simp
  | @cons token filling tokens fillings hone _ ih =>
    have hrest : lineFeed ∉ fillings.flatten :=
      ih (fun content hmem => hplain content (List.mem_cons_of_mem _ hmem))
        (fun slot hmem => hslots slot (List.mem_cons_of_mem _ hmem))
    have hfirst : lineFeed ∉ filling := by
      cases hone with
      | text => exact hplain _ (List.mem_cons_self ..)
      | @slot s spec argument value hspec hargument hvalue =>
        have hno := hslots s (List.mem_cons_self ..) spec argument hspec hargument
        intro hmem
        rcases List.mem_append.mp hmem with hmem | hmem
        · exact absurd (List.eq_of_mem_replicate hmem) (by decide)
        · exact Rendering.lineFeed_not_mem_value hvalue hno hmem
    rw [List.flatten_cons, List.mem_append]
    exact not_or.mpr ⟨hfirst, hrest⟩

end Line

namespace Writer

/-- A template that was accepted becomes a line with one line feed, at its end, if no plain text
of it has one and no argument lets one in. This is the line that the writer contributes to the
log, if not a beginning of it or nothing because the destination fails. What lets no line feed
in is every argument except a text with one that is written plainly, and the number ten or the
line feed itself written as a character: no flag, width or precision makes a rendering of any
other one have one. -/
theorem arguments_forge_no_line {b : Buffer} {template : Bytes} {arguments : List Argument}
    (hb : b.Sound) (hcheck : Line.check template arguments = .ok ())
    (hplain : ∀ content, .text content ∈ Template.tokens template → lineFeed ∉ content)
    (hslots : ∀ slot ∈ Template.slots template, ∀ spec argument,
      Spec.parse slot.text = .ok spec → arguments[slot.ordinal]? = some argument →
      ¬ argument.LetsLineFeedIn spec)
    (w : Writer) (now : Instant) (level : Level) :
    (∃ body line, Line.Body template arguments body ∧
      line = Stamp.ofInstant now ++ level.tag ++ body ++ [lineFeed] ∧
      line.count lineFeed = 1 ∧ line.getLast? = some lineFeed ∧
      ∀ es result w',
        ((w.withStream b).writeFormatted (Stamp.ofInstant now) level template arguments).Runs es
          (result, w') →
        ∃ c contribution, w' = w.withStream c ∧ b.Flow contribution (allTaken es) c ∧
          LineOutcome line result contribution) ∧
    ∀ spec argument text, Rendering.value spec argument = .ok text →
      ¬ argument.LetsLineFeedIn spec → lineFeed ∉ text := by
  refine ⟨?_, fun _ _ _ => Rendering.lineFeed_not_mem_value⟩
  obtain ⟨texts, _, ⟨body, hbody, hflat⟩, hwrite⟩ := writeFormatted_fitting
    (Line.check_eq_ok_iff.mp hcheck) w b (Stamp.ofInstant now) level
  have hfront : lineFeed ∉ Stamp.ofInstant now ++ level.tag ++ body := by
    intro hmem
    rcases List.mem_append.mp hmem with hmem | hmem
    · rcases List.mem_append.mp hmem with hmem | hmem
      · exact (Stamp.isClean_ofInstant now).lineFeed_not_mem hmem
      · exact level.isClean_tag.lineFeed_not_mem hmem
    · exact Line.lineFeed_not_mem_body hbody hplain hslots hmem
  refine ⟨body, _, hbody, rfl, ?_, List.getLast?_concat .., ?_⟩
  · rw [List.count_append, List.count_eq_zero_of_not_mem hfront, List.count_singleton_self]
  · intro es result w' h
    rw [hwrite] at h
    obtain ⟨c, contribution, hw, _, hflow, _, _, houtcome⟩ := emit_outcome hb h
    rw [hflat] at houtcome
    exact ⟨c, contribution, hw, hflow, houtcome⟩

/-- A quoted text that holds a line of its own, and the line feed as a number: both stay on the
line that they are written to. -/
theorem arguments_forge_no_line_quoted :
    ∃ (template : Bytes) (arguments : List Argument),
      arguments = [.string (utf8 "a\n1970 [INFO] b"), .char 10] ∧
      Line.check template arguments = .ok () ∧
      ∃ body line, Line.Body template arguments body ∧
        line = Stamp.ofInstant 0 ++ Level.info.tag ++ body ++ [lineFeed] ∧
        line.count lineFeed = 1 := by
  have hcheck : Line.check (utf8 "from %q: %x")
      [.string (utf8 "a\n1970 [INFO] b"), .char 10] = .ok () := by decide
  have htokens : Template.tokens (utf8 "from %q: %x") = [.text (utf8 "from "),
      .slot ⟨utf8 "%q", 5, 0⟩, .text (utf8 ": "), .slot ⟨utf8 "%x", 9, 1⟩] := by decide
  have hquoted : Spec.parse (utf8 "%q") = .ok { verb := .quoted } := by decide
  have hhex : Spec.parse (utf8 "%x") = .ok { verb := .hex } := by decide
  have hsound : (Buffer.empty ⟨0, []⟩ 8).Sound := .empty (by decide)
  obtain ⟨⟨body, line, hbody, hline, hcount, _⟩, _⟩ := arguments_forge_no_line hsound hcheck
    (by
      intro content hmem
      rw [htokens] at hmem
      simp only [List.mem_cons, Template.Token.text.injEq, reduceCtorEq, false_or,
        List.not_mem_nil, or_false] at hmem
      rcases hmem with rfl | rfl <;> decide)
    (by
      intro slot hmem spec argument hspec hargument
      rw [Template.slots, htokens] at hmem
      simp only [List.filterMap, Template.Token.slot?, List.mem_cons, List.not_mem_nil,
        or_false] at hmem
      rcases hmem with rfl | rfl
      · obtain rfl := Except.ok.inj (hquoted.symm.trans hspec)
        obtain rfl := Option.some.inj hargument
        simp [Argument.LetsLineFeedIn]
      · obtain rfl := Except.ok.inj (hhex.symm.trans hspec)
        obtain rfl := Option.some.inj hargument
        simp [Argument.LetsLineFeedIn])
    ⟨.debug, 8, none⟩ 0 .info
  exact ⟨_, _, rfl, hcheck, body, line, hbody, hline, hcount⟩

end Writer

end LeveledLog
