import LeveledLog.Command.Options
import LeveledLog.Proofs.Numeral

/-!
# What the arguments of the command mean

Arguments are read as choices, one behind the other, until they end, ask for help or make no sense.
The last choice of each kind counts. A port is read from the front of its text, so that white
space and a sign in front of it and any text behind it are overlooked.
-/

namespace LeveledLog.Command

open Numeral (IsInteger isDigit value)

/-- A choice that arguments make, with the value as it is given. -/
inductive Choice where
  | path (given : Bytes)
  | endpoint (given host : Bytes) (port : Nat)
  | level (given : Bytes) (chosen : Level)
  | flush
  deriving DecidableEq, Repr

/-- A text is the number of a port: digits and nothing else. -/
def IsPort (s : Bytes) (n : Nat) : Prop :=
  s ≠ [] ∧ (∀ b ∈ s, isDigit b = true) ∧ value s = n ∧ 1 ≤ n ∧ n ≤ 65535

/-- The number of a port stands at the front of a text, behind white space and a plus sign or
none. -/
def BeginsWithPort (s : Bytes) (n : Nat) : Prop :=
  ∃ front rest spaces sign digits, s = front ++ rest ∧ IsInteger front spaces sign digits ∧
    sign ≠ utf8 "-" ∧ (∀ b ∈ rest.head?, isDigit b = false) ∧ value digits = n ∧
    1 ≤ n ∧ n ≤ 65535

/-- A text is a host and the text of a port, on the two sides of its last colon. -/
def IsEndpoint (s host port : Bytes) : Prop :=
  s = host ++ ':'.toUInt8 :: port ∧ ':'.toUInt8 ∉ port ∧ host ≠ [] ∧ port ≠ []

/-- A text is a name of a level, in letters of any case. -/
def NamesLevel (s : Bytes) (level : Level) : Prop :=
  (level ∈ Level.all ∧ s.map Bytes.upperByte = level.name) ∨
    (level = .warn ∧ s.map Bytes.upperByte = utf8 "WARNING")

namespace Choice

/-- The arguments that make a choice. -/
def written : Choice → List Bytes
  | path given => [utf8 "--file", given]
  | endpoint given _ _ => [utf8 "--tcp", given]
  | level given _ => [utf8 "--level", given]
  | flush => [utf8 "--flush-each-line"]

/-- The value that is given means what the choice says. -/
def MakesSense : Choice → Prop
  | path _ => True
  | endpoint given host port => ∃ text, IsEndpoint given host text ∧ BeginsWithPort text port
  | level given chosen => NamesLevel given chosen
  | flush => True

/-- The path that is chosen. -/
def path? : Choice → Option Bytes
  | path given => some given
  | _ => none

/-- The host and the port that are chosen. -/
def endpoint? : Choice → Option (Bytes × Nat)
  | endpoint _ host port => some (host, port)
  | _ => none

/-- The level that is chosen. -/
def level? : Choice → Option Level
  | level _ chosen => some chosen
  | _ => none

end Choice

/-- The arguments of choices, one behind the other. -/
def written (choices : List Choice) : List Bytes := choices.flatMap Choice.written

/-- The last value that choices give, or the one that counts without any. -/
def lastOf {α : Type} (choices : List Choice) (value? : Choice → Option α) (otherwise : α) : α :=
  (choices.filterMap value?).getLast?.getD otherwise

/-- The options that choices come to: the last one of each kind. -/
def Options.ofChoices (choices : List Choice) : Options where
  path := lastOf choices Choice.path? []
  host := (lastOf choices Choice.endpoint? ([], 0)).1
  port := (lastOf choices Choice.endpoint? ([], 0)).2
  level := lastOf choices Choice.level? .info
  flushEachLine := decide (.flush ∈ choices)

/-- Arguments begin with one that makes no sense, by itself or with the value behind it. -/
inductive Offends : List Bytes → OptionFault → Prop
  /-- The argument is no option, or one that lacks its value. -/
  | unknown {argument : Bytes} {more : List Bytes}
      (hplain : argument ∉ [utf8 "--help", utf8 "-h", utf8 "--flush-each-line"])
      (hvalue : argument ∈ [utf8 "--file", utf8 "--tcp", utf8 "--level"] → more = []) :
      Offends (argument :: more) (.unknownArgument argument)
  | form {given : Bytes} {more : List Bytes} (h : ∀ host text, ¬ IsEndpoint given host text) :
      Offends (utf8 "--tcp" :: given :: more) (.endpointForm given)
  | port {given host text : Bytes} {more : List Bytes} (h : IsEndpoint given host text)
      (hport : ∀ n, ¬ BeginsWithPort text n) :
      Offends (utf8 "--tcp" :: given :: more) (.invalidPort given)
  | level {given : Bytes} {more : List Bytes} (h : ∀ level, ¬ NamesLevel given level) :
      Offends (utf8 "--level" :: given :: more) (.unknownLevel given)

/-- What arguments come to: choices that make sense, and what ends them. -/
inductive ComesTo : List Bytes → Invocation → Prop
  | help {choices : List Choice} {argument : Bytes} (more : List Bytes)
      (hsense : ∀ c ∈ choices, c.MakesSense) (h : argument ∈ [utf8 "--help", utf8 "-h"]) :
      ComesTo (written choices ++ argument :: more) .help
  | offence {choices : List Choice} {rest : List Bytes} {fault : OptionFault}
      (hsense : ∀ c ∈ choices, c.MakesSense) (h : Offends rest fault) :
      ComesTo (written choices ++ rest) (.refuse fault)
  | exclusive {choices : List Choice} (hsense : ∀ c ∈ choices, c.MakesSense)
      (hpath : (Options.ofChoices choices).path ≠ [])
      (hhost : (Options.ofChoices choices).host ≠ []) :
      ComesTo (written choices) (.refuse .exclusive)
  | work {choices : List Choice} (hsense : ∀ c ∈ choices, c.MakesSense)
      (h : (Options.ofChoices choices).path = [] ∨ (Options.ofChoices choices).host = []) :
      ComesTo (written choices) (.work (.ofChoices choices))

/-! ## Values of options -/

variable {s host text : Bytes} {n : Nat} {level : Level}

theorem IsPort.beginsWithPort (h : IsPort s n) : BeginsWithPort s n := by
  obtain ⟨hne, hdigits, hvalue, hrange⟩ := h
  refine ⟨s, [], [], [], s, (List.append_nil s).symm, ?_, by decide, by simp, hvalue, hrange⟩
  exact ⟨rfl, by simp, .inl rfl, hne, hdigits⟩

/-- A port is read from the front of a text. -/
theorem port?_eq_some_iff : port? s = some n ↔ BeginsWithPort s n := by
  constructor
  · intro h
    unfold port? at h
    split at h
    case h_1 magnitude rest hread =>
      obtain ⟨front, spaces, sign, digits, htext, hinteger, hrest⟩ :=
        Numeral.exists_isInteger_append hread
      have hsame := Option.some.inj
        ((hinteger.leading?_append hrest).symm.trans (htext ▸ hread))
      obtain ⟨hsign, hvalue, _⟩ := Numeral.Leading.mk.inj hsame
      rw [Option.ite_none_right_eq_some] at h
      obtain ⟨⟨hpos, hmax⟩, hn⟩ := h
      obtain rfl := Option.some.inj hn
      exact ⟨front, rest, spaces, sign, digits, htext, hinteger, of_decide_eq_false hsign, hrest,
        hvalue, hpos, hmax⟩
    case h_2 => cases h
  · rintro ⟨front, rest, spaces, sign, digits, rfl, hinteger, hsign, hrest, rfl, hpos, hmax⟩
    rw [port?, hinteger.leading?_append hrest, decide_eq_false hsign]
    exact if_pos ⟨hpos, hmax⟩

/-- A text is split at the colon behind which there is none. -/
theorem splitLastColon_eq_some_iff : splitLastColon s = some (host, text) ↔
    s = host ++ ':'.toUInt8 :: text ∧ ':'.toUInt8 ∉ text := by
  have hbefore {t : Bytes} (h : ':'.toUInt8 ∉ t) : ∀ b ∈ t.reverse, (b != colon) = true := by
    intro b hb
    have hmem : b ∈ t := List.mem_reverse.mp hb
    refine bne_iff_ne.mpr fun hcolon => h ?_
    rwa [hcolon] at hmem
  rw [splitLastColon, List.span_eq_takeWhile_dropWhile]
  constructor
  · intro h
    split at h
    case h_1 after b before hspan =>
      obtain ⟨htake, hdrop⟩ := Prod.mk.inj hspan
      obtain ⟨rfl, rfl⟩ := Prod.mk.inj (Option.some.inj h)
      have hb : b = ':'.toUInt8 := by
        have hhead := List.head?_dropWhile_not (fun b => b != colon) s.reverse
        rw [hdrop] at hhead
        simpa [colon] using hhead
      have hsplit := List.takeWhile_append_dropWhile (p := (· != colon)) (l := s.reverse)
      rw [htake, hdrop, hb] at hsplit
      refine ⟨?_, fun hmem => ?_⟩
      · rw [← List.reverse_reverse s, ← hsplit, List.reverse_append, List.reverse_cons,
          List.append_assoc, List.singleton_append]
      · rw [List.mem_reverse, ← htake] at hmem
        exact absurd (List.mem_takeWhile_imp hmem) (by decide)
    case h_2 => cases h
  · rintro ⟨rfl, hnone⟩
    have hrev : (host ++ ':'.toUInt8 :: text).reverse = text.reverse ++ colon :: host.reverse := by
      rw [List.reverse_append, List.reverse_cons, List.append_assoc, List.singleton_append]
      rfl
    rw [hrev, List.takeWhile_append_of_pos (hbefore hnone),
      List.dropWhile_append_of_pos (hbefore hnone), List.takeWhile_cons_of_neg (by simp),
      List.dropWhile_cons_of_neg (by simp)]
    simp only [List.append_nil, List.reverse_reverse]

/-- An endpoint is read by the port at the front of its second text. -/
theorem endpoint_of_isEndpoint (h : IsEndpoint s host text) : endpoint s =
    match port? text with
    | none => .error (.invalidPort s)
    | some port => .ok (host, port) := by
  obtain ⟨hsplit, hnone, hhost, htext⟩ := h
  have hgiven : (host.isEmpty || text.isEmpty) = false := by
    rw [List.isEmpty_eq_false_iff.mpr hhost, List.isEmpty_eq_false_iff.mpr htext, Bool.or_self]
  simp only [endpoint, splitLastColon_eq_some_iff.mpr ⟨hsplit, hnone⟩, hgiven]
  rfl

theorem endpoint_of_form (h : ∀ host text, ¬ IsEndpoint s host text) :
    endpoint s = .error (.endpointForm s) := by
  unfold endpoint
  split
  case h_1 => rfl
  case h_2 host text hsplit =>
    obtain ⟨hsplit, hnone⟩ := splitLastColon_eq_some_iff.mp hsplit
    refine if_pos ?_
    by_contra hgiven
    rw [Bool.or_eq_true, List.isEmpty_iff, List.isEmpty_iff, not_or] at hgiven
    exact h host text ⟨hsplit, hnone, hgiven⟩

/-- Every name is that of one level only. -/
theorem ofName?_eq_some_iff : Level.ofName? s = some level ↔ NamesLevel s level := by
  have hwarning : ∀ l ∈ Level.all, l.name ≠ utf8 "WARNING" := by decide
  have hinj : ∀ l ∈ Level.all, ∀ m ∈ Level.all, l.name = m.name → l = m := by decide
  have hsame {name : Bytes} (h : name.map Bytes.upperByte = name) :
      Bytes.sameLetters s name = true ↔ s.map Bytes.upperByte = name := by
    rw [Bytes.sameLetters, h, beq_iff_eq]
  have hname : ∀ l ∈ Level.all, l.name.map Bytes.upperByte = l.name := by decide
  rw [Level.ofName?, NamesLevel]
  cases hfind : Level.all.find? fun l => Bytes.sameLetters s l.name with
  | some l =>
    have hl := List.mem_of_find?_eq_some hfind
    have hfound := @List.find?_some _ (fun l : Level => Bytes.sameLetters s l.name) _ _ hfind
    have hs := (hsame (hname l hl)).mp hfound
    constructor
    · intro h
      obtain rfl := Option.some.inj h
      exact .inl ⟨hl, hs⟩
    · rintro (⟨hlevel, hgiven⟩ | ⟨_, hgiven⟩)
      · exact congrArg some (hinj l hl level hlevel (hs.symm.trans hgiven))
      · exact absurd (hs.symm.trans hgiven) (hwarning l hl)
  | none =>
    have hnone := List.find?_eq_none.mp hfind
    have hwarn := @hsame (utf8 "WARNING") (by decide)
    simp only [Option.ite_none_right_eq_some, hwarn]
    constructor
    · rintro ⟨hgiven, hlevel⟩
      exact .inr ⟨(Option.some.inj hlevel).symm, hgiven⟩
    · rintro (⟨hlevel, hgiven⟩ | ⟨rfl, hgiven⟩)
      · exact absurd ((hsame (hname level hlevel)).mpr hgiven) (hnone level hlevel)
      · exact ⟨hgiven, rfl⟩

/-! ## One step -/

variable {o o' : Options} {arguments rest : List Bytes} {argument given : Bytes}
  {fault : OptionFault}

/-- The options with a choice taken up. -/
def Options.choose (o : Options) : Choice → Options
  | .path given => { o with path := given }
  | .endpoint _ host port => { o with host, port }
  | .level _ chosen => { o with level := chosen }
  | .flush => { o with flushEachLine := true }

theorem withValue?_tcp (o : Options) (given : Bytes) : withValue? o (utf8 "--tcp") given =
    some ((endpoint given).map fun p => { o with host := p.1, port := p.2 }) := rfl

theorem withValue?_level (o : Options) (given : Bytes) : withValue? o (utf8 "--level") given =
    some ((Level.ofName? given).elim (.error (.unknownLevel given))
      fun chosen => .ok { o with level := chosen }) := by
  have hfile : (utf8 "--level" == utf8 "--file") = false := by decide
  have htcp : (utf8 "--level" == utf8 "--tcp") = false := by decide
  simp only [withValue?, hfile, htcp, beq_self_eq_true, Bool.false_eq_true, if_false, if_true]
  cases Level.ofName? given <;> rfl

theorem readFrom_of_value (hhelp : isHelp argument = false)
    (h : withValue? o argument given = some (.ok o')) :
    readFrom o (argument :: given :: rest) = readFrom o' rest := by
  simp only [readFrom, hhelp, h, Bool.false_eq_true, if_false]

theorem readFrom_of_fault (hhelp : isHelp argument = false)
    (h : withValue? o argument given = some (.error fault)) :
    readFrom o (argument :: given :: rest) = .refuse fault := by
  simp only [readFrom, hhelp, h, Bool.false_eq_true, if_false]

/-- A choice that makes sense is taken up, and the arguments behind it are read. -/
theorem readFrom_written {c : Choice} (h : c.MakesSense) (o : Options) (rest : List Bytes) :
    readFrom o (c.written ++ rest) = readFrom (o.choose c) rest := by
  cases c with
  | path given => rfl
  | flush => cases rest <;> rfl
  | level given chosen =>
    refine readFrom_of_value (by decide) ?_
    rw [withValue?_level, ofName?_eq_some_iff.mpr h]
    rfl
  | endpoint given host port =>
    obtain ⟨text, hendpoint, hport⟩ := h
    refine readFrom_of_value (by decide) ?_
    rw [withValue?_tcp, endpoint_of_isEndpoint hendpoint, port?_eq_some_iff.mpr hport]
    rfl

/-- An argument that makes no sense is refused. -/
theorem readFrom_of_offends (h : Offends arguments fault) (o : Options) :
    readFrom o arguments = .refuse fault := by
  cases h with
  | @unknown argument more hplain hvalue =>
    simp only [List.mem_cons, List.not_mem_nil, or_false, not_or] at hplain
    obtain ⟨hlong, hshort, hflush⟩ := hplain
    have hhelp : isHelp argument = false := by
      rw [isHelp, beq_false_of_ne hlong, beq_false_of_ne hshort, Bool.or_self]
    have hflag : withFlag o argument = .error (.unknownArgument argument) :=
      if_neg (by rwa [beq_iff_eq])
    cases more with
    | nil => simp only [readFrom, hhelp, hflag, Bool.false_eq_true, if_false]
    | cons value rest =>
      have hother : argument ∉ [utf8 "--file", utf8 "--tcp", utf8 "--level"] :=
        fun hmem => List.cons_ne_nil _ _ (hvalue hmem)
      simp only [List.mem_cons, List.not_mem_nil, or_false, not_or] at hother
      have hnone : withValue? o argument value = none := by
        simp only [withValue?, beq_iff_eq, hother, if_false]
      simp only [readFrom, hhelp, hnone, hflag, Bool.false_eq_true, if_false]
  | @form given more hform =>
    refine readFrom_of_fault (by decide) ?_
    rw [withValue?_tcp, endpoint_of_form hform]
    rfl
  | @port given host text more hendpoint hport =>
    have hnone : port? text = none :=
      Option.eq_none_iff_forall_ne_some.mpr fun n hn => hport n (port?_eq_some_iff.mp hn)
    refine readFrom_of_fault (by decide) ?_
    rw [withValue?_tcp, endpoint_of_isEndpoint hendpoint, hnone]
    rfl
  | @level given more hname =>
    have hnone : Level.ofName? given = none :=
      Option.eq_none_iff_forall_ne_some.mpr fun l hl => hname l (ofName?_eq_some_iff.mp hl)
    refine readFrom_of_fault (by decide) ?_
    rw [withValue?_level, hnone]
    rfl

theorem readFrom_of_isHelp (h : argument ∈ [utf8 "--help", utf8 "-h"]) (o : Options)
    (more : List Bytes) : readFrom o (argument :: more) = .help := by
  have hhelp : isHelp argument = true := by
    rw [isHelp, Bool.or_eq_true, beq_iff_eq, beq_iff_eq]
    simpa using h
  cases more <;> exact if_pos hhelp

/-- The argument of an option is a choice that makes sense, or the option is refused for it. -/
theorem choice_or_offends (h : argument ∈ [utf8 "--file", utf8 "--tcp", utf8 "--level"])
    (given : Bytes) (more : List Bytes) :
    (∃ c : Choice, c.MakesSense ∧ argument :: given :: more = c.written ++ more) ∨
      ∃ fault, Offends (argument :: given :: more) fault := by
  simp only [List.mem_cons, List.not_mem_nil, or_false] at h
  obtain rfl | rfl | rfl := h
  · exact .inl ⟨.path given, trivial, rfl⟩
  · by_cases hform : ∃ host text, IsEndpoint given host text
    · obtain ⟨host, text, hendpoint⟩ := hform
      by_cases hport : ∃ n, BeginsWithPort text n
      · obtain ⟨n, hport⟩ := hport
        exact .inl ⟨.endpoint given host n, ⟨text, hendpoint, hport⟩, rfl⟩
      · exact .inr ⟨_, .port hendpoint (not_exists.mp hport)⟩
    · exact .inr ⟨_, .form fun host text hendpoint => hform ⟨host, text, hendpoint⟩⟩
  · by_cases hname : ∃ level, NamesLevel given level
    · obtain ⟨level, hname⟩ := hname
      exact .inl ⟨.level given level, hname, rfl⟩
    · exact .inr ⟨_, .level (not_exists.mp hname)⟩

/-- Arguments end, ask for help, begin with a choice that makes sense or begin with one that makes
none. -/
theorem nil_or_help_or_choice_or_offends (arguments : List Bytes) : arguments = [] ∨
    (∃ argument more, arguments = argument :: more ∧ argument ∈ [utf8 "--help", utf8 "-h"]) ∨
    (∃ c rest, c.MakesSense ∧ arguments = Choice.written c ++ rest) ∨
    ∃ fault, Offends arguments fault := by
  cases arguments with
  | nil => exact .inl rfl
  | cons argument more =>
    right
    by_cases hhelp : argument ∈ [utf8 "--help", utf8 "-h"]
    · exact .inl ⟨argument, more, rfl, hhelp⟩
    right
    by_cases hflush : argument = utf8 "--flush-each-line"
    · exact .inl ⟨.flush, more, trivial, hflush ▸ rfl⟩
    have hplain : argument ∉ [utf8 "--help", utf8 "-h", utf8 "--flush-each-line"] := by
      simp only [List.mem_cons, List.not_mem_nil, or_false, not_or] at hhelp ⊢
      exact ⟨hhelp.1, hhelp.2, hflush⟩
    by_cases hvalue : argument ∈ [utf8 "--file", utf8 "--tcp", utf8 "--level"]
    · cases more with
      | nil => exact .inr ⟨_, .unknown hplain fun _ => rfl⟩
      | cons given more =>
        obtain ⟨c, hc, hwritten⟩ | hoffends := choice_or_offends hvalue given more
        · exact .inl ⟨c, more, hc, hwritten⟩
        · exact .inr hoffends
    · exact .inr ⟨_, .unknown hplain fun hmem => absurd hmem hvalue⟩

/-! ## All arguments -/

variable {choices : List Choice} {c : Choice} {invocation : Invocation}

theorem written_cons (c : Choice) (choices : List Choice) :
    written (c :: choices) = c.written ++ written choices := List.flatMap_cons

/-- The last value stays the last one, unless one more is chosen. -/
theorem lastOf_concat {α : Type} (choices : List Choice) (c : Choice) (value? : Choice → Option α)
    (otherwise : α) : lastOf (choices ++ [c]) value? otherwise =
      (value? c).getD (lastOf choices value? otherwise) := by
  unfold lastOf
  cases h : value? c with
  | none => simp [h]
  | some a => simp [h]

/-- Choices that are taken up one behind the other give the last one of each kind. -/
theorem foldl_choose (choices : List Choice) :
    choices.foldl Options.choose .default = .ofChoices choices := by
  induction choices using List.reverseRecOn with
  | nil => rfl
  | append_singleton choices c ih =>
    rw [List.foldl_concat, ih]
    cases c <;> simp [Options.choose, Options.ofChoices, lastOf_concat, Choice.path?,
      Choice.endpoint?, Choice.level?]

/-- What is behind choices that make sense is read with these taken up. -/
theorem read_written_append (h : ∀ c ∈ choices, c.MakesSense) (rest : List Bytes) :
    read (written choices ++ rest) = readFrom (.ofChoices choices) rest := by
  have hfold (o : Options) : readFrom o (written choices ++ rest) =
      readFrom (choices.foldl Options.choose o) rest := by
    induction choices generalizing o with
    | nil => rfl
    | cons c choices ih =>
      obtain ⟨hc, hchoices⟩ := List.forall_mem_cons.mp h
      rw [written_cons, List.append_assoc, readFrom_written hc]
      exact ih hchoices (o.choose c)
  rw [read, hfold, foldl_choose]

/-- Arguments are choices that make sense and what comes behind them. -/
theorem exists_choices (arguments : List Bytes) : ∃ choices rest,
    (∀ c ∈ choices, c.MakesSense) ∧ arguments = written choices ++ rest ∧ (rest = [] ∨
      (∃ argument more, rest = argument :: more ∧ argument ∈ [utf8 "--help", utf8 "-h"]) ∨
      ∃ fault, Offends rest fault) := by
  induction hlength : arguments.length using Nat.strongRecOn generalizing arguments with
  | ind length ih =>
    obtain hend | hhelp | ⟨c, rest, hc, rfl⟩ | hoffends :=
      nil_or_help_or_choice_or_offends arguments
    · exact ⟨[], arguments, by simp, rfl, .inl hend⟩
    · exact ⟨[], arguments, by simp, rfl, .inr (.inl hhelp)⟩
    · have hpos : 0 < c.written.length := by cases c <;> simp [Choice.written]
      rw [List.length_append] at hlength
      obtain ⟨choices, rest, hchoices, rfl, hrest⟩ := ih rest.length (by omega) rest rfl
      refine ⟨c :: choices, rest, List.forall_mem_cons.mpr ⟨hc, hchoices⟩, ?_, hrest⟩
      rw [written_cons, List.append_assoc]
    · exact ⟨[], arguments, by simp, rfl, .inr (.inr hoffends)⟩

/-- There is an outcome for all arguments. -/
theorem exists_comesTo (arguments : List Bytes) : ∃ invocation, ComesTo arguments invocation := by
  obtain ⟨choices, rest, hsense, rfl, hrest⟩ := exists_choices arguments
  obtain rfl | ⟨argument, more, rfl, hhelp⟩ | ⟨fault, hoffends⟩ := hrest
  · rw [List.append_nil]
    by_cases h : (Options.ofChoices choices).path = [] ∨ (Options.ofChoices choices).host = []
    · exact ⟨_, .work hsense h⟩
    · obtain ⟨hpath, hhost⟩ := not_or.mp h
      exact ⟨_, .exclusive hsense hpath hhost⟩
  · exact ⟨_, .help more hsense hhelp⟩
  · exact ⟨_, .offence hsense hoffends⟩

theorem read_of_comesTo (h : ComesTo arguments invocation) : read arguments = invocation := by
  have hend {choices : List Choice} (hsense : ∀ c ∈ choices, c.MakesSense) :
      read (written choices) = complete (.ofChoices choices) := by
    rw [← List.append_nil (written choices), read_written_append hsense, readFrom]
  cases h with
  | help more hsense hhelp => rw [read_written_append hsense, readFrom_of_isHelp hhelp]
  | offence hsense hoffends => rw [read_written_append hsense, readFrom_of_offends hoffends]
  | exclusive hsense hpath hhost =>
    rw [hend hsense, complete, List.isEmpty_eq_false_iff.mpr hpath,
      List.isEmpty_eq_false_iff.mpr hhost]
    rfl
  | work hsense hone =>
    rw [hend hsense, complete]
    obtain hnone | hnone := hone <;> simp [hnone]

/-- Reading arguments gives what they come to, and nothing else. Every number of a port is read as
that port. -/
theorem read_eq_iff (arguments : List Bytes) (invocation : Invocation) :
    (read arguments = invocation ↔ ComesTo arguments invocation) ∧
      ∀ s n, IsPort s n → BeginsWithPort s n := by
  refine ⟨⟨fun h => ?_, read_of_comesTo⟩, fun s n => IsPort.beginsWithPort⟩
  obtain ⟨outcome, houtcome⟩ := exists_comesTo arguments
  rwa [← h, read_of_comesTo houtcome]

/-- Of two endpoints the last one counts, and a call for help can be a path. -/
theorem read_eq_iff_two_endpoints :
    IsPort (utf8 "08080") 8080 ∧ BeginsWithPort (utf8 "08080") 8080 ∧
      ComesTo [utf8 "--tcp", utf8 "a:1", utf8 "--level", utf8 "Warning", utf8 "--tcp",
        utf8 "::1:08080"] (.work ⟨[], utf8 "::1", 8080, .warn, false⟩) ∧
      ComesTo [utf8 "--file", utf8 "--help"] (.work ⟨utf8 "--help", [], 0, .info, false⟩) := by
  have hport : IsPort (utf8 "08080") 8080 :=
    ⟨by decide, List.all_eq_true.mp rfl, by decide, by decide, by decide⟩
  exact ⟨hport, (read_eq_iff [] .help).2 _ _ hport, (read_eq_iff _ _).1.mp (by decide),
    (read_eq_iff _ _).1.mp (by decide)⟩

/-- An endpoint is taken whose second text is no number of a port. -/
theorem endpoint_with_text_behind_port :
    IsEndpoint (utf8 "h:80x") (utf8 "h") (utf8 "80x") ∧ (¬ ∃ n, IsPort (utf8 "80x") n) ∧
      read [utf8 "--tcp", utf8 "h:80x"] = .work ⟨[], utf8 "h", 80, .info, false⟩ ∧
      read [utf8 "--tcp", utf8 "h:80x", utf8 "--file", utf8 "y"] = .refuse .exclusive := by
  refine ⟨⟨by decide, by decide, by decide, by decide⟩, ?_, by decide, by decide⟩
  rintro ⟨n, _, hdigits, _⟩
  exact absurd (hdigits 'x'.toUInt8 (by decide)) (by decide)

end LeveledLog.Command
