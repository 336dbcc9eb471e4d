import LeveledLog.Proofs.Exchange
import LeveledLog.Proofs.Numeral
import LeveledLog.Settings

/-!
# Capacities from the environment

A variable gives the capacity that it writes: white space, a plus sign or none, and the digits of
a number that is positive and fits into 64 bits. Two more kinds of values are taken, and for another
number: a number that is too large, and a negative number behind white space. Every other value is
reported and leaves the default, which is the size of a page of memory.
-/

namespace LeveledLog

namespace Settings

open Numeral (IsInteger value)

variable {s spaces sign digits : Bytes} {n : Nat}

/-- A text writes a capacity: white space, a plus sign or none, and the digits of a number that is
positive and fits into a word. -/
def Writes (s : Bytes) (n : Nat) : Prop :=
  ∃ spaces sign digits, IsInteger s spaces sign digits ∧ sign ≠ utf8 "-" ∧ value digits = n ∧
    1 ≤ n ∧ n < wordValues

/-- A text is mistaken for a capacity that it does not write: a number that is too large for the
greatest word, and a negative number behind white space for its remainder. -/
def IsMistakenFor (s : Bytes) (n : Nat) : Prop :=
  ∃ spaces sign digits, IsInteger s spaces sign digits ∧ (sign = utf8 "-" → spaces ≠ []) ∧
    if wordValues ≤ value digits then n = wordValues - 1
    else sign = utf8 "-" ∧ 0 < value digits ∧ n = wordValues - value digits

/-- Only a minus sign that nothing stands in front of is the first byte of an integer. -/
theorem head_eq_minus_iff (h : IsInteger s spaces sign digits) :
    s.head? = some '-'.toUInt8 ↔ sign = utf8 "-" ∧ spaces = [] := by
  have hspace : Numeral.isSpace '-'.toUInt8 = false := by decide
  rw [h.text]
  cases hspaces : spaces with
  | cons b more =>
    refine iff_of_false (fun hhead => ?_) (fun hnone => List.cons_ne_nil _ _ hnone.2)
    have hb := h.isSpace b (hspaces ▸ List.mem_cons_self ..)
    rw [Option.some.inj hhead, hspace] at hb
    cases hb
  | nil =>
    rw [List.nil_append, and_iff_left rfl]
    rcases h.sign with rfl | rfl | rfl
    · obtain ⟨b, more, rfl⟩ := List.exists_cons_of_ne_nil h.ne_nil
      have hb := (Numeral.of_isDigit (h.isDigit b (List.mem_cons_self ..))).2.1
      exact iff_of_false (fun hhead => hb (Option.some.inj hhead)) (by decide)
    · have hplus : (utf8 "+" ++ digits).head? = some '+'.toUInt8 := rfl
      rw [hplus]
      exact iff_of_false (by decide) (by decide)
    · exact iff_of_true rfl rfl

/-- Of integers those are taken as capacities that are no zero as words and do not begin with a
minus sign. -/
theorem capacity?_of_isInteger (h : IsInteger s spaces sign digits) :
    capacity? s = some n ↔ (sign = utf8 "-" → spaces ≠ []) ∧ n ≠ 0 ∧
      n = if wordValues ≤ value digits then wordValues - 1
        else if sign = utf8 "-" then (wordValues - value digits) % wordValues
        else value digits := by
  have hword : wordOf ⟨decide (sign = utf8 "-"), value digits, []⟩ =
      if wordValues ≤ value digits then wordValues - 1
      else if sign = utf8 "-" then (wordValues - value digits) % wordValues
      else value digits := by
    simp only [wordOf, decide_eq_true_eq]
  have hempty : ([] : Bytes).isEmpty = true := rfl
  rw [← hword, capacity?, h.leading?]
  simp only [Option.ite_none_right_eq_some, Option.some.injEq, hempty, true_and, ne_eq,
    head_eq_minus_iff h, not_and]
  constructor
  · rintro ⟨⟨hne, hhead⟩, rfl⟩
    exact ⟨hhead, hne, rfl⟩
  · rintro ⟨hhead, hne, rfl⟩
    exact ⟨⟨hne, hhead⟩, rfl⟩

/-- The texts that are taken as capacities are those that write one and those that are mistaken for
one. -/
theorem capacity?_eq_some_iff : capacity? s = some n ↔ Writes s n ∨ IsMistakenFor s n := by
  have hlarge : 0 < wordValues := by decide
  constructor
  · intro h
    obtain ⟨spaces, sign, digits, hinteger⟩ :
        ∃ spaces sign digits, IsInteger s spaces sign digits := by
      have hread := h
      unfold capacity? at hread
      split at hread
      case h_1 => cases hread
      case h_2 m hm =>
        rw [Option.ite_none_right_eq_some] at hread
        exact Numeral.exists_isInteger hm (List.isEmpty_iff.mp hread.1.1)
    obtain ⟨hhead, hne, hn⟩ := (capacity?_of_isInteger hinteger).mp h
    by_cases hfits : wordValues ≤ value digits
    · rw [if_pos hfits] at hn
      exact .inr ⟨spaces, sign, digits, hinteger, hhead, by rwa [if_pos hfits]⟩
    · rw [if_neg hfits] at hn
      by_cases hminus : sign = utf8 "-"
      · rw [if_pos hminus] at hn
        have hpos : 0 < value digits := by
          by_contra hzero
          rw [Nat.eq_zero_of_not_pos hzero, Nat.sub_zero, Nat.mod_self] at hn
          exact hne hn
        rw [Nat.mod_eq_of_lt (Nat.sub_lt hlarge hpos)] at hn
        refine .inr ⟨spaces, sign, digits, hinteger, hhead, ?_⟩
        rw [if_neg hfits]
        exact ⟨hminus, hpos, hn⟩
      · rw [if_neg hminus] at hn
        exact .inl ⟨spaces, sign, digits, hinteger, hminus, hn.symm, Nat.pos_of_ne_zero hne,
          hn ▸ Nat.lt_of_not_le hfits⟩
  · rintro (⟨spaces, sign, digits, hinteger, hminus, rfl, hpos, hfits⟩ |
      ⟨spaces, sign, digits, hinteger, hhead, hn⟩)
    · refine (capacity?_of_isInteger hinteger).mpr ⟨fun h => absurd h hminus, by omega, ?_⟩
      rw [if_neg (Nat.not_le.mpr hfits), if_neg hminus]
    · refine (capacity?_of_isInteger hinteger).mpr ⟨hhead, ?_⟩
      by_cases hfits : wordValues ≤ value digits
      · rw [if_pos hfits] at hn ⊢
        exact ⟨hn ▸ by decide, hn⟩
      · rw [if_neg hfits] at hn ⊢
        obtain ⟨hminus, hpos, rfl⟩ := hn
        rw [if_pos hminus, Nat.mod_eq_of_lt (Nat.sub_lt hlarge hpos)]
        exact ⟨by omega, rfl⟩

/-- The report on a variable whose value is ignored. -/
def ignored (name s : Bytes) : Exchange :=
  .told (.diagnosed ⟨.warn, utf8 "WriterConfig: ignoring " ++ name ++ utf8 "=" ++ s⟩)

/-- The reports on a variable: there is one if its value makes no sense. -/
def reportsOn {α : Type} (name : Bytes) (read? : Bytes → Option α) (given : Option Bytes) :
    List Exchange :=
  (given.filter fun s => (read? s).isNone).toList.map (ignored name)

section

variable {α : Type} {name : Bytes} {read? : Bytes → Option α} {otherwise a : α}
  {given : Option Bytes} {es : List Exchange}

theorem reportsOn_of_isSome (h : ∀ s ∈ given, (read? s).isSome = true) :
    reportsOn name read? given = [] := by
  have hnone : given.filter (fun s => (read? s).isNone) = none := by
    rw [Option.filter_eq_none_iff]
    intro s hs
    rw [Option.isNone_eq_false_iff.mpr (h s hs)]
    exact Bool.false_ne_true
  rw [reportsOn, hnone, Option.toList_none, List.map_nil]

theorem reportsOn_of_some (h : read? s = some a) : reportsOn name read? (some s) = [] :=
  reportsOn_of_isSome (by simp [h])

theorem reportsOn_of_none (h : read? s = none) :
    reportsOn name read? (some s) = [ignored name s] := by
  simp [reportsOn, h]

/-- A variable gives what it is read as, and otherwise what it would give unset. -/
theorem runs_fromVariable : (fromVariable name read? otherwise given).Runs es a ↔
    es = reportsOn name read? given ∧ a = (given.bind read?).getD otherwise := by
  cases given with
  | none => exact Dialogue.runs_pure
  | some s =>
    rw [Option.bind_some]
    cases h : read? s with
    | some b =>
      rw [reportsOn_of_some h, Option.getD_some]
      simp only [fromVariable, h, Dialogue.runs_pure]
    | none =>
      rw [reportsOn_of_none h, Option.getD_none]
      simp only [fromVariable, h, Dialogue.runs_bind, Dialogue.runs_report, Dialogue.runs_pure]
      constructor
      · rintro ⟨_, _, _, rfl, ⟨rfl, rfl⟩, rfl⟩
        exact ⟨rfl, rfl⟩
      · rintro ⟨rfl, rfl⟩
        exact ⟨_, (), [], rfl, ⟨rfl, rfl⟩, rfl⟩

end

/-- One variable does not change what another one gives. -/
theorem runs_fromEnvironment {e : Environment} {pageSize : Int64} {es : List Exchange}
    {settings : Settings} : (fromEnvironment e pageSize).Runs es settings ↔
      es = reportsOn (utf8 "SCRIBE_LEVEL") Level.ofName? e.level ++
        reportsOn (utf8 "SCRIBE_BUFFER_BYTES") capacity? e.bufferBytes ∧
      settings = ⟨(e.level.bind Level.ofName?).getD .debug,
        (e.bufferBytes.bind capacity?).getD (defaultCapacity pageSize)⟩ := by
  simp only [fromEnvironment, Dialogue.runs_bind, Dialogue.runs_pure, runs_fromVariable]
  constructor
  · rintro ⟨_, _, _, ⟨rfl, rfl⟩, ⟨_, _, _, ⟨rfl, rfl⟩, ⟨rfl, rfl⟩, rfl⟩, rfl⟩
    exact ⟨by rw [List.append_nil], rfl⟩
  · rintro ⟨rfl, rfl⟩
    exact ⟨_, _, _, ⟨rfl, rfl⟩, ⟨_, _, _, ⟨rfl, rfl⟩, ⟨rfl, rfl⟩, (List.append_nil _).symm⟩, rfl⟩

/-- The variable for the level gives the level that it names. If it names none, it is reported,
once, and the level is the default one. Whatever it gives, a value that writes a capacity sets that
capacity and is not reported. A value that is mistaken for a capacity sets that one, and is not
reported, either. Every other value is reported, once, and leaves the default capacity. -/
theorem capacity_from_environment {e : Environment} (pageSize : Int64)
    (h : e.bufferBytes = some s) :
    ∃ level reports, level = (e.level.bind Level.ofName?).getD .debug ∧
      ((∀ name ∈ e.level, (Level.ofName? name).isSome = true) → reports = []) ∧
      (∀ name ∈ e.level, Level.ofName? name = none →
        reports = [ignored (utf8 "SCRIBE_LEVEL") name]) ∧
      (∀ n, Writes s n → ∀ es settings,
        (fromEnvironment e pageSize).Runs es settings ↔ es = reports ∧ settings = ⟨level, n⟩) ∧
      (∀ n, IsMistakenFor s n → ∀ es settings,
        (fromEnvironment e pageSize).Runs es settings ↔ es = reports ∧ settings = ⟨level, n⟩) ∧
      ((∀ n, ¬ Writes s n ∧ ¬ IsMistakenFor s n) → ∀ es settings,
        (fromEnvironment e pageSize).Runs es settings ↔
          es = reports ++ [ignored (utf8 "SCRIBE_BUFFER_BYTES") s] ∧
            settings = ⟨level, defaultCapacity pageSize⟩) := by
  have htaken (n : Nat) (hn : capacity? s = some n) (es : List Exchange) (settings : Settings) :
      (fromEnvironment e pageSize).Runs es settings ↔
        es = reportsOn (utf8 "SCRIBE_LEVEL") Level.ofName? e.level ∧
          settings = ⟨(e.level.bind Level.ofName?).getD .debug, n⟩ := by
    rw [runs_fromEnvironment, h, reportsOn_of_some hn, List.append_nil, Option.bind_some, hn,
      Option.getD_some]
  refine ⟨_, reportsOn (utf8 "SCRIBE_LEVEL") Level.ofName? e.level, rfl, reportsOn_of_isSome,
    fun name hname hnone => ?_, fun n hn => htaken n (capacity?_eq_some_iff.mpr (.inl hn)),
    fun n hn => htaken n (capacity?_eq_some_iff.mpr (.inr hn)), fun hno es settings => ?_⟩
  · rw [hname]
    exact reportsOn_of_none hnone
  · have hrefused : capacity? s = none := by
      refine Option.eq_none_iff_forall_ne_some.mpr fun n hn => ?_
      exact (capacity?_eq_some_iff.mp hn).elim (hno n).1 (hno n).2
    rw [runs_fromEnvironment, h, reportsOn_of_none hrefused, Option.bind_some, hrefused,
      Option.getD_none]

/-- A number of pages behind white space and a plus sign, without a variable for the level and with
one that names none. -/
theorem capacity_from_environment_plus : Writes (utf8 "\t +65536") 65536 ∧
    (fromEnvironment ⟨none, some (utf8 "\t +65536"), none⟩ 4096).Runs [] ⟨.debug, 65536⟩ ∧
    (fromEnvironment ⟨some (utf8 "loud"), some (utf8 "\t +65536"), none⟩ 16384).Runs
      [ignored (utf8 "SCRIBE_LEVEL") (utf8 "loud")] ⟨.debug, 65536⟩ := by
  have hwrites : Writes (utf8 "\t +65536") 65536 :=
    ⟨utf8 "\t ", utf8 "+", utf8 "65536",
      ⟨rfl, List.all_eq_true.mp rfl, .inr (.inl rfl), by decide, List.all_eq_true.mp rfl⟩,
      by decide, by decide, by decide, by decide⟩
  obtain ⟨level, reports, hlevel, hnone, _, htaken, _⟩ :=
    @capacity_from_environment _ ⟨none, some (utf8 "\t +65536"), none⟩ 4096 rfl
  obtain ⟨level', reports', hlevel', _, hone, htaken', _⟩ :=
    @capacity_from_environment _ ⟨some (utf8 "loud"), some (utf8 "\t +65536"), none⟩ 16384 rfl
  have hloud : Level.ofName? (utf8 "loud") = none := by decide
  refine ⟨hwrites, (htaken 65536 hwrites _ _).mpr ⟨(hnone (by simp)).symm, ?_⟩,
    (htaken' 65536 hwrites _ _).mpr ⟨(hone _ rfl hloud).symm, ?_⟩⟩
  · rw [hlevel]
    rfl
  · rw [hlevel', Option.bind_some, hloud]
    rfl

/-- The negative number behind a blank and the first number that is too large are taken without a
report, and neither of them writes a capacity. -/
theorem mistaken_capacities :
    (fromEnvironment ⟨none, some (utf8 " -5"), none⟩ 4096).Runs []
        ⟨.debug, 18446744073709551611⟩ ∧
      (¬ ∃ n, Writes (utf8 " -5") n) ∧
      (fromEnvironment ⟨none, some (utf8 "18446744073709551616"), none⟩ 4096).Runs []
        ⟨.debug, 18446744073709551615⟩ ∧
      ¬ ∃ n, Writes (utf8 "18446744073709551616") n := by
  have hruns {s : Bytes} {n : Nat} (h : capacity? s = some n) :
      (fromEnvironment ⟨none, some s, none⟩ 4096).Runs [] ⟨.debug, n⟩ := by
    rw [runs_fromEnvironment, reportsOn_of_some h, Option.bind_some, h]
    exact ⟨rfl, rfl⟩
  refine ⟨hruns (by decide), ?_, hruns (by decide), ?_⟩
  · rintro ⟨n, spaces, sign, digits, hinteger, hminus, _⟩
    have hread : Numeral.leading? (utf8 " -5") = some ⟨true, 5, []⟩ := by decide
    have hsame := Option.some.inj (hinteger.leading?.symm.trans hread)
    exact hminus (of_decide_eq_true (congrArg Numeral.Leading.negative hsame))
  · rintro ⟨n, spaces, sign, digits, hinteger, _, rfl, _, hfits⟩
    have hread : Numeral.leading? (utf8 "18446744073709551616") =
        some ⟨false, 18446744073709551616, []⟩ := by decide
    have hsame := Option.some.inj (hinteger.leading?.symm.trans hread)
    have hvalue : value digits = 18446744073709551616 :=
      congrArg Numeral.Leading.magnitude hsame
    rw [hvalue] at hfits
    exact absurd hfits (by decide)

end Settings

end LeveledLog
