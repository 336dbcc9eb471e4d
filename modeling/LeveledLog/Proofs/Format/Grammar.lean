import LeveledLog.Proofs.Format.Slots
import LeveledLog.Proofs.Numeral

/-!
# The grammar of placeholders

A placeholder is written in parts: flags, a width, a precision and a verb, with backslashes
anywhere between the percent sign and the verb. Reading accepts exactly what can be written in
this way, and finds what the parts mean. What it finds is read again from its plainest writing.
-/

namespace LeveledLog.Spec

open Bytes (backslash)
open Numeral (isDigit value decimal)

/-- The parts in which a placeholder is written. -/
structure Parts where
  flags : Bytes
  /-- The digits of the width, none if there is no width. -/
  width : Bytes
  /-- The digits behind the point, if there is a point. -/
  precision : Option Bytes
  verb : Verb
  deriving DecidableEq, Repr

namespace Parts

/-- A width begins with a digit other than zero and has at most five more. At most six digits
stand behind the point. -/
structure WellFormed (q : Parts) : Prop where
  flags : ∀ b ∈ q.flags, b ∈ utf8 "-+# 0"
  width : q.width = [] ∨ ∃ first more, q.width = first :: more ∧ isDigit first = true ∧
    first ≠ '0'.toUInt8 ∧ (∀ b ∈ more, isDigit b = true) ∧ more.length ≤ 5
  precision : ∀ digits, q.precision = some digits →
    (∀ b ∈ digits, isDigit b = true) ∧ digits.length ≤ 6

/-- The parts between the percent sign and the verb, one behind the other. -/
def modifiers (q : Parts) : Bytes := q.flags ++ (q.width ++ q.precision.elim [] (point :: ·))

/-- A placeholder is written in the given parts, apart from its backslashes. -/
def Writes (q : Parts) (placeholder : Bytes) : Prop :=
  ∃ between, placeholder = percent :: between ++ [q.verb.byte] ∧
    between.filter (fun b => b != backslash) = q.modifiers

/-- What the parts mean. -/
def meaning (q : Parts) : Spec where
  verb := q.verb
  minus := q.flags.contains '-'.toUInt8
  plus := q.flags.contains '+'.toUInt8
  sharp := q.flags.contains '#'.toUInt8
  space := q.flags.contains ' '.toUInt8
  zero := q.flags.contains '0'.toUInt8 && !q.flags.contains '-'.toUInt8
  width := if q.width = [] then none else some (value q.width)
  precision := q.precision.map value

end Parts

variable {p rest modifiers : Bytes} {b : UInt8} {verb : Verb} {spec : Spec} {q : Parts}

/-! ## Verbs and classes of bytes -/

/-- The bytes that write verbs. -/
theorem exists_byte_eq_iff : (∃ v : Verb, v.byte = b) ↔ b ∈ utf8 "dfvbopxXctsTqUeEgG" := by
  constructor
  · rintro ⟨v, rfl⟩
    cases v <;> decide +kernel
  · intro h
    have hall : ∀ c ∈ utf8 "dfvbopxXctsTqUeEgG", c ∈ Verb.all.map Verb.byte := by decide +kernel
    obtain ⟨v, _, hv⟩ := List.mem_map.mp (hall b h)
    exact ⟨v, hv⟩

/-- A byte that is read as a verb writes it. -/
theorem byte_of_ofByte? (h : Verb.ofByte? b = some verb) : verb.byte = b :=
  eq_of_beq (List.find?_some h :)

theorem isFlag_iff : isFlag b = true ↔ b ∈ utf8 "-+# 0" := List.contains_iff_mem

/-- No digit but zero is a flag. -/
theorem isFlag_of_isDigit (h : isDigit b = true) (hne : b ≠ '0'.toUInt8) : isFlag b = false := by
  rw [Bool.eq_false_iff, ne_eq, isFlag_iff]
  intro hmem
  have hall : ∀ c ∈ utf8 "-+# 0", isDigit c = true → c = '0'.toUInt8 := by decide +kernel
  exact hne (hall b hmem h)

/-! ## The readers -/

/-- A run of digits is accepted up to its greatest length. -/
theorem number_eq_ok_iff {digits : Bytes} {n : Nat} :
    number p digits = .ok n ↔ digits.length ≤ 6 ∧ value digits = n := by
  unfold number
  split
  · simp_all [maxDigits]
  · simp_all [maxDigits]

/-- A width is read from the digits at the front. -/
theorem readWidth_eq_ok_iff {width : Option Nat} :
    readWidth p rest = .ok width ↔ (rest.takeWhile isDigit).length ≤ 6 ∧
      (if rest.takeWhile isDigit = [] then none else some (value (rest.takeWhile isDigit))) =
        width := by
  unfold readWidth
  split
  · next h => simp [h]
  · next h =>
    have hmap : (number p (rest.takeWhile isDigit)).map some = .ok width ↔
        ∃ n, number p (rest.takeWhile isDigit) = .ok n ∧ some n = width := by
      cases number p (rest.takeWhile isDigit) <;> simp [Except.map]
    simp only [hmap, number_eq_ok_iff, if_neg h]
    constructor
    · rintro ⟨n, ⟨hlength, rfl⟩, rfl⟩
      exact ⟨hlength, rfl⟩
    · rintro ⟨hlength, rfl⟩
      exact ⟨_, ⟨hlength, rfl⟩, rfl⟩

/-- A precision is read from nothing, or from a point with digits behind it to the end. -/
theorem readPrecision_eq_ok_iff {precision : Option Nat} :
    readPrecision p rest = .ok precision ↔ ∃ digits : Option Bytes,
      rest = digits.elim [] (point :: ·) ∧
      (∀ ds, digits = some ds → (∀ b ∈ ds, isDigit b = true) ∧ ds.length ≤ 6) ∧
      digits.map value = precision := by
  cases rest with
  | nil =>
    constructor
    · intro h
      exact ⟨none, rfl, by simp, Except.ok.inj h⟩
    · rintro ⟨digits, hrest, _, rfl⟩
      cases digits with
      | none => rfl
      | some ds => cases hrest
  | cons b digits =>
    by_cases hb : b = point
    · subst hb
      simp only [readPrecision, bne_self_eq_false, Bool.false_eq_true, ite_false, bind_eq_ok,
        number_eq_ok_iff]
      constructor
      · rintro ⟨n, ⟨hlength, rfl⟩, h⟩
        split at h
        · next hrest =>
          have hall : digits.takeWhile isDigit = digits := by
            have := List.takeWhile_append_dropWhile (p := isDigit) (l := digits)
            rwa [hrest, List.append_nil] at this
          rw [hall] at hlength h
          refine ⟨some digits, rfl, ?_, Except.ok.inj h⟩
          rintro ds ⟨⟩
          exact ⟨List.takeWhile_eq_self_iff.mp hall, hlength⟩
        · cases h
      · rintro ⟨ds, hrest, hds, rfl⟩
        cases ds with
        | none => cases hrest
        | some ds =>
          cases hrest
          obtain ⟨hdigits, hlength⟩ := hds _ rfl
          have hall := List.takeWhile_eq_self_iff.mpr hdigits
          have hnone : digits.dropWhile isDigit = [] := List.dropWhile_eq_nil_iff.mpr hdigits
          refine ⟨_, ⟨hall.symm ▸ hlength, rfl⟩, ?_⟩
          rw [hnone, hall]
          rfl
    · have hne : (b != point) = true := bne_iff_ne.mpr hb
      simp only [readPrecision, hne, ite_true, reduceCtorEq, false_iff]
      rintro ⟨ds, hrest, _⟩
      cases ds with
      | none => cases hrest
      | some ds =>
        cases hrest
        exact hb rfl

/-! ## Modifiers -/

/-- What satisfies a condition is cut off from what begins otherwise. -/
private theorem cut {f : UInt8 → Bool} {front back : Bytes} (hfront : ∀ b ∈ front, f b = true)
    (hback : ∀ b ∈ back.head?, f b = false) :
    (front ++ back).takeWhile f = front ∧ (front ++ back).dropWhile f = back := by
  rw [List.takeWhile_append_of_pos hfront, List.dropWhile_append_of_pos hfront]
  cases back with
  | nil => exact ⟨List.append_nil front, rfl⟩
  | cons b back =>
    have hb : f b = false := hback b rfl
    rw [List.takeWhile_cons_of_neg (by simp [hb]), List.dropWhile_cons_of_neg (by simp [hb])]
    exact ⟨List.append_nil front, rfl⟩

/-- What is written behind the width begins with neither a digit nor a flag. -/
private theorem head_precision (digits : Option Bytes) :
    ∀ b ∈ (digits.elim [] (point :: ·)).head?, isDigit b = false ∧ isFlag b = false := by
  cases digits with
  | none => simp
  | some digits =>
    rintro b ⟨⟩
    decide +kernel

/-- A well-formed width consists of digits. -/
theorem Parts.WellFormed.isDigit_width (h : q.WellFormed) :
    (∀ b ∈ q.width, isDigit b = true) ∧ q.width.length ≤ 6 := by
  rcases h.width with hw | ⟨first, more, hw, hfirst, _, hmore, hlength⟩
  · simp [hw]
  · rw [hw, List.length_cons]
    exact ⟨List.forall_mem_cons.mpr ⟨hfirst, hmore⟩, by omega⟩

/-- Well-formed parts are told apart by the bytes that begin them. -/
theorem Parts.WellFormed.cut_modifiers (h : q.WellFormed) :
    q.modifiers.takeWhile isFlag = q.flags ∧
    (q.modifiers.dropWhile isFlag).takeWhile isDigit = q.width ∧
    (q.modifiers.dropWhile isFlag).dropWhile isDigit = q.precision.elim [] (point :: ·) := by
  have hflags (b : UInt8) (hb : b ∈ q.flags) : isFlag b = true := isFlag_iff.mpr (h.flags b hb)
  have hwidth (b : UInt8) (hb : b ∈ (q.width ++ q.precision.elim [] (point :: ·)).head?) :
      isFlag b = false := by
    rcases h.width with hw | ⟨first, more, hw, hfirst, hne, _⟩
    · rw [hw] at hb
      exact (head_precision _ b hb).2
    · rw [hw] at hb
      cases hb
      exact isFlag_of_isDigit hfirst hne
  obtain ⟨htake, hdrop⟩ := cut hflags hwidth
  obtain ⟨htake', hdrop'⟩ := cut h.isDigit_width.1 fun b hb => (head_precision _ b hb).1
  rw [Parts.modifiers, hdrop]
  exact ⟨htake, htake', hdrop'⟩

/-- Digits behind all flags do not begin with a zero, which is a flag. -/
private theorem head_width {first : UInt8} {more : Bytes}
    (h : (modifiers.dropWhile isFlag).takeWhile isDigit = first :: more) :
    first ≠ '0'.toUInt8 := by
  have hrest : modifiers.dropWhile isFlag =
      first :: (more ++ (modifiers.dropWhile isFlag).dropWhile isDigit) := by
    rw [← List.cons_append, ← h, List.takeWhile_append_dropWhile]
  have hfirst : isFlag first = false := by
    have := List.head?_dropWhile_not isFlag modifiers
    rw [hrest] at this
    exact this
  have hzero : isFlag '0'.toUInt8 = true := by decide +kernel
  rintro rfl
  exact Bool.noConfusion (hzero.symm.trans hfirst)

/-- Modifiers are accepted exactly when they are well-formed parts, and mean what these mean. -/
theorem ofModifiers_eq_ok_iff :
    ofModifiers p verb modifiers = .ok spec ↔
      ∃ q : Parts, q.WellFormed ∧ q.verb = verb ∧ q.modifiers = modifiers ∧ q.meaning = spec := by
  unfold ofModifiers
  simp only [bind_eq_ok, readWidth_eq_ok_iff, readPrecision_eq_ok_iff]
  constructor
  · rintro ⟨width, ⟨hlength, rfl⟩, precision, ⟨digits, hdigits, hwell, rfl⟩, h⟩
    refine ⟨⟨modifiers.takeWhile isFlag, (modifiers.dropWhile isFlag).takeWhile isDigit, digits,
      verb⟩, ⟨?_, ?_, hwell⟩, rfl, ?_, Except.ok.inj h⟩
    · intro b hb
      exact isFlag_iff.mp (List.mem_takeWhile_imp hb)
    · cases hw : (modifiers.dropWhile isFlag).takeWhile isDigit with
      | nil => exact .inl rfl
      | cons first more =>
        rw [hw, List.length_cons] at hlength
        have hall (b : UInt8) (hb : b ∈ first :: more) : isDigit b = true :=
          List.mem_takeWhile_imp (hw ▸ hb)
        obtain ⟨hfirst, hmore⟩ := List.forall_mem_cons.mp hall
        exact .inr ⟨first, more, rfl, hfirst, head_width hw, hmore, by omega⟩
    · rw [Parts.modifiers, ← hdigits, List.takeWhile_append_dropWhile,
        List.takeWhile_append_dropWhile]
  · rintro ⟨q, hq, rfl, rfl, rfl⟩
    obtain ⟨hflags, hwidth, hprecision⟩ := hq.cut_modifiers
    rw [hflags, hwidth]
    exact ⟨_, ⟨hq.isDigit_width.2, rfl⟩, _, ⟨q.precision, hprecision, hq.precision, rfl⟩, rfl⟩

/-! ## Placeholders -/

/-- What is read begins with a percent sign and ends with its verb. -/
theorem parse_eq_ok_form (h : parse p = .ok spec) :
    ∃ between v, p = percent :: between ++ [Verb.byte v] ∧
      ofModifiers p v (between.filter fun b => b != backslash) = .ok spec := by
  cases p with
  | nil => cases h
  | cons first rest =>
    rw [parse] at h
    split at h
    · cases h
    · next v hlast =>
      obtain ⟨b, hb, hv⟩ := Option.bind_eq_some_iff.mp hlast
      obtain ⟨between, rfl⟩ := List.getLast?_eq_some_iff.mp hb
      split at h
      · cases h
      · next hfirst =>
        rw [List.dropLast_concat] at h
        have hpercent : first = percent := by simpa using hfirst
        rw [hpercent] at h ⊢
        exact ⟨between, v, by rw [byte_of_ofByte? hv, List.cons_append], h⟩

/-- Reading accepts exactly what is written in well-formed parts, and finds what they mean. -/
theorem parse_eq_ok_iff :
    parse p = .ok spec ↔ ∃ q : Parts, q.WellFormed ∧ q.Writes p ∧ q.meaning = spec := by
  constructor
  · intro h
    obtain ⟨between, v, rfl, hmodifiers⟩ := parse_eq_ok_form h
    obtain ⟨q, hq, rfl, hfilter, hmeaning⟩ := ofModifiers_eq_ok_iff.mp hmodifiers
    exact ⟨q, hq, ⟨between, rfl, hfilter.symm⟩, hmeaning⟩
  · rintro ⟨q, hq, ⟨between, rfl, hfilter⟩, hmeaning⟩
    rw [parse_slotText (Verb.ofByte?_byte q.verb), hfilter]
    exact ofModifiers_eq_ok_iff.mpr ⟨q, hq, rfl, rfl, hmeaning⟩

/-! ## The plainest writing -/

/-- What every spec satisfies that is read from a placeholder. -/
structure Regular (spec : Spec) : Prop where
  /-- Padding on the right cancels padding with zeros. -/
  zero : spec.minus = true → spec.zero = false
  width : ∀ n, spec.width = some n → 0 < n ∧ n ≤ 999999
  precision : ∀ n, spec.precision = some n → n ≤ 999999

/-- What well-formed parts mean is regular. -/
theorem Parts.WellFormed.regular (h : q.WellFormed) : q.meaning.Regular where
  zero hminus := by
    have hminus : q.flags.contains '-'.toUInt8 = true := hminus
    simp only [Parts.meaning, hminus, Bool.not_true, Bool.and_false]
  width n hn := by
    simp only [Parts.meaning, Option.ite_none_left_eq_some, Option.some.injEq] at hn
    obtain ⟨hne, rfl⟩ := hn
    rcases h.width with hw | ⟨first, more, hw, hfirst, hzero, _⟩
    · exact absurd hw hne
    · obtain ⟨hall, hlength⟩ := h.isDigit_width
      have := (Numeral.value_lt hall).trans_le (Nat.pow_le_pow_right (by decide) hlength)
      have hpos : 0 < value q.width := hw ▸ Numeral.value_pos hfirst hzero more
      omega
  precision n hn := by
    obtain ⟨digits, hdigits, rfl⟩ := Option.map_eq_some_iff.mp hn
    obtain ⟨hall, hlength⟩ := h.precision digits hdigits
    have := (Numeral.value_lt hall).trans_le (Nat.pow_le_pow_right (by decide) hlength)
    omega

/-- The given flags, each written once. -/
def flagBytes (minus plus sharp space zero : Bool) : Bytes :=
  (if minus then utf8 "-" else []) ++ (if plus then utf8 "+" else []) ++
    (if sharp then utf8 "#" else []) ++ (if space then utf8 " " else []) ++
    (if zero then utf8 "0" else [])

/-- The parts of the plainest placeholder that means a spec: every flag once, and numbers
without leading zeros. -/
def plainParts (spec : Spec) : Parts where
  flags := flagBytes spec.minus spec.plus spec.sharp spec.space spec.zero
  width := spec.width.elim [] decimal
  precision := spec.precision.map decimal
  verb := spec.verb

/-- The plainest placeholder that means a spec. -/
def print (spec : Spec) : Bytes :=
  percent :: spec.plainParts.modifiers ++ [spec.verb.byte]

/-- The flags that are written are flags, and they are the given ones. -/
theorem flagBytes_spec (minus plus sharp space zero : Bool) :
    (∀ b ∈ flagBytes minus plus sharp space zero, b ∈ utf8 "-+# 0") ∧
      (flagBytes minus plus sharp space zero).contains '-'.toUInt8 = minus ∧
      (flagBytes minus plus sharp space zero).contains '+'.toUInt8 = plus ∧
      (flagBytes minus plus sharp space zero).contains '#'.toUInt8 = sharp ∧
      (flagBytes minus plus sharp space zero).contains ' '.toUInt8 = space ∧
      (flagBytes minus plus sharp space zero).contains '0'.toUInt8 = zero := by
  revert minus plus sharp space zero
  decide +kernel

/-- The plainest parts of a regular spec are well formed. -/
theorem Regular.wellFormed_plainParts (h : spec.Regular) : spec.plainParts.WellFormed where
  flags := (flagBytes_spec ..).1
  width := by
    cases hw : spec.width with
    | none => exact .inl (by rw [plainParts, hw, Option.elim_none])
    | some n =>
      obtain ⟨hpos, hbound⟩ := h.width n hw
      obtain ⟨first, more, hdecimal, hne⟩ := Numeral.decimal_head (Nat.ne_of_gt hpos)
      have hdigits := Numeral.isDigit_of_mem_decimal n
      have hlength : (decimal n).length ≤ 6 := Numeral.length_decimal_le (by decide) (by omega)
      rw [hdecimal] at hdigits hlength
      obtain ⟨hfirst, hmore⟩ := List.forall_mem_cons.mp hdigits
      refine .inr ⟨first, more, by rw [plainParts, hw, Option.elim_some, hdecimal], hfirst, hne,
        hmore, Nat.le_of_succ_le_succ hlength⟩
  precision digits hdigits := by
    obtain ⟨n, hn, rfl⟩ := Option.map_eq_some_iff.mp hdigits
    have hbound := h.precision n hn
    exact ⟨Numeral.isDigit_of_mem_decimal n, Numeral.length_decimal_le (by decide) (by omega)⟩

/-- The plainest parts of a regular spec mean it. -/
theorem Regular.meaning_plainParts (h : spec.Regular) : spec.plainParts.meaning = spec := by
  obtain ⟨verb, minus, plus, sharp, space, zero, width, precision⟩ := spec
  obtain ⟨_, hminus, hplus, hsharp, hspace, hzero⟩ := flagBytes_spec minus plus sharp space zero
  have hcancel : (zero && !minus) = zero := by
    cases minus with
    | false => exact Bool.and_true zero
    | true => rw [show zero = false from h.zero rfl, Bool.false_and]
  have hwidth : (if width.elim [] decimal = [] then none
      else some (value (width.elim [] decimal))) = width := by
    cases width with
    | none => rfl
    | some n =>
      obtain ⟨first, more, hdecimal, _⟩ := Numeral.decimal_head (Nat.ne_of_gt (h.width n rfl).1)
      have hne : decimal n ≠ [] := hdecimal ▸ List.cons_ne_nil first more
      rw [Option.elim_some, if_neg hne, Numeral.value_decimal]
  have hprecision : (precision.map decimal).map value = precision := by
    rw [Option.map_map, show value ∘ decimal = id from funext Numeral.value_decimal, Option.map_id]
    rfl
  simp only [Parts.meaning, plainParts, hminus, hplus, hsharp, hspace, hzero, hcancel,
    hprecision]
  exact congrArg (Spec.mk verb minus plus sharp space zero · precision) hwidth

/-- Well-formed parts contain no backslash. -/
theorem Parts.WellFormed.filter_modifiers (h : q.WellFormed) :
    q.modifiers.filter (fun b => b != backslash) = q.modifiers := by
  have hflag : ∀ b ∈ utf8 "-+# 0", (b != backslash) = true := by decide +kernel
  have hdigit (b : UInt8) (hb : isDigit b = true) : (b != backslash) = true := by
    rw [bne_iff_ne]
    rintro rfl
    exact absurd hb (by decide)
  rw [List.filter_eq_self]
  intro b hb
  rcases List.mem_append.mp hb with hb | hb
  · exact hflag b (h.flags b hb)
  rcases List.mem_append.mp hb with hb | hb
  · exact hdigit b (h.isDigit_width.1 b hb)
  · cases hp : q.precision with
    | none =>
      rw [hp] at hb
      cases hb
    | some digits =>
      rw [hp] at hb
      rcases List.mem_cons.mp hb with rfl | hb
      · decide
      · exact hdigit b ((h.precision digits hp).1 b hb)

/-- A regular spec is read from its plainest writing. -/
theorem Regular.parse_print (h : spec.Regular) : parse spec.print = .ok spec :=
  parse_eq_ok_iff.mpr ⟨spec.plainParts, h.wellFormed_plainParts,
    ⟨spec.plainParts.modifiers, rfl, h.wellFormed_plainParts.filter_modifiers⟩,
    h.meaning_plainParts⟩

/-- A placeholder is accepted exactly when it is a percent sign, well-formed parts between which
any backslashes stand, and one of the verbs. Then it means what its parts mean. The specs that
are read in this way are the regular ones, and each of them is read again from its plainest
writing. -/
theorem parse_accepts_exactly_well_formed :
    (∀ p, (∃ spec, parse p = .ok spec) ↔ ∃ q : Parts, q.WellFormed ∧ q.Writes p) ∧
    (∀ (q : Parts) (p : Bytes), q.WellFormed → q.Writes p → parse p = .ok q.meaning) ∧
    (∀ b, (∃ v : Verb, v.byte = b) ↔ b ∈ utf8 "dfvbopxXctsTqUeEgG") ∧
    (∀ spec, (∃ p, parse p = .ok spec) ↔ spec.Regular) ∧
    ∀ spec, (∃ p, parse p = .ok spec) → parse spec.print = .ok spec := by
  have hregular (spec : Spec) (h : ∃ p, parse p = .ok spec) : spec.Regular := by
    obtain ⟨p, h⟩ := h
    obtain ⟨q, hq, _, rfl⟩ := parse_eq_ok_iff.mp h
    exact hq.regular
  refine ⟨fun p => ⟨?_, ?_⟩, ?_, fun b => exists_byte_eq_iff, fun spec => ⟨hregular spec, ?_⟩, ?_⟩
  · rintro ⟨spec, h⟩
    obtain ⟨q, hq, hwrites, _⟩ := parse_eq_ok_iff.mp h
    exact ⟨q, hq, hwrites⟩
  · rintro ⟨q, hq, hwrites⟩
    exact ⟨q.meaning, parse_eq_ok_iff.mpr ⟨q, hq, hwrites, rfl⟩⟩
  · intro q p hq hwrites
    exact parse_eq_ok_iff.mpr ⟨q, hq, hwrites, rfl⟩
  · intro h
    exact ⟨spec.print, h.parse_print⟩
  · intro spec h
    exact (hregular spec h).parse_print

/-- Flags repeat and cancel, a zero is a flag and then a digit, the point has no digits behind
it, and backslashes stand everywhere between. -/
theorem parse_accepts_exactly_well_formed_backslashes :
    parse (utf8 "%\\0+-\\+1\\0\\.\\X") =
      .ok ⟨.hexUpper, true, true, false, false, false, some 10, some 0⟩ ∧
    parse (utf8 "%-+10.0X") =
      .ok ⟨.hexUpper, true, true, false, false, false, some 10, some 0⟩ := by
  have wellFormed : Parts.WellFormed ⟨utf8 "0+-+", utf8 "10", some [], .hexUpper⟩ := by
    refine ⟨by decide +kernel, .inr ⟨'1'.toUInt8, utf8 "0", ?_⟩, ?_⟩
    · decide +kernel
    · rintro digits ⟨⟩
      simp
  have writes : Parts.Writes ⟨utf8 "0+-+", utf8 "10", some [], .hexUpper⟩
      (utf8 "%\\0+-\\+1\\0\\.\\X") :=
    ⟨utf8 "\\0+-\\+1\\0\\.\\", by decide +kernel, by decide +kernel⟩
  have meaning : Parts.meaning ⟨utf8 "0+-+", utf8 "10", some [], .hexUpper⟩ =
      ⟨.hexUpper, true, true, false, false, false, some 10, some 0⟩ := by decide +kernel
  have plain : print ⟨.hexUpper, true, true, false, false, false, some 10, some 0⟩ =
      utf8 "%-+10.0X" := by decide +kernel
  obtain ⟨_, hmeans, _, _, hprint⟩ := parse_accepts_exactly_well_formed
  have read := hmeans _ _ wellFormed writes
  rw [meaning] at read
  exact ⟨read, plain ▸ hprint _ ⟨_, read⟩⟩

end LeveledLog.Spec
