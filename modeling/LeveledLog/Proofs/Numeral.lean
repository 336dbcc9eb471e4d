import LeveledLog.Numeral
import Mathlib

/-!
# Decimal numerals

The numeral of a number consists of digits, has no leading zero unless the number is zero, and
is read back as the number. It has as few digits as the number needs, and the value of a run of
digits is bounded by their number. In as many places, numerals have the order of their numbers.
Behind white space and a sign the digits of an integer are read
to the end of the text.
-/

namespace LeveledLog.Numeral

variable {n : Nat} {s : Bytes}

/-- Digits that are found already stay behind those in front of them. -/
theorem go_append (base n : Nat) (found later : List Nat) :
    digits.go base n (found ++ later) = digits.go base n found ++ later := by
  fun_induction digits.go base n found with
  | case1 n found h => rw [digits.go, if_pos h, List.cons_append]
  | case2 n found h ih => rw [digits.go, if_neg h, ← List.cons_append, ih]

/-- The digits of a number are below the base. -/
theorem digits_lt {base : Nat} (hbase : 2 ≤ base) (n : Nat) : ∀ d ∈ digits base n, d < base := by
  -- The digits that are found already are below the base, too.
  have hgo (found : List Nat) (hfound : ∀ c ∈ found, c < base) :
      ∀ c ∈ digits.go base n found, c < base := by
    fun_induction digits.go base n found with
    | case1 n found hlast =>
      have hlt : n < base := hlast.resolve_right (by omega)
      exact List.forall_mem_cons.mpr ⟨hlt, hfound⟩
    | case2 n found hmore ih =>
      have hlt : n % base < base := Nat.mod_lt _ (by omega)
      exact ih (List.forall_mem_cons.mpr ⟨hlt, hfound⟩)
  exact hgo [] (by simp)

/-- A number below the base is written by one digit. -/
theorem text_of_lt {base : Nat} (upper : Bool) (h : n < base) :
    text base upper n = [digitByte upper n] := by
  rw [text, digits, digits.go, if_pos (.inl h), List.map_singleton]

/-- The last digit of a number stands behind the numeral of what is left without it. -/
theorem text_of_le {base : Nat} (hbase : 2 ≤ base) (upper : Bool) (h : base ≤ n) :
    text base upper n = text base upper (n / base) ++ [digitByte upper (n % base)] := by
  have hsplit : digits base n = digits base (n / base) ++ [n % base] := by
    rw [digits, digits.go, if_neg (by omega)]
    exact go_append base (n / base) [] [n % base]
  rw [text, hsplit, List.map_append, List.map_singleton, text]

/-- A number below a power of the base has no more digits than the power has factors. -/
theorem length_text_le {base k : Nat} (hbase : 2 ≤ base) (upper : Bool) (hk : k ≠ 0)
    (h : n < base ^ k) : (text base upper n).length ≤ k := by
  induction k generalizing n with
  | zero => exact absurd rfl hk
  | succ k ih =>
    by_cases hlt : n < base
    · rw [text_of_lt upper hlt, List.length_singleton]
      omega
    · rw [text_of_le hbase upper (Nat.le_of_not_lt hlt), List.length_append, List.length_singleton]
      have hne : k ≠ 0 := by
        rintro rfl
        rw [zero_add, pow_one] at h
        exact hlt h
      have := ih hne (Nat.div_lt_of_lt_mul (by rwa [pow_succ'] at h))
      omega

/-- A number below ten is written by one digit. -/
theorem decimal_of_lt (h : n < 10) : decimal n = [digitByte false n] := text_of_lt false h

/-- The last digit of a number stands behind the numeral of its tenth. -/
theorem decimal_of_le (h : 10 ≤ n) :
    decimal n = decimal (n / 10) ++ [digitByte false (n % 10)] := text_of_le (by decide) false h

/-- A digit is written by the byte that stands for it. -/
theorem digitByte_of_lt (h : n < 10) :
    isDigit (digitByte false n) = true ∧ digitValue (digitByte false n) = n ∧
      (digitByte false n = '0'.toUInt8 ↔ n = 0) := by
  revert h n
  decide

theorem value_concat (s : Bytes) (b : UInt8) :
    value (s ++ [b]) = 10 * value s + digitValue b := List.foldl_concat ..

/-- A numeral is read back as its number. -/
theorem value_decimal (n : Nat) : value (decimal n) = n := by
  induction n using Nat.strong_induction_on with
  | _ n ih =>
    by_cases h : n < 10
    · rw [decimal_of_lt h, ← List.nil_append [_], value_concat, (digitByte_of_lt h).2.1]
      exact Nat.zero_add n
    · have hlast := Nat.mod_lt n (show 10 > 0 by decide)
      rw [decimal_of_le (Nat.le_of_not_lt h), value_concat, ih _ (by omega),
        (digitByte_of_lt hlast).2.1]
      exact Nat.div_add_mod n 10

/-- A numeral consists of digits. -/
theorem isDigit_of_mem_decimal (n : Nat) : ∀ b ∈ decimal n, isDigit b = true := by
  induction n using Nat.strong_induction_on with
  | _ n ih =>
    by_cases h : n < 10
    · rw [decimal_of_lt h]
      simpa using (digitByte_of_lt h).1
    · have hlast := Nat.mod_lt n (show 10 > 0 by decide)
      rw [decimal_of_le (Nat.le_of_not_lt h)]
      intro b hb
      rcases List.mem_append.mp hb with hb | hb
      · exact ih _ (by omega) b hb
      · rw [List.mem_singleton.mp hb]
        exact (digitByte_of_lt hlast).1

/-- The numeral of a number other than zero does not begin with a zero. -/
theorem decimal_head (h : n ≠ 0) :
    ∃ b more, decimal n = b :: more ∧ b ≠ '0'.toUInt8 := by
  induction n using Nat.strong_induction_on with
  | _ n ih =>
    by_cases hlt : n < 10
    · exact ⟨_, [], decimal_of_lt hlt, mt (digitByte_of_lt hlt).2.2.mp h⟩
    · obtain ⟨b, more, hhead, hne⟩ := ih (n / 10) (by omega) (by omega)
      refine ⟨b, more ++ [digitByte false (n % 10)], ?_, hne⟩
      rw [decimal_of_le (Nat.le_of_not_lt hlt), hhead, List.cons_append]

/-- A number below a power of ten has no more digits than the power has zeros. -/
theorem length_decimal_le {k : Nat} (hk : k ≠ 0) (h : n < 10 ^ k) : (decimal n).length ≤ k :=
  length_text_le (by decide) false hk h

theorem digitValue_le {b : UInt8} (h : isDigit b = true) : digitValue b ≤ 9 := by
  simp only [isDigit, Bool.and_eq_true, decide_eq_true_eq, UInt8.le_iff_toNat_le] at h
  have hnine : '9'.toUInt8.toNat = 57 := rfl
  have hzero : '0'.toNat = 48 := rfl
  unfold digitValue
  omega

theorem digitValue_pos {b : UInt8} (h : isDigit b = true) (hne : b ≠ '0'.toUInt8) :
    0 < digitValue b := by
  have hge : '0'.toNat ≤ b.toNat := by
    simp only [isDigit, Bool.and_eq_true, decide_eq_true_eq, UInt8.le_iff_toNat_le] at h
    exact h.1
  have hne : b.toNat ≠ '0'.toNat := fun h => hne (UInt8.toNat_inj.mp h)
  unfold digitValue
  omega

/-- The value of digits is below ten to the power of their number. -/
theorem value_lt (h : ∀ b ∈ s, isDigit b = true) : value s < 10 ^ s.length := by
  induction s using List.reverseRecOn with
  | nil => exact Nat.zero_lt_one
  | append_singleton s b ih =>
    have hb : digitValue b ≤ 9 := digitValue_le (h b (by simp))
    have := ih fun c hc => h c (List.mem_append_left _ hc)
    rw [value_concat, List.length_append, List.length_singleton, pow_succ]
    omega

/-- The value of digits in a row is that of the first ones at their place and that of the rest. -/
theorem value_append (s t : Bytes) : value (s ++ t) = value s * 10 ^ t.length + value t := by
  induction t using List.reverseRecOn with
  | nil =>
    rw [List.append_nil, List.length_nil, pow_zero, Nat.mul_one]
    rfl
  | append_singleton t b ih =>
    rw [← List.append_assoc, value_concat, ih, value_concat, List.length_append,
      List.length_singleton, pow_succ]
    ring

theorem value_zeros (n : Nat) : value (zeros n) = 0 := by
  induction n with
  | zero => rfl
  | succ n ih =>
    have hzero : digitValue '0'.toUInt8 = 0 := by decide
    rw [zeros, List.replicate_succ', value_concat]
    change 10 * value (zeros n) + digitValue '0'.toUInt8 = 0
    rw [ih, hzero]

/-- Zeros in front change no value. -/
theorem value_zeroPad (width : Nat) (s : Bytes) : value (zeroPad width s) = value s := by
  rw [zeroPad, value_append, value_zeros, Nat.zero_mul, Nat.zero_add]

theorem isDigit_of_mem_zeros {b : UInt8} (h : b ∈ zeros n) : isDigit b = true := by
  rw [List.eq_of_mem_replicate h]
  decide

theorem isDigit_of_mem_zeroPad {width : Nat} (h : ∀ b ∈ s, isDigit b = true) :
    ∀ b ∈ zeroPad width s, isDigit b = true := by
  intro b hb
  rcases List.mem_append.mp hb with hb | hb
  · exact isDigit_of_mem_zeros hb
  · exact h b hb

@[simp] theorem length_zeros (n : Nat) : (zeros n).length = n := List.length_replicate

theorem length_zeroPad (width : Nat) (s : Bytes) :
    (zeroPad width s).length = max width s.length := by
  rw [zeroPad, List.length_append, length_zeros]
  omega

/-- The first digit is worth the power of ten at its place, unless it is a zero. -/
theorem pow_le_value {b : UInt8} (hb : isDigit b = true) (hne : b ≠ '0'.toUInt8) (more : Bytes) :
    10 ^ more.length ≤ value (b :: more) := by
  have hfirst : value [b] = digitValue b := Nat.zero_add _
  have hone : 0 < value [b] := hfirst ▸ digitValue_pos hb hne
  rw [← List.singleton_append, value_append]
  exact (Nat.le_mul_of_pos_left _ hone).trans (Nat.le_add_right _ _)

/-- Digits that do not begin with a zero have a value other than zero. -/
theorem value_pos {b : UInt8} (hb : isDigit b = true) (hne : b ≠ '0'.toUInt8) (more : Bytes) :
    0 < value (b :: more) := (Nat.pow_pos (by decide)).trans_le (pow_le_value hb hne more)

theorem length_decimal_pos (n : Nat) : 0 < (decimal n).length := by
  by_cases h : n = 0
  · rw [h, decimal_of_lt (by decide)]
    exact Nat.zero_lt_one
  · obtain ⟨b, more, hhead, _⟩ := decimal_head h
    rw [hhead]
    exact Nat.succ_pos _

theorem lt_pow_length_decimal (n : Nat) : n < 10 ^ (decimal n).length := by
  have := value_lt (isDigit_of_mem_decimal n)
  rwa [value_decimal] at this

/-- A number is not below the power of ten of its first digit. -/
theorem pow_length_decimal_le (h : n ≠ 0) : 10 ^ ((decimal n).length - 1) ≤ n := by
  by_contra hlt
  by_cases hone : (decimal n).length - 1 = 0
  · rw [hone, pow_zero] at hlt
    omega
  · have := length_decimal_le hone (Nat.lt_of_not_le hlt)
    omega

/-- Between two powers of ten the numerals have the same number of digits. -/
theorem length_decimal_eq {k : Nat} (hlow : 10 ^ k ≤ n) (hhigh : n < 10 ^ (k + 1)) :
    (decimal n).length = k + 1 := by
  have hle := length_decimal_le (Nat.succ_ne_zero k) hhigh
  have hpow : 10 ^ k < 10 ^ (decimal n).length := hlow.trans_lt (lt_pow_length_decimal n)
  have := (Nat.pow_lt_pow_iff_right (by decide)).mp hpow
  omega

/-- Zeros behind a numeral multiply its number by a power of ten. -/
theorem decimal_append_zeros (h : n ≠ 0) (k : Nat) :
    decimal n ++ zeros k = decimal (n * 10 ^ k) := by
  induction k with
  | zero => rw [pow_zero, Nat.mul_one, zeros, List.replicate_zero, List.append_nil]
  | succ k ih =>
    have hpos : 0 < n * 10 ^ k := by positivity
    have hsplit : n * 10 ^ (k + 1) = n * 10 ^ k * 10 := by ring
    have hten : 10 ≤ n * 10 ^ k * 10 := by omega
    have hzeros : zeros (k + 1) = zeros k ++ [digitByte false 0] := List.replicate_succ'
    rw [hsplit, decimal_of_le hten, Nat.mul_div_cancel _ (by decide), Nat.mul_mod_left, ← ih,
      hzeros, List.append_assoc]

/-- Digits in front of the first one that is not zero are zeros. -/
theorem exists_zeros_append (s : Bytes) :
    ∃ count, s = zeros count ++ s.dropWhile fun b => b == '0'.toUInt8 := by
  refine ⟨(s.takeWhile fun b => b == '0'.toUInt8).length, ?_⟩
  have hzeros : s.takeWhile (fun b => b == '0'.toUInt8) =
      zeros (s.takeWhile fun b => b == '0'.toUInt8).length := by
    refine List.eq_replicate_of_mem fun b hb => ?_
    have hzero := List.mem_takeWhile_imp hb
    exact eq_of_beq hzero
  rw [← hzeros, List.takeWhile_append_dropWhile]

theorem head_dropZeros {b : UInt8} {more : Bytes}
    (h : s.dropWhile (fun b => b == '0'.toUInt8) = b :: more) : b ≠ '0'.toUInt8 := by
  have hhead := List.head?_dropWhile_not (fun b => b == '0'.toUInt8) s
  rw [h] at hhead
  simpa using hhead

/-- A value below a power of ten has no more digits from the first one on that is not zero. -/
theorem length_dropZeros_le {k : Nat} (h : ∀ b ∈ s, isDigit b = true) (hk : value s < 10 ^ k) :
    (s.dropWhile fun b => b == '0'.toUInt8).length ≤ k := by
  obtain ⟨count, hsplit⟩ := exists_zeros_append s
  have hvalue : value s = value (s.dropWhile fun b => b == '0'.toUInt8) := by
    conv_lhs => rw [hsplit]
    rw [value_append, value_zeros, Nat.zero_mul, Nat.zero_add]
  cases hrest : s.dropWhile (fun b => b == '0'.toUInt8) with
  | nil => exact Nat.zero_le _
  | cons b more =>
    have hmem : b ∈ s := (List.dropWhile_suffix _).subset (hrest ▸ List.mem_cons_self ..)
    have hlow := pow_le_value (h b hmem) (head_dropZeros hrest) more
    rw [hvalue, hrest] at hk
    have := (Nat.pow_lt_pow_iff_right (by decide)).mp (hlow.trans_lt hk)
    rw [List.length_cons]
    omega

/-- A number below a power of ten takes as many places as the power has zeros. -/
theorem length_zeroPad_decimal {k : Nat} (hk : k ≠ 0) (h : n < 10 ^ k) :
    (zeroPad k (decimal n)).length = k := by
  rw [length_zeroPad, max_eq_left (length_decimal_le hk h)]

/-! ## The order of numerals -/

variable {t : Bytes} {m k : Nat}

/-- Of two texts in a row the first ones decide, unless they are the same. -/
theorem append_lt_append_iff {s s' t t' : Bytes} (h : s.length = s'.length) :
    s ++ t < s' ++ t' ↔ s < s' ∨ s = s' ∧ t < t' := by
  induction s generalizing s' with
  | nil =>
    obtain rfl := List.length_eq_zero_iff.mp h.symm
    simp
  | cons b s ih =>
    obtain ⟨c, s', rfl⟩ := List.exists_cons_of_length_eq_add_one h.symm
    rw [List.cons_append, List.cons_append, List.cons_lt_cons_iff, List.cons_lt_cons_iff,
      ih (Nat.succ.inj h), List.cons.injEq]
    tauto

/-- Digits have the order of their values. -/
theorem digitValue_order {b c : UInt8} (hb : isDigit b = true) (hc : isDigit c = true) :
    (digitValue b < digitValue c ↔ b < c) ∧ (digitValue b = digitValue c ↔ b = c) := by
  have hzero {b : UInt8} (h : isDigit b = true) : '0'.toNat ≤ b.toNat := by
    simp only [isDigit, Bool.and_eq_true, decide_eq_true_eq, UInt8.le_iff_toNat_le] at h
    exact h.1
  have hb := hzero hb
  have hc := hzero hc
  rw [UInt8.lt_iff_toNat_lt, ← UInt8.toNat_inj, digitValue, digitValue]
  omega

/-- Digits in the same number of places have the order of their values. -/
theorem lt_iff_value_lt (hs : ∀ b ∈ s, isDigit b = true) (ht : ∀ b ∈ t, isDigit b = true)
    (h : s.length = t.length) : s < t ↔ value s < value t := by
  induction s generalizing t with
  | nil =>
    obtain rfl := List.length_eq_zero_iff.mp h.symm
    simp
  | cons b s ih =>
    obtain ⟨c, t, rfl⟩ := List.exists_cons_of_length_eq_add_one h.symm
    obtain ⟨hlt, heq⟩ :=
      digitValue_order (hs b (List.mem_cons_self ..)) (ht c (List.mem_cons_self ..))
    have hs : ∀ b ∈ s, isDigit b = true := fun b hb => hs b (List.mem_cons_of_mem _ hb)
    have ht : ∀ b ∈ t, isDigit b = true := fun b hb => ht b (List.mem_cons_of_mem _ hb)
    have h : s.length = t.length := Nat.succ.inj h
    have hcons (b : UInt8) (s : Bytes) :
        value (b :: s) = digitValue b * 10 ^ s.length + value s := by
      have hfirst : value [b] = digitValue b := Nat.zero_add _
      rw [← List.singleton_append, value_append, hfirst]
    have hsvalue := value_lt hs
    have htvalue := value_lt ht
    rw [List.cons_lt_cons_iff, ih hs ht h, ← hlt, ← heq, hcons, hcons, h]
    rw [h] at hsvalue
    -- Unless the first digits are the same, the others cannot make up for their difference.
    rcases Nat.lt_trichotomy (digitValue b) (digitValue c) with hlt | heq | hgt
    · have hmul := Nat.mul_le_mul_right (10 ^ t.length) hlt
      rw [Nat.succ_mul] at hmul
      omega
    · rw [heq]
      omega
    · have hmul := Nat.mul_le_mul_right (10 ^ t.length) hgt
      rw [Nat.succ_mul] at hmul
      omega

/-- Numbers below a power of ten have the order of their numerals in as many places. -/
theorem zeroPad_append_lt_iff (hk : k ≠ 0) (hm : m < 10 ^ k) (hn : n < 10 ^ k) :
    zeroPad k (decimal m) ++ s < zeroPad k (decimal n) ++ t ↔ m < n ∨ m = n ∧ s < t := by
  have hdigits (n : Nat) := @isDigit_of_mem_zeroPad _ k (isDigit_of_mem_decimal n)
  have hvalue (n : Nat) : value (zeroPad k (decimal n)) = n := by
    rw [value_zeroPad, value_decimal]
  have heq : (zeroPad k (decimal m)).length = (zeroPad k (decimal n)).length := by
    rw [length_zeroPad_decimal hk hm, length_zeroPad_decimal hk hn]
  have hinj : zeroPad k (decimal m) = zeroPad k (decimal n) ↔ m = n :=
    ⟨fun h => by rw [← hvalue m, h, hvalue], fun h => by rw [h]⟩
  rw [append_lt_append_iff heq, lt_iff_value_lt (hdigits m) (hdigits n) heq, hvalue, hvalue, hinj]

/-! ## Integers in front of a text -/

variable {spaces sign digits : Bytes}

/-- A text is an integer: white space, a sign or none, and digits. -/
structure IsInteger (s spaces sign digits : Bytes) : Prop where
  text : s = spaces ++ (sign ++ digits)
  isSpace : ∀ b ∈ spaces, isSpace b = true
  sign : sign = [] ∨ sign = utf8 "+" ∨ sign = utf8 "-"
  ne_nil : digits ≠ []
  isDigit : ∀ b ∈ digits, isDigit b = true

/-- A digit is neither white space nor a sign. -/
theorem of_isDigit {b : UInt8} (h : isDigit b = true) :
    isSpace b = false ∧ b ≠ '-'.toUInt8 ∧ b ≠ '+'.toUInt8 := by
  have hall : ∀ n < 58, 48 ≤ n → isSpace (UInt8.ofNat n) = false ∧
      UInt8.ofNat n ≠ '-'.toUInt8 ∧ UInt8.ofNat n ≠ '+'.toUInt8 := by decide
  simp only [isDigit, Bool.and_eq_true, decide_eq_true_eq, UInt8.le_iff_toNat_le] at h
  have hb := hall b.toNat (Nat.lt_succ_of_le h.2) h.1
  rwa [UInt8.ofNat_toNat] at hb

/-- Digits have no sign that could be split off. -/
theorem splitSign_of_isDigit {b : UInt8} (h : isDigit b = true) (more : Bytes) :
    splitSign (b :: more) = (false, b :: more) := by
  obtain ⟨_, hminus, hplus⟩ := of_isDigit h
  simp only [splitSign, beq_iff_eq, hminus, hplus, if_false]

/-- What is split off is a sign, and it is a minus if that is said. -/
theorem splitSign_spec (s : Bytes) : ∃ sign, s = sign ++ (splitSign s).2 ∧
    (sign = [] ∨ sign = utf8 "+" ∨ sign = utf8 "-") ∧
    (splitSign s).1 = decide (sign = utf8 "-") := by
  cases s with
  | nil => exact ⟨[], rfl, .inl rfl, rfl⟩
  | cons b rest =>
    by_cases hminus : b = '-'.toUInt8
    · subst hminus
      exact ⟨utf8 "-", rfl, .inr (.inr rfl), rfl⟩
    by_cases hplus : b = '+'.toUInt8
    · subst hplus
      exact ⟨utf8 "+", rfl, .inr (.inl rfl), rfl⟩
    · have hsplit : splitSign (b :: rest) = (false, b :: rest) := by
        simp only [splitSign, beq_iff_eq, hminus, hplus, if_false]
      rw [hsplit]
      exact ⟨[], rfl, .inl rfl, rfl⟩

/-- An integer is read from the front of a text up to the first byte that is no digit. -/
theorem IsInteger.leading?_append {rest : Bytes} (h : IsInteger s spaces sign digits)
    (hrest : ∀ b ∈ rest.head?, Numeral.isDigit b = false) :
    leading? (s ++ rest) = some ⟨decide (sign = utf8 "-"), value digits, rest⟩ := by
  obtain ⟨b, more, rfl⟩ := List.exists_cons_of_ne_nil h.ne_nil
  have hb := h.isDigit b (List.mem_cons_self ..)
  obtain ⟨htake, hdrop⟩ : rest.takeWhile Numeral.isDigit = [] ∧
      rest.dropWhile Numeral.isDigit = rest := by
    cases rest with
    | nil => exact ⟨rfl, rfl⟩
    | cons c rest =>
      have hc : Numeral.isDigit c = false := hrest c rfl
      exact ⟨List.takeWhile_cons_of_neg (by simp [hc]), List.dropWhile_cons_of_neg (by simp [hc])⟩
  have hdigits : (b :: more ++ rest).takeWhile Numeral.isDigit = b :: more ∧
      (b :: more ++ rest).dropWhile Numeral.isDigit = rest := by
    rw [List.takeWhile_append_of_pos h.isDigit, List.dropWhile_append_of_pos h.isDigit, htake,
      hdrop, List.append_nil]
    exact ⟨rfl, rfl⟩
  have hspaces : (s ++ rest).dropWhile Numeral.isSpace = sign ++ (b :: more ++ rest) := by
    rw [h.text, List.append_assoc, List.append_assoc, List.dropWhile_append_of_pos h.isSpace]
    rcases h.sign with rfl | rfl | rfl
    · exact List.dropWhile_cons_of_neg (by simp [of_isDigit hb])
    · rfl
    · rfl
  have hsplit : splitSign (sign ++ (b :: more ++ rest)) =
      (decide (sign = utf8 "-"), b :: more ++ rest) := by
    rcases h.sign with rfl | rfl | rfl
    · exact splitSign_of_isDigit hb (more ++ rest)
    · rfl
    · rfl
  simp only [Numeral.leading?, hspaces, hsplit, hdigits]

/-- A text that is an integer is read whole. -/
theorem IsInteger.leading? (h : IsInteger s spaces sign digits) :
    leading? s = some ⟨decide (sign = utf8 "-"), value digits, []⟩ := by
  have hread := @IsInteger.leading?_append _ _ _ _ [] h (by simp)
  rwa [List.append_nil] at hread

/-- What is read from the front of a text is an integer that no digit follows. -/
theorem exists_isInteger_append {n : Leading} (h : leading? s = some n) :
    ∃ front spaces sign digits, s = front ++ n.rest ∧ IsInteger front spaces sign digits ∧
      ∀ b ∈ n.rest.head?, isDigit b = false := by
  obtain ⟨sign, htext, hsign, _⟩ := splitSign_spec (s.dropWhile isSpace)
  unfold leading? at h
  dsimp only at h
  split at h
  case h_1 => cases h
  case h_2 hne =>
    cases h
    have hspaces := List.takeWhile_append_dropWhile (p := isSpace) (l := s)
    have hdigits := List.takeWhile_append_dropWhile (p := isDigit)
      (l := (splitSign (s.dropWhile isSpace)).2)
    refine ⟨s.takeWhile isSpace ++ (sign ++ _), s.takeWhile isSpace, sign, _, ?_,
      ⟨rfl, fun b => List.mem_takeWhile_imp, hsign, hne, fun b => List.mem_takeWhile_imp⟩, ?_⟩
    · rw [List.append_assoc, List.append_assoc, hdigits, ← htext, hspaces]
    · intro b hb
      have hhead := List.head?_dropWhile_not isDigit (splitSign (s.dropWhile isSpace)).2
      rw [Option.mem_def.mp hb] at hhead
      simpa using hhead

/-- A text that is read whole is an integer. -/
theorem exists_isInteger {n : Leading} (h : leading? s = some n) (hrest : n.rest = []) :
    ∃ spaces sign digits, IsInteger s spaces sign digits := by
  obtain ⟨front, spaces, sign, digits, htext, hinteger, _⟩ := exists_isInteger_append h
  rw [hrest, List.append_nil] at htext
  exact ⟨spaces, sign, digits, htext ▸ hinteger⟩

end LeveledLog.Numeral
