import LeveledLog.Proofs.Numeral
import LeveledLog.Rendering.Integer

/-!
# Digits in a base

Digits in one of the four bases stand for a number. The numeral of a number consists of digits
of its base and stands for the number, and zeros in front of digits change nothing.
-/

namespace LeveledLog.Radix

open Numeral (digitByte digitValue text zeros)

/-- The digit ten. -/
def firstLetter (upper : Bool) : Char := if upper then 'A' else 'a'

/-- The number that a digit stands for. Beyond nine the digits are letters of one case. -/
def digit? (upper : Bool) (b : UInt8) : Option Nat :=
  if Numeral.isDigit b then some (digitValue b)
  else if (firstLetter upper).toNat ≤ b.toNat ∧ b.toNat < (firstLetter upper).toNat + 6 then
    some (10 + (b.toNat - (firstLetter upper).toNat))
  else none

/-- Whether a byte is a digit of the base. -/
def isDigit (radix : Radix) (upper : Bool) (b : UInt8) : Bool :=
  (digit? upper b).any fun d => d < radix.base

/-- The number that digits of the base stand for. -/
def valueOf (radix : Radix) (upper : Bool) (s : Bytes) : Nat :=
  s.foldl (fun total b => radix.base * total + (digit? upper b).getD 0) 0

variable (radix : Radix) (upper : Bool) {b : UInt8}

theorem two_le_base : 2 ≤ radix.base := by cases radix <;> decide

theorem base_le_sixteen : radix.base ≤ 16 := by cases radix <;> decide

theorem digit?_digitByte {d : Nat} (h : d < 16) : digit? upper (digitByte upper d) = some d := by
  revert h d
  cases upper <;> decide

theorem isDigit_digitByte {d : Nat} (h : d < radix.base) :
    radix.isDigit upper (digitByte upper d) = true := by
  rw [isDigit, digit?_digitByte upper (h.trans_le radix.base_le_sixteen)]
  simpa using h

/-- A digit is a decimal digit or one of six letters, which stand for more than nine. -/
theorem digit?_eq_some {upper : Bool} {d : Nat} (h : digit? upper b = some d) :
    (Numeral.isDigit b = true ∧ 48 ≤ b.toNat ∧ b.toNat ≤ 57 ∧ d = digitValue b) ∨
      (10 ≤ d ∧ (firstLetter upper).toNat ≤ b.toNat ∧
        b.toNat < (firstLetter upper).toNat + 6) := by
  unfold digit? at h
  split at h
  case isTrue hb =>
    have hrange := hb
    simp only [Numeral.isDigit, Bool.and_eq_true, decide_eq_true_eq,
      UInt8.le_iff_toNat_le] at hrange
    exact .inl ⟨hb, hrange.1, hrange.2, (Option.some.inj h).symm⟩
  case isFalse =>
    split at h
    case isTrue hb =>
      obtain rfl := Option.some.inj h
      exact .inr ⟨Nat.le_add_right .., hb⟩
    case isFalse => cases h

/-- In base ten the digits are the decimal ones, in either case. -/
theorem isDigit_decimal (b : UInt8) : decimal.isDigit upper b = Numeral.isDigit b := by
  cases hdigit : digit? upper b with
  | none =>
    have hno : ¬ Numeral.isDigit b = true := by
      intro hb
      rw [digit?, if_pos hb] at hdigit
      cases hdigit
    rw [isDigit, hdigit, Option.any_none, Bool.eq_false_iff.mpr hno]
  | some d =>
    have hbase : decimal.base = 10 := rfl
    rw [isDigit, hdigit, Option.any_some, hbase]
    rcases digit?_eq_some hdigit with ⟨hb, hlow, hhigh, rfl⟩ | ⟨hd, hlow, hhigh⟩
    · have hzero : '0'.toNat = 48 := rfl
      rw [hb, decide_eq_true_eq, digitValue]
      omega
    · have hno : ¬ Numeral.isDigit b = true := by
        intro hb
        rw [digit?, if_pos hb] at hdigit
        have hfirst : 65 ≤ (firstLetter upper).toNat := by cases upper <;> decide
        simp only [Numeral.isDigit, Bool.and_eq_true, decide_eq_true_eq,
          UInt8.le_iff_toNat_le] at hb
        have hnine : '9'.toUInt8.toNat = 57 := rfl
        omega
      rw [Bool.eq_false_iff.mpr hno, decide_eq_false_iff_not]
      omega

theorem isDigit_of_mem_text (n : Nat) :
    ∀ b ∈ text radix.base upper n, radix.isDigit upper b = true := by
  intro b hb
  obtain ⟨d, hd, rfl⟩ := List.mem_map.mp hb
  exact radix.isDigit_digitByte upper (Numeral.digits_lt radix.two_le_base n d hd)

theorem isDigit_zero : radix.isDigit upper '0'.toUInt8 = true :=
  radix.isDigit_digitByte upper (d := 0) (by have := radix.two_le_base; omega)

theorem isDigit_of_mem_zeros {n : Nat} (h : b ∈ zeros n) : radix.isDigit upper b = true := by
  rw [List.eq_of_mem_replicate h]
  exact radix.isDigit_zero upper

/-- A digit is a visible character. -/
theorem visible_of_isDigit {radix : Radix} {upper : Bool} (h : radix.isDigit upper b = true) :
    0x20 < b.toNat ∧ b.toNat < 0x7F := by
  obtain ⟨d, hdigit, _⟩ := (Option.any_eq_true _ _).mp h
  have hfirst : 65 ≤ (firstLetter upper).toNat ∧ (firstLetter upper).toNat ≤ 97 := by
    cases upper <;> decide
  rcases digit?_eq_some hdigit with ⟨_, hlow, hhigh, _⟩ | ⟨_, hlow, hhigh⟩ <;> omega

theorem valueOf_concat (s : Bytes) (b : UInt8) :
    radix.valueOf upper (s ++ [b]) =
      radix.base * radix.valueOf upper s + (digit? upper b).getD 0 := List.foldl_concat ..

/-- The value of digits in a row is that of the first ones at their place and that of the rest. -/
theorem valueOf_append (s t : Bytes) : radix.valueOf upper (s ++ t) =
    radix.valueOf upper s * radix.base ^ t.length + radix.valueOf upper t := by
  induction t using List.reverseRecOn with
  | nil =>
    rw [List.append_nil, List.length_nil, pow_zero, Nat.mul_one]
    rfl
  | append_singleton t b ih =>
    rw [← List.append_assoc, valueOf_concat, ih, valueOf_concat, List.length_append,
      List.length_singleton, pow_succ]
    ring

theorem valueOf_zeros (n : Nat) : radix.valueOf upper (zeros n) = 0 := by
  induction n with
  | zero => rfl
  | succ n ih =>
    have hzero : digit? upper '0'.toUInt8 = some 0 := by cases upper <;> rfl
    rw [zeros, List.replicate_succ', valueOf_concat, hzero]
    exact Nat.add_eq_zero_iff.mpr ⟨Nat.mul_eq_zero.mpr (.inr ih), rfl⟩

/-- Zeros in front change no value. -/
theorem valueOf_zeros_append (n : Nat) (s : Bytes) :
    radix.valueOf upper (zeros n ++ s) = radix.valueOf upper s := by
  rw [valueOf_append, valueOf_zeros, Nat.zero_mul, Nat.zero_add]

/-- The numeral of a number stands for the number. -/
theorem valueOf_text (n : Nat) : radix.valueOf upper (text radix.base upper n) = n := by
  have htwo := radix.two_le_base
  have hsixteen := radix.base_le_sixteen
  induction n using Nat.strong_induction_on with
  | _ n ih =>
    by_cases h : n < radix.base
    · rw [Numeral.text_of_lt upper h, ← List.nil_append [_], valueOf_concat,
        digit?_digitByte upper (h.trans_le hsixteen)]
      exact Nat.zero_add n
    · have hlast := Nat.mod_lt n (show radix.base > 0 by omega)
      rw [Numeral.text_of_le htwo upper (Nat.le_of_not_lt h), valueOf_concat,
        ih _ (Nat.div_lt_self (by omega) (by omega)),
        digit?_digitByte upper (hlast.trans_le hsixteen)]
      exact Nat.div_add_mod n radix.base

/-- The byte that two digits in base sixteen stand for. -/
def byte? (upper : Bool) (high low : UInt8) : Option UInt8 :=
  (digit? upper high).bind fun high =>
    (digit? upper low).map fun low => UInt8.ofNat (16 * high + low)

/-- The two digits of a byte stand for the byte. -/
theorem byte?_digitByte (b : UInt8) : byte? upper (digitByte upper (b.toNat / 16))
    (digitByte upper (b.toNat % 16)) = some b := by
  have hb := b.toNat_lt
  have hhigh := digit?_digitByte upper (d := b.toNat / 16) (by omega)
  have hlow := digit?_digitByte upper (d := b.toNat % 16) (by omega)
  rw [byte?, hhigh, hlow, Option.bind_some, Option.map_some, Nat.div_add_mod, UInt8.ofNat_toNat]

/-- Decimal digits stand for the same number in base ten. -/
theorem valueOf_decimal {s : Bytes} (h : ∀ b ∈ s, Numeral.isDigit b = true) :
    decimal.valueOf upper s = Numeral.value s := by
  induction s using List.reverseRecOn with
  | nil => rfl
  | append_singleton s b ih =>
    have hdigit : digit? upper b = some (digitValue b) := if_pos (h b (by simp))
    rw [valueOf_concat, Numeral.value_concat, hdigit, Option.getD_some,
      ih fun c hc => h c (List.mem_append_left _ hc)]
    rfl

end LeveledLog.Radix
