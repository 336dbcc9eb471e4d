import LeveledLog.Proofs.Binary64.Nearest
import LeveledLog.Proofs.Word
import LeveledLog.Rendering.Value

/-!
# Forms of renderings

A verb makes text, a whole number in a base or a number with a point of an argument it accepts.
An argument in the form of a whole number is rendered as a word or an address, one in the form
of a number with a point as the binary number it holds or is nearest to, and every other one as
plain text.
-/

namespace LeveledLog

/-- What a verb makes of an argument. -/
inductive Form where
  | text
  /-- A whole number in a base. -/
  | whole (radix : Radix)
  /-- A number with a point in a base. -/
  | real (radix : Radix)
  deriving DecidableEq, Repr

namespace Verb

/-- What the verb makes of a kind of arguments that it accepts. -/
def form : Verb → Kind → Form
  | .decimal, _ => .whole .decimal
  | .binary, _ => .whole .binary
  | .octal, _ => .whole .octal
  | .pointer, _ => .whole .hexadecimal
  | .hex, k | .hexUpper, k =>
    match k with
    | .string => .text
    | .float => .real .hexadecimal
    | _ => .whole .hexadecimal
  | .scientific, _ | .scientificUpper, _ | .fixed, _ | .general, _ | .generalUpper, _ =>
    .real .decimal
  | .default, k | .text, k =>
    match k with
    | .int | .uint => .whole .decimal
    | .pointer => .whole .hexadecimal
    | .float => .real .decimal
    | _ => .text
  | .char, _ | .bool, _ | .type, _ | .quoted, _ | .unicode, _ => .text

/-- Whether the verb writes letters in numbers as capitals. -/
def isUpper (v : Verb) : Bool := v == .hexUpper || v == .scientificUpper || v == .generalUpper

/-- Numbers with a point are written in base ten or sixteen. -/
theorem radix_of_real {v : Verb} {k : Kind} {radix : Radix} (h : v.form k = .real radix) :
    radix = .decimal ∨ radix = .hexadecimal := by
  revert h
  cases v <;> cases k <;> simp [form] <;> tauto

end Verb

namespace Argument

/-- The whole number that an argument is. -/
def number? : Argument → Option Int
  | .int n => some n.toInt
  | .uint n => some n.toNat
  | .char c => some c.toNat
  | .pointer p => some p.toNat
  | .duration d => some d.nanoseconds.toInt
  | _ => none

/-- The binary number that stands for an argument under a verb for numbers with a point. -/
def real? : Argument → Option Binary64
  | .int n => some (.ofInt n.toInt)
  | .uint n => some (.ofInt n.toNat)
  | .float x => some x
  | _ => none

/-- An argument is no infinity and stands for a number if it is of a kind that does. -/
def IsFinite : Argument → Prop
  | .float x => x.magnitude < Binary64.infinity
  | _ => True

/-- An argument is no infinity and stands for a number exactly if its binary number is finite. -/
theorem isFinite_iff {a : Argument} {x : Binary64} (h : a.real? = some x) :
    a.IsFinite ↔ x.magnitude < Binary64.infinity := by
  have hword (n : Int) (hn : n.natAbs ≤ 2 ^ 64) :
      (Binary64.ofInt n).magnitude < Binary64.infinity := by
    rw [Binary64.ofInt, Binary64.magnitude_ofRatio]
    exact Binary64.nearestMagnitude_lt_infinity hn
  cases a with
  | int n =>
    obtain rfl := Option.some.inj h
    have hlow := n.le_toInt
    have hhigh := n.toInt_lt
    exact iff_of_true trivial (hword _ (by omega))
  | uint n =>
    obtain rfl := Option.some.inj h
    have hhigh := n.toNat_lt
    exact iff_of_true trivial (hword _ (by omega))
  | float y =>
    obtain rfl := Option.some.inj h
    exact Iff.rfl
  | bool _ | char _ | string _ | pointer _ | duration _ => cases h

end Argument

namespace Rendering

variable {spec : Spec} {a : Argument} {radix : Radix}

/-- The flags that count for whole numbers of a kind: addresses have no sign, and the verbs that
are not for hexadecimal numbers turn the alternate form around. -/
def wholeSpec (spec : Spec) (k : Kind) : Spec :=
  if k = .pointer then
    { spec with
      plus := false
      space := false
      sharp := if spec.verb == .hex || spec.verb == .hexUpper then spec.sharp else !spec.sharp }
  else spec

@[simp] theorem precision_wholeSpec (spec : Spec) (k : Kind) :
    (wholeSpec spec k).precision = spec.precision := by
  unfold wholeSpec
  split <;> rfl

/-- The kinds whose arguments are words. -/
def wordKinds : List Kind := [.int, .uint, .char, .duration]

/-- A word in the form of a whole number is written in the base of the form. -/
theorem whole_of_whole {k : Kind} (hk : k ∈ wordKinds) (haccepts : spec.verb.accepts k = true)
    (hform : spec.verb.form k = .whole radix) (w : Word) : whole spec w =
      integer (wholeSpec spec k) radix spec.verb.isUpper (decide (w.toInt < 0)) w.toInt.natAbs := by
  have hword : whole spec w = word spec w ∧ Radix.ofVerb spec.verb = radix ∧
      (spec.verb == .hexUpper) = spec.verb.isUpper ∧ wholeSpec spec k = spec := by
    unfold whole wholeSpec
    revert hk haccepts hform
    generalize spec.verb = v
    cases v <;> cases k <;> simp [wordKinds, Verb.accepts, Verb.form] <;> rintro rfl <;> decide
  obtain ⟨hword, hradix, hupper, hspec⟩ := hword
  rw [hword, word, hradix, hupper, hspec, w.negative_eq, w.toNat_magnitude]

/-- A word in the form of a number with a point is written as the nearest binary number. -/
theorem whole_of_real {k : Kind} (hk : k ∈ wordKinds) (hform : spec.verb.form k = .real radix)
    (w : Word) : whole spec w = real spec (.ofInt w.toInt) := by
  unfold whole
  revert hk hform
  generalize spec.verb = v
  cases v <;> cases k <;> simp [wordKinds, Verb.form]

/-- A word in the form of text is written plainly. -/
theorem whole_of_text {k : Kind} (hk : k ∈ wordKinds) (haccepts : spec.verb.accepts k = true)
    (hform : spec.verb.form k = .text) (htype : spec.verb ≠ .type)
    (hdefault : spec.verb.isDefault = false) (w : Word) : ∃ s, whole spec w = plain s := by
  unfold whole
  revert hk haccepts hform htype hdefault
  generalize spec.verb = v
  cases v <;> cases k <;> simp [wordKinds, Verb.accepts, Verb.form, Verb.isDefault]

/-- An argument in the form of a whole number is written as that number. -/
theorem ofArgument_whole (haccepts : spec.verb.accepts a.kind = true)
    (hform : spec.verb.form a.kind = .whole radix) : ∃ n, a.number? = some n ∧
      ofArgument spec a =
        integer (wholeSpec spec a.kind) radix spec.verb.isUpper (decide (n < 0)) n.natAbs := by
  have htype : spec.verb ≠ .type := by
    intro htype
    rw [htype] at hform
    cases hform
  unfold ofArgument
  rw [if_neg htype]
  have hkinds : a.kind ≠ .bool ∧ a.kind ≠ .float ∧ a.kind ≠ .string ∧
      (a.kind = .char ∨ a.kind = .duration → spec.verb.isDefault = false) ∧
      (a.kind = .pointer → radix = .hexadecimal ∧
        (spec.verb == .hexUpper) = spec.verb.isUpper) := by
    revert haccepts hform
    generalize spec.verb = v
    generalize a.kind = k
    cases v <;> cases k <;> simp [Verb.accepts, Verb.form, Verb.isDefault] <;> rintro rfl <;> decide
  obtain ⟨hbool, hfloat, hstring, hdefault, hpointer⟩ := hkinds
  cases a with
  | bool b => exact absurd rfl hbool
  | int n => exact ⟨_, rfl, whole_of_whole (k := .int) (by decide) haccepts hform (.signed n)⟩
  | uint n => exact ⟨_, rfl, whole_of_whole (k := .uint) (by decide) haccepts hform (.unsigned n)⟩
  | float x => exact absurd rfl hfloat
  | char c =>
    have hwhole := whole_of_whole (k := .char) (by decide) haccepts hform (.signed (.ofNat c.toNat))
    rw [Word.toInt_ofByte] at hwhole
    dsimp only
    rw [hdefault (.inl rfl)]
    exact ⟨_, rfl, hwhole⟩
  | string s => exact absurd rfl hstring
  | pointer p =>
    obtain ⟨rfl, hupper⟩ := hpointer rfl
    have hsign : decide ((p.toNat : Int) < 0) = false := decide_eq_false (by omega)
    refine ⟨p.toNat, rfl, ?_⟩
    rw [hsign, Int.natAbs_natCast, ← hupper]
    rfl
  | duration d =>
    dsimp only
    rw [hdefault (.inr rfl)]
    exact ⟨_, rfl, whole_of_whole (k := .duration) (by decide) haccepts hform (.signed _)⟩

/-- An argument in the form of a number with a point is written as a binary number. -/
theorem ofArgument_real (haccepts : spec.verb.accepts a.kind = true)
    (hform : spec.verb.form a.kind = .real radix) :
    ∃ x, a.real? = some x ∧ ofArgument spec a = real spec x := by
  have htype : spec.verb ≠ .type := by
    intro htype
    rw [htype] at hform
    cases hform
  unfold ofArgument
  rw [if_neg htype]
  have hkinds : a.kind = .int ∨ a.kind = .uint ∨ a.kind = .float := by
    revert haccepts hform
    generalize spec.verb = v
    generalize a.kind = k
    cases v <;> cases k <;> simp [Verb.accepts, Verb.form]
  cases a with
  | int n => exact ⟨_, rfl, whole_of_real (k := .int) (by decide) hform (.signed n)⟩
  | uint n => exact ⟨_, rfl, whole_of_real (k := .uint) (by decide) hform (.unsigned n)⟩
  | float x => exact ⟨x, rfl, rfl⟩
  | bool _ | char _ | string _ | pointer _ | duration _ => simp [Argument.kind] at hkinds

/-- An argument in the form of text is written plainly. -/
theorem ofArgument_text (haccepts : spec.verb.accepts a.kind = true)
    (hform : spec.verb.form a.kind = .text) : ∃ s, ofArgument spec a = plain s := by
  unfold ofArgument
  split
  · exact ⟨_, rfl⟩
  case isFalse htype =>
    have hkinds : a.kind ≠ .float ∧ a.kind ≠ .pointer ∧
        (a.kind = .int ∨ a.kind = .uint → spec.verb.isDefault = false) := by
      revert haccepts hform htype
      generalize spec.verb = v
      generalize a.kind = k
      cases v <;> cases k <;> simp [Verb.accepts, Verb.form, Verb.isDefault]
    obtain ⟨hfloat, hpointer, hdefault⟩ := hkinds
    cases a with
    | bool b => exact ⟨_, rfl⟩
    | int n =>
      exact whole_of_text (k := .int) (by decide) haccepts hform htype (hdefault (.inl rfl)) _
    | uint n =>
      exact whole_of_text (k := .uint) (by decide) haccepts hform htype (hdefault (.inr rfl)) _
    | float x => exact absurd rfl hfloat
    | char c =>
      dsimp only
      split
      · exact ⟨_, rfl⟩
      case isFalse h =>
        exact whole_of_text (k := .char) (by decide) haccepts hform htype (by simpa using h) _
    | string s => exact ⟨_, rfl⟩
    | pointer p => exact absurd rfl hpointer
    | duration d =>
      dsimp only
      split
      · exact ⟨_, rfl⟩
      case isFalse h =>
        exact whole_of_text (k := .duration) (by decide) haccepts hform htype (by simpa using h) _

end Rendering

end LeveledLog
