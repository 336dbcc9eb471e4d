import LeveledLog.Proofs.Binary64.Pattern

/-!
# The interval of a pattern

The numbers that are rounded to a pattern are those within half a gap on either side, the ends
included if the pattern is even. The gap below is as wide as the gap above, except at the
beginning of a run, where it is narrower. So what is no further from the number of a pattern than
something that is rounded to the pattern is rounded to it, too, unless that lies above the
beginning of a run.
-/

namespace LeveledLog.Binary64

variable {r s : ℚ} {p q : Nat}

/-- A number above that of its pattern is no further away than half the gap. -/
theorem IsNearest.above (h : IsNearest r p) (hp : p < infinity) :
    2 * (r - valueAt p) ≤ gap p ∧ (2 * (r - valueAt p) = gap p → Even p) := by
  have hgap := gap_pos p
  have hnext : r - valueAt (p + 1) = r - valueAt p - gap p := by
    rw [valueAt_succ]
    ring
  constructor
  · have hnear := h.near (p + 1) hp
    rw [hnext] at hnear
    rcases abs_cases (r - valueAt p) with ⟨h₁, _⟩ | ⟨h₁, _⟩ <;>
      rcases abs_cases (r - valueAt p - gap p) with ⟨h₂, _⟩ | ⟨h₂, _⟩ <;>
      rw [h₁, h₂] at hnear <;> linarith
  · intro hhalf
    have hmirror : r - valueAt p - gap p = -(r - valueAt p) := by linarith
    refine h.even (p + 1) hp (Nat.succ_ne_self p) ?_
    rw [hnext, hmirror, abs_neg]

/-- A number below that of its pattern is no further away than half the gap. -/
theorem IsNearest.below (h : IsNearest r (q + 1)) :
    2 * (valueAt (q + 1) - r) ≤ gap q ∧ (2 * (valueAt (q + 1) - r) = gap q → Even (q + 1)) := by
  have hgap := gap_pos q
  have hq : q ≤ infinity := (Nat.le_succ q).trans h.inRange
  have hprevious : r - valueAt q = r - valueAt (q + 1) + gap q := by
    rw [valueAt_succ]
    ring
  constructor
  · have hnear := h.near q hq
    rw [hprevious] at hnear
    rcases abs_cases (r - valueAt (q + 1)) with ⟨h₁, _⟩ | ⟨h₁, _⟩ <;>
      rcases abs_cases (r - valueAt (q + 1) + gap q) with ⟨h₂, _⟩ | ⟨h₂, _⟩ <;>
      rw [h₁, h₂] at hnear <;> linarith
  · intro hhalf
    have hmirror : r - valueAt (q + 1) + gap q = -(r - valueAt (q + 1)) := by linarith
    refine h.even q hq (Nat.succ_ne_self q).symm ?_
    rw [hprevious, hmirror, abs_neg]

theorem gap_le_succ (q : Nat) : gap q ≤ gap (q + 1) := by
  have hfield : q / fractions - 1 ≤ (q + 1) / fractions - 1 :=
    Nat.sub_le_sub_right (Nat.div_le_div_right (Nat.le_succ q)) 1
  exact zpow_le_zpow_right₀ one_le_two (by omega)

/-- The gaps on the two sides of a pattern are equally wide, except at the beginning of a run. -/
theorem gap_eq_succ (h : ¬ ((q + 1) % fractions = 0 ∧ 2 ≤ (q + 1) / fractions)) :
    gap q = gap (q + 1) := by
  have hfield : q / fractions - 1 = (q + 1) / fractions - 1 := by
    unfold fractions at *
    omega
  rw [gap, gap, hfield]

/-- A number no further away than one that is rounded to the pattern is rounded to it, too, if
that one is not above the pattern or if the gaps on its two sides are equally wide. -/
theorem IsNearest.closer (h : IsNearest r (q + 1)) (hp : q + 1 < infinity)
    (hs : |s - valueAt (q + 1)| ≤ |r - valueAt (q + 1)|)
    (hside : r ≤ valueAt (q + 1) ∨ gap q = gap (q + 1)) : IsNearest s (q + 1) := by
  obtain ⟨habove, habovetie⟩ := h.above hp
  obtain ⟨hbelow, hbelowtie⟩ := h.below
  have hgaps := gap_le_succ q
  -- What is rounded to the pattern is within half the narrower gap.
  obtain ⟨hhalf, htie⟩ : 2 * |r - valueAt (q + 1)| ≤ gap q ∧
      (2 * |r - valueAt (q + 1)| = gap q → Even (q + 1)) := by
    rcases le_or_gt r (valueAt (q + 1)) with hle | hgt
    · rw [abs_sub_comm, abs_of_nonneg (sub_nonneg.mpr hle)]
      exact ⟨hbelow, hbelowtie⟩
    · have hequal := hside.resolve_left (not_le.mpr hgt)
      rw [abs_of_pos (sub_pos.mpr hgt), hequal]
      exact ⟨habove, habovetie⟩
  have hup : s - valueAt (q + 1) ≤ |s - valueAt (q + 1)| := le_abs_self _
  have hdown : valueAt (q + 1) - s ≤ |s - valueAt (q + 1)| := by
    rw [abs_sub_comm]
    exact le_abs_self _
  refine isNearest_of_half hp.le (fun _ => by linarith) ?_ ?_
  · rintro _ ⟨rfl⟩
    linarith
  · intro hodd
    have hless : 2 * |r - valueAt (q + 1)| < gap q := lt_of_le_of_ne hhalf (mt htie hodd)
    refine ⟨fun _ hequal => by linarith, ?_⟩
    rintro _ ⟨rfl⟩ hequal
    linarith

end LeveledLog.Binary64
