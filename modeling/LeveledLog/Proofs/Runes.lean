import LeveledLog.Proofs.Utf8

/-!
# Cutting text to a number of runes

The part of a text that a number of runes selects is the longest prefix that starts no more
runes than that. So it ends where a rune starts or where the text ends, and cutting it again
selects what the smaller one of the two numbers selects. A character is encoded as one rune, so
that of well-formed text as many characters are selected as runes.
-/

namespace LeveledLog.Bytes

variable {n m : Nat} {b : UInt8} {s t u : Bytes}

/-- The bytes from 0x80 up to 0xBF continue a rune. -/
theorem continuesRune_iff : continuesRune b = true ↔ 0x80 ≤ b.toNat ∧ b.toNat < 0xC0 := by
  have hall : ∀ high < 4, ∀ low < 64,
      continuesRune (UInt8.ofNat (64 * high + low)) = decide (high = 2) := by decide
  have hbyte := b.toNat_lt
  have hb := hall (b.toNat / 64) (by omega) (b.toNat % 64) (by omega)
  rw [Nat.div_add_mod, UInt8.ofNat_toNat] at hb
  rw [hb, decide_eq_true_iff]
  omega

/-- A byte of ASCII starts a rune. -/
theorem continuesRune_of_ascii (h : b.toNat < 0x80) : continuesRune b = false := by
  rw [← Bool.not_eq_true, continuesRune_iff]
  omega

/-- Text of ASCII has as many runes as bytes. -/
theorem runeCount_of_ascii (h : ∀ b ∈ s, b.toNat < 0x80) : runeCount s = s.length := by
  refine List.countP_eq_length.mpr fun b hb => ?_
  rw [continuesRune_of_ascii (h b hb), Bool.not_false]

/-! ## The longest cut -/

/-- `t` is the longest prefix of `s` that starts at most `n` runes. -/
structure IsLongestCut (n : Nat) (s t : Bytes) : Prop where
  isPrefix : t <+: s
  runeCount_le : runeCount t ≤ n
  longest : ∀ u, u <+: s → runeCount u ≤ n → u <+: t

theorem runePrefixLength_go (n : Nat) (s : Bytes) (passed : Nat) :
    runePrefixLength.go n s passed = runePrefixLength n s + passed := by
  have hgo (passed : Nat) :
      runePrefixLength.go n s passed = runePrefixLength.go n s 0 + passed := by
    induction s generalizing n passed with
    | nil => exact (Nat.zero_add passed).symm
    | cons b rest ih =>
      unfold runePrefixLength.go
      split
      · rw [ih, ih n (0 + 1)]
        omega
      · cases n with
        | zero => exact (Nat.zero_add passed).symm
        | succ n =>
          dsimp only
          rw [ih, ih n (0 + 1)]
          omega
  exact hgo passed

theorem takeRunes_nil (n : Nat) : takeRunes n [] = [] := List.take_nil

theorem takeRunes_of_continues (h : continuesRune b = true) :
    takeRunes n (b :: s) = b :: takeRunes n s := by
  have hstep : runePrefixLength n (b :: s) = runePrefixLength.go n s 1 := by
    cases n <;> exact if_pos h
  rw [takeRunes, hstep, runePrefixLength_go, List.take_succ_cons, takeRunes]

theorem takeRunes_zero (h : continuesRune b = false) : takeRunes 0 (b :: s) = [] := by
  have hlength : runePrefixLength 0 (b :: s) = 0 := if_neg (by simp [h])
  rw [takeRunes, hlength, List.take_zero]

theorem takeRunes_succ (h : continuesRune b = false) :
    takeRunes (n + 1) (b :: s) = b :: takeRunes n s := by
  have hstep : runePrefixLength (n + 1) (b :: s) = runePrefixLength.go n s 1 :=
    if_neg (by simp [h])
  rw [takeRunes, hstep, runePrefixLength_go, List.take_succ_cons, takeRunes]

theorem runeCount_cons_of_continues (h : continuesRune b = true) (s : Bytes) :
    runeCount (b :: s) = runeCount s := List.countP_cons_of_neg (by simp [h])

theorem runeCount_cons_of_starts (h : continuesRune b = false) (s : Bytes) :
    runeCount (b :: s) = runeCount s + 1 := List.countP_cons_of_pos (by simp [h])

/-- A byte in front goes to the longest cut if it is counted in the number of runes. -/
theorem IsLongestCut.cons (h : IsLongestCut n s t)
    (hcount : ∀ u, runeCount (b :: u) ≤ m ↔ runeCount u ≤ n) :
    IsLongestCut m (b :: s) (b :: t) where
  isPrefix := (List.prefix_cons_inj b).mpr h.isPrefix
  runeCount_le := (hcount t).mpr h.runeCount_le
  longest := by
    intro u hu hle
    cases u with
    | nil => exact List.nil_prefix
    | cons c u =>
      obtain ⟨rfl, hrest⟩ := List.cons_prefix_cons.mp hu
      exact (List.prefix_cons_inj c).mpr (h.longest u hrest ((hcount u).mp hle))

/-- The cut to a number of runes is the longest prefix that starts no more than that. -/
theorem isLongestCut_takeRunes (n : Nat) (s : Bytes) : IsLongestCut n s (takeRunes n s) := by
  induction s generalizing n with
  | nil =>
    rw [takeRunes_nil]
    exact ⟨List.nil_prefix, Nat.zero_le n, fun u hu _ => hu⟩
  | cons b s ih =>
    cases hb : continuesRune b with
    | true =>
      rw [takeRunes_of_continues hb]
      exact (ih n).cons fun u => by rw [runeCount_cons_of_continues hb]
    | false =>
      cases n with
      | zero =>
        rw [takeRunes_zero hb]
        refine ⟨List.nil_prefix, Nat.le_refl 0, fun u hu hle => ?_⟩
        cases u with
        | nil => exact List.nil_prefix
        | cons c u =>
          obtain ⟨rfl, _⟩ := List.cons_prefix_cons.mp hu
          rw [runeCount_cons_of_starts hb] at hle
          omega
      | succ n =>
        rw [takeRunes_succ hb]
        exact (ih n).cons fun u => by rw [runeCount_cons_of_starts hb, Nat.add_le_add_iff_right]

namespace IsLongestCut

/-- There is one longest cut. -/
theorem unique (ht : IsLongestCut n s t) (hu : IsLongestCut n s u) : t = u :=
  (hu.longest t ht.isPrefix ht.runeCount_le).eq_of_length_le
    (ht.longest u hu.isPrefix hu.runeCount_le).length_le

/-- Everything is selected exactly if there are no more runes than that. -/
theorem eq_self_iff (h : IsLongestCut n s t) : t = s ↔ runeCount s ≤ n := by
  constructor
  · rintro rfl
    exact h.runeCount_le
  · intro hle
    exact h.isPrefix.eq_of_length_le (h.longest s List.prefix_rfl hle).length_le

/-- No rune goes on behind the cut. -/
theorem not_continuesRune_behind {rest : Bytes} (h : IsLongestCut n s t) (hs : s = t ++ b :: rest) :
    continuesRune b = false := by
  by_contra hb
  rw [Bool.not_eq_false] at hb
  -- Together with the byte behind it the cut would start no more runes and be longer.
  have hcount : runeCount (t ++ [b]) ≤ n := by
    rw [runeCount, List.countP_append, List.countP_singleton, hb]
    exact h.runeCount_le
  have hprefix : t ++ [b] <+: s := ⟨rest, by rw [hs, List.append_assoc, List.singleton_append]⟩
  have hlength := (h.longest _ hprefix hcount).length_le
  rw [List.length_append, List.length_singleton] at hlength
  omega

/-- Cut again, a cut is the longest one for the smaller number of runes. -/
theorem trans (ht : IsLongestCut n s t) (hu : IsLongestCut m t u) :
    IsLongestCut (min n m) s u where
  isPrefix := hu.isPrefix.trans ht.isPrefix
  runeCount_le := le_min (hu.isPrefix.countP_le.trans ht.runeCount_le) hu.runeCount_le
  longest := by
    intro v hv hle
    obtain ⟨hn, hm⟩ := le_min_iff.mp hle
    exact hu.longest v (ht.longest v hv hn) hm

end IsLongestCut

theorem takeRunes_takeRunes (n m : Nat) (s : Bytes) :
    takeRunes m (takeRunes n s) = takeRunes (min n m) s :=
  ((isLongestCut_takeRunes n s).trans (isLongestCut_takeRunes m _)).unique
    (isLongestCut_takeRunes _ s)

/-! ## Characters -/

/-- Bytes that continue the rune before them are selected together. -/
theorem takeRunes_append (h : ∀ b ∈ t, continuesRune b = true) (n : Nat) (s : Bytes) :
    takeRunes n (t ++ s) = t ++ takeRunes n s := by
  induction t with
  | nil => rfl
  | cons b t ih =>
    obtain ⟨hb, ht⟩ := List.forall_mem_cons.mp h
    rw [List.cons_append, takeRunes_of_continues hb, ih ht, List.cons_append]

theorem continuesRune_continuation (bits : Nat) :
    continuesRune (Utf8.continuation bits) = true := by
  rw [continuesRune_iff, Utf8.continuation, UInt8.toNat_ofNat']
  omega

theorem not_continuesRune_ofNat {n : Nat} (hn : n < 0x80 ∨ 0xC0 ≤ n ∧ n < 0x100) :
    continuesRune (UInt8.ofNat n) = false := by
  rw [← Bool.not_eq_true, continuesRune_iff, UInt8.toNat_ofNat']
  omega

/-- A character is encoded in a byte that starts a rune and others that continue it. -/
theorem exists_lead (c : Char) : ∃ lead rest, String.utf8EncodeChar c = lead :: rest ∧
    continuesRune lead = false ∧ ∀ b ∈ rest, continuesRune b = true := by
  rw [← Utf8.encode_toNat, Utf8.encode]
  generalize hcp : Utf8.scalarOf c.toNat = cp
  have hlarge : cp ≤ 0x10FFFF := hcp ▸ (Utf8.isScalar_scalarOf c.toNat).1
  unfold Utf8.encodeScalar
  split
  · exact ⟨_, [], rfl, not_continuesRune_ofNat (by omega), by simp⟩
  split
  · exact ⟨_, _, rfl, not_continuesRune_ofNat (by omega), by simp [continuesRune_continuation]⟩
  split
  · exact ⟨_, _, rfl, not_continuesRune_ofNat (by omega), by simp [continuesRune_continuation]⟩
  · exact ⟨_, _, rfl, not_continuesRune_ofNat (by omega), by simp [continuesRune_continuation]⟩

/-- Of well-formed text as many characters are selected as runes. -/
theorem takeRunes_flatMap (n : Nat) (cs : List Char) :
    takeRunes n (cs.flatMap String.utf8EncodeChar) =
      (cs.take n).flatMap String.utf8EncodeChar := by
  induction cs generalizing n with
  | nil => rw [List.take_nil, List.flatMap_nil, takeRunes_nil]
  | cons c cs ih =>
    obtain ⟨lead, rest, hencode, hlead, hrest⟩ := exists_lead c
    cases n with
    | zero =>
      rw [List.flatMap_cons, hencode, List.cons_append, takeRunes_zero hlead, List.take_zero,
        List.flatMap_nil]
    | succ n =>
      rw [List.flatMap_cons, hencode, List.cons_append, takeRunes_succ hlead,
        takeRunes_append hrest, ih, List.take_succ_cons, List.flatMap_cons, hencode,
        List.cons_append]

end LeveledLog.Bytes
