import LeveledLog.Proofs.Buffer.Flow

/-!
# The order of offers

An append makes at most two offers. The first one drains the buffer, if something is held and the
bytes do not fit behind it, and the second one offers the bytes themselves, if they are as many as
the buffer has room for in all. There is no second offer when the first one falls short, so bytes
never go past others that are still held.
-/

namespace LeveledLog.Buffer

open Exchange (allTaken DrawnFrom)

variable {b c : Buffer} {data : Bytes} {first second : Nat} {es : List Exchange} {r : Bool}

/-- Bytes can be put behind those held as they are, and do not fill the whole buffer. -/
def Fits (b : Buffer) (data : Bytes) : Prop :=
  data.length ≤ b.available ∧ data.length < b.capacity

/-- The buffer is drained for bytes that do not fit, and its sink takes too little. -/
def FallsShort (b : Buffer) (data : Bytes) (answer : Nat) : Prop :=
  b.IsCrowded data ∧ answer < b.buffered

instance (b : Buffer) (data : Bytes) (answer : Nat) : Decidable (b.FallsShort data answer) :=
  inferInstanceAs (Decidable (_ ∧ _))

/-- The offer that drains the buffer for bytes. There is none if nothing has to be drained. -/
def drainOffer (b : Buffer) (data : Bytes) (answer : Nat) : List Exchange :=
  if b.IsCrowded data then [.offered b.sink b.held answer] else []

/-- The offer of bytes past the buffer. There is none if the buffer is large enough to hold them. -/
def passOffer (b : Buffer) (data : Bytes) (answer : Nat) : List Exchange :=
  if b.capacity ≤ data.length then [.offered b.sink data answer] else []

/-- The offers of an append with their answers. Bytes are offered only behind a drain that did not
fall short. -/
def appendOffers (b : Buffer) (data : Bytes) (first second : Nat) : List Exchange :=
  b.drainOffer data first ++ if b.FallsShort data first then [] else b.passOffer data second

/-! ## When offers are made -/

theorem drainOffer_of_crowded (h : b.IsCrowded data) (answer : Nat) :
    b.drainOffer data answer = [.offered b.sink b.held answer] := if_pos h

theorem drainOffer_of_not (h : ¬ b.IsCrowded data) (answer : Nat) :
    b.drainOffer data answer = [] := if_neg h

theorem passOffer_of_le (h : b.capacity ≤ data.length) (answer : Nat) :
    b.passOffer data answer = [.offered b.sink data answer] := if_pos h

theorem passOffer_of_lt (h : data.length < b.capacity) (answer : Nat) :
    b.passOffer data answer = [] := if_neg (Nat.not_le_of_lt h)

theorem appendOffers_of_short (h : b.FallsShort data first) (second : Nat) :
    b.appendOffers data first second = [.offered b.sink b.held first] := by
  rw [appendOffers, if_pos h, drainOffer_of_crowded h.1, List.append_nil]

theorem appendOffers_of_not_short (h : ¬ b.FallsShort data first) (second : Nat) :
    b.appendOffers data first second = b.drainOffer data first ++ b.passOffer data second := by
  rw [appendOffers, if_neg h]

/-- No bytes crowd no buffer. -/
theorem not_isCrowded_nil (b : Buffer) : ¬ b.IsCrowded [] := fun h => Nat.not_lt_zero _ h.2

/-- What is not held because it does not fit, and does not crowd the buffer, is too much for it. -/
theorem capacity_le_of_not_fits (hcrowded : ¬ b.IsCrowded data)
    (hfits : ¬ b.Fits data) : b.capacity ≤ data.length := by
  rw [Fits, not_and_or] at hfits
  rcases hfits with hfits | hfits
  · have hempty : b.held = [] := not_not.mp fun h => hcrowded ⟨h, Nat.lt_of_not_le hfits⟩
    rw [available, buffered, hempty, List.length_nil] at hfits
    omega
  · exact Nat.le_of_not_lt hfits

/-- No offer is made exactly for no bytes and for bytes that fit. -/
theorem appendOffers_eq_nil_iff (hb : b.Sound) (first second : Nat) :
    b.appendOffers data first second = [] ↔ data = [] ∨ b.Fits data := by
  constructor
  · intro hnone
    by_contra hneither
    obtain ⟨_, hfits⟩ := not_or.mp hneither
    obtain ⟨hdrain, hpass⟩ := List.append_eq_nil_iff.mp hnone
    by_cases hcrowded : b.IsCrowded data
    · rw [drainOffer_of_crowded hcrowded] at hdrain
      exact List.cons_ne_nil _ _ hdrain
    · rw [if_neg fun h => hcrowded h.1,
        passOffer_of_le (capacity_le_of_not_fits hcrowded hfits)] at hpass
      exact List.cons_ne_nil _ _ hpass
  · intro h
    have hnot : ¬ b.IsCrowded data ∧ data.length < b.capacity := by
      rcases h with rfl | hfits
      · exact ⟨not_isCrowded_nil b, hb.roomy⟩
      · exact ⟨fun hcrowded => Nat.not_lt_of_le hfits.1 hcrowded.2, hfits.2⟩
    rw [appendOffers_of_not_short fun h => hnot.1 h.1, drainOffer_of_not hnot.1,
      passOffer_of_lt hnot.2, List.append_nil]

/-- Every offer goes to the sink of the buffer and has at least one byte. -/
theorem ne_nil_of_mem_appendOffers (hb : b.Sound) {e : Exchange}
    (he : e ∈ b.appendOffers data first second) :
    ∃ bytes answer, e = .offered b.sink bytes answer ∧ bytes ≠ [] := by
  rcases List.mem_append.mp he with he | he
  · obtain ⟨hcrowded, he⟩ := List.mem_ite_nil_right.mp he
    exact ⟨_, _, List.mem_singleton.mp he, hcrowded.1⟩
  · obtain ⟨hlong, he⟩ := List.mem_ite_nil_right.mp (List.mem_ite_nil_left.mp he).2
    refine ⟨_, _, List.mem_singleton.mp he, ?_⟩
    exact List.ne_nil_of_length_pos (Nat.lt_of_lt_of_le hb.roomy hlong)

/-! ## What the offers of an append are -/

/-- Room is made by the offer that drains the buffer, and that succeeds unless it falls short. -/
theorem exists_runs_makeRoom (b : Buffer) (data : Bytes) (answer : Nat) :
    ∃ c, (b.makeRoom data).Runs (b.drainOffer data answer)
      (decide (¬ b.FallsShort data answer), c) := by
  by_cases hcrowded : b.IsCrowded data
  · obtain ⟨c, hflush⟩ : ∃ c, b.flush.Runs [.offered b.sink b.held answer]
        (decide (b.buffered ≤ answer), c) :=
      ⟨_, runs_flush.mpr (.inr ⟨hcrowded.1, answer, rfl, rfl, rfl⟩)⟩
    have hdone : decide (¬ b.FallsShort data answer) = decide (b.buffered ≤ answer) := by
      rw [decide_eq_decide, FallsShort, and_iff_right hcrowded, Nat.not_lt]
    rw [drainOffer_of_crowded hcrowded, hdone]
    exact ⟨c, runs_makeRoom.mpr (.inr ⟨hcrowded, hflush⟩)⟩
  · rw [drainOffer_of_not hcrowded]
    exact ⟨b, runs_makeRoom.mpr (.inl ⟨hcrowded, rfl, decide_eq_true fun h => hcrowded h.1, rfl⟩)⟩

/-- Whatever a sink answers, an append makes its offers and comes to a result. -/
theorem exists_runs_append (hb : b.Sound) (data : Bytes) (first second : Nat) :
    ∃ r c, (b.append data).Runs (b.appendOffers data first second) (r, c) := by
  by_cases hdata : data = []
  · rw [(appendOffers_eq_nil_iff hb first second).mpr (.inl hdata)]
    exact ⟨true, b, runs_append.mpr (.inl ⟨hdata, rfl, rfl, rfl⟩)⟩
  obtain ⟨b₁, hroom⟩ := exists_runs_makeRoom b data first
  by_cases hshort : b.FallsShort data first
  · rw [appendOffers_of_short hshort]
    rw [decide_eq_false (not_not.mpr hshort), drainOffer_of_crowded hshort.1] at hroom
    exact ⟨false, b₁, runs_append.mpr (.inr (.inl ⟨hdata, hroom, rfl⟩))⟩
  · rw [appendOffers_of_not_short hshort]
    rw [decide_eq_true hshort] at hroom
    have hflow := (flow_makeRoom hroom).1
    by_cases hlong : b.capacity ≤ data.length
    · obtain ⟨r, c, hpass⟩ : ∃ r c,
          (b₁.passThrough data).Runs [.offered b₁.sink data second] (r, c) :=
        ⟨_, _, runs_passThrough.mpr ⟨second, rfl, rfl, rfl⟩⟩
      rw [passOffer_of_le hlong, ← hflow.sink]
      rw [← hflow.capacity] at hlong
      exact ⟨r, c, runs_append.mpr
        (.inr (.inr ⟨_, b₁, hdata, hroom, .inl ⟨hlong, _, hpass, rfl⟩⟩))⟩
    · have hheld : data.length < b₁.capacity := hflow.capacity ▸ Nat.lt_of_not_le hlong
      rw [passOffer_of_lt (Nat.lt_of_not_le hlong), List.append_nil]
      exact ⟨true, b₁.hold data, runs_append.mpr
        (.inr (.inr ⟨_, b₁, hdata, hroom, .inr ⟨hheld, rfl, rfl, rfl⟩⟩))⟩

/-- What an append does when draining falls short: the offer of what is held is its only one, and
what the sink took of it has left the buffer. -/
def StopsShort (b : Buffer) (first : Nat) (es : List Exchange) (r : Bool) (c : Buffer) : Prop :=
  es = [.offered b.sink b.held first] ∧ r = false ∧
    c = { b with held := b.held.drop first, drained := b.drained + first }

/-- What an append does when bytes go past the buffer: they are offered when the buffer is empty
that was drained for them. -/
def PassesEmpty (b : Buffer) (data : Bytes) (first second : Nat) (es : List Exchange) (r : Bool)
    (c : Buffer) : Prop :=
  ∃ emptied, (b.makeRoom data).Runs (b.drainOffer data first) (true, emptied) ∧
    emptied.held = [] ∧ allTaken (b.drainOffer data first) = b.held ∧
    (emptied.passThrough data).Runs [.offered b.sink data second] (r, c) ∧
    es = b.drainOffer data first ++ [.offered b.sink data second]

/-- Room is made by the offer that drains the buffer. -/
theorem eq_drainOffer_of_runs (h : (b.makeRoom data).Runs es (r, c)) :
    ∃ first, es = b.drainOffer data first ∧ (r = true ↔ ¬ b.FallsShort data first) ∧
      (b.FallsShort data first → StopsShort b first es r c) := by
  rcases runs_makeRoom.mp h with ⟨hroom, rfl, rfl, rfl⟩ | ⟨hcrowded, h⟩
  · exact ⟨0, (drainOffer_of_not hroom 0).symm, by simp [FallsShort, hroom],
      fun hshort => absurd hshort.1 hroom⟩
  · obtain ⟨n, rfl, rfl, rfl⟩ := ((runs_flush.mp h).resolve_left fun h => hcrowded.1 h.1).2
    refine ⟨n, (drainOffer_of_crowded hcrowded n).symm, ?_, fun hshort => ⟨rfl, ?_, ?_⟩⟩
    · rw [decide_eq_true_iff, FallsShort, and_iff_right hcrowded, Nat.not_lt]
    · exact decide_eq_false (Nat.not_le_of_lt hshort.2)
    · have hlength : (b.held.take n).length = n :=
        List.length_take_of_le (Nat.le_of_lt hshort.2)
      rw [hlength]

/-- Every append makes its offers, stops at a drain that falls short, and lets bytes go past the
buffer only when it is empty. -/
theorem eq_appendOffers_of_runs (hb : b.Sound) (h : (b.append data).Runs es (r, c)) :
    ∃ first second, es = b.appendOffers data first second ∧
      (b.FallsShort data first → StopsShort b first es r c) ∧
      (¬ b.FallsShort data first → b.capacity ≤ data.length →
        PassesEmpty b data first second es r c) := by
  rcases runs_append.mp h with ⟨rfl, rfl, rfl, rfl⟩ | ⟨_, hroom, rfl⟩ | ⟨es₁, b₁, _, hroom, hrest⟩
  · refine ⟨0, 0, ((appendOffers_eq_nil_iff hb 0 0).mpr (.inl rfl)).symm,
      fun hshort => absurd hshort.1 (not_isCrowded_nil _), fun _ hlong => ?_⟩
    exact absurd hb.roomy (Nat.not_lt_of_le hlong)
  · obtain ⟨first, rfl, hdone, hstop⟩ := eq_drainOffer_of_runs hroom
    have hshort : b.FallsShort data first := by simpa using hdone
    refine ⟨first, 0, ?_, hstop, fun hno => absurd hshort hno⟩
    rw [appendOffers, if_pos hshort, List.append_nil]
  · obtain ⟨first, rfl, hdone, _⟩ := eq_drainOffer_of_runs hroom
    have hwhole : ¬ b.FallsShort data first := hdone.mp rfl
    have hflow := (flow_makeRoom hroom).1
    rcases hrest with ⟨hlong, es₂, hpass, rfl⟩ | ⟨hshort, rfl, rfl, rfl⟩
    · obtain ⟨second, rfl, _⟩ := runs_passThrough.mp hpass
      have hempty := held_eq_nil_of_makeRoom hb hroom hlong
      have htaken : allTaken (b.drainOffer data first) = b.held := by
        simpa [hempty] using hflow.order
      rw [hflow.sink] at hpass
      rw [hflow.capacity] at hlong
      refine ⟨first, second, ?_, fun h => absurd h hwhole, fun _ _ =>
        ⟨b₁, hroom, hempty, htaken, hpass, by rw [hflow.sink]⟩⟩
      rw [appendOffers_of_not_short hwhole, passOffer_of_le hlong, hflow.sink]
    · rw [hflow.capacity] at hshort
      refine ⟨first, 0, ?_, fun h => absurd h hwhole, fun _ hlong =>
        absurd hshort (Nat.not_lt_of_le hlong)⟩
      rw [appendOffers_of_not_short hwhole, passOffer_of_lt hshort, List.append_nil]

/-- Whatever its sink answers, an append to a sound buffer makes exactly these offers, in this
order: everything that is held, if something is held and the bytes do not fit behind it, and then,
unless that fell short, the bytes themselves, if they are as many as the capacity or more. So none
is made exactly for no bytes and for bytes that fit, none is empty, and each one goes on where the
bytes end that were taken before. When the drain falls short, that is all that happens: what the
sink did not take stays held, and nothing counts as appended. Bytes go past the buffer only when
nothing is held any more. -/
theorem append_overtakes_nothing (hb : b.Sound) (data : Bytes) :
    (∀ first second, ∃ r c, (b.append data).Runs (b.appendOffers data first second) (r, c)) ∧
    ∀ es r c, (b.append data).Runs es (r, c) →
      (es = [] ↔ data = [] ∨ b.Fits data) ∧
      (∀ e ∈ es, ∃ bytes answer, e = .offered b.sink bytes answer ∧ bytes ≠ []) ∧
      DrawnFrom (b.held ++ data) es ∧
      ∃ first second, es = b.appendOffers data first second ∧
        (b.FallsShort data first → StopsShort b first es r c) ∧
        (¬ b.FallsShort data first → b.capacity ≤ data.length →
          PassesEmpty b data first second es r c) := by
  refine ⟨exists_runs_append hb data, fun es r c h => ?_⟩
  have hdrawn := drawn_append hb h
  obtain ⟨first, second, rfl, hshort, hpass⟩ := eq_appendOffers_of_runs hb h
  exact ⟨appendOffers_eq_nil_iff hb first second, fun e he => ne_nil_of_mem_appendOffers hb he,
    hdrawn, first, second, rfl, hshort, hpass⟩

/-- As many bytes as the buffer has room for come to one that holds a byte. They are not offered
when that byte is refused, and behind it when it is taken. -/
theorem append_overtakes_nothing_full :
    (Buffer.mk ⟨0, []⟩ 2 [1] 1 0).Sound ∧
    ((Buffer.mk ⟨0, []⟩ 2 [1] 1 0).append [2, 3]).Runs [.offered ⟨0, []⟩ [1] 0]
      (false, ⟨⟨0, []⟩, 2, [1], 1, 0⟩) ∧
    ((Buffer.mk ⟨0, []⟩ 2 [1] 1 0).append [2, 3]).Runs
      [.offered ⟨0, []⟩ [1] 1, .offered ⟨0, []⟩ [2, 3] 1] (false, ⟨⟨0, []⟩, 2, [], 2, 2⟩) ∧
    DrawnFrom [1, 2, 3] [.offered ⟨0, []⟩ [1] 1, .offered ⟨0, []⟩ [2, 3] 1] := by
  have hsound : (Buffer.mk ⟨0, []⟩ 2 [1] 1 0).Sound := ⟨by decide, by decide, by decide⟩
  have hrefused := Dialogue.runs_converse ((Buffer.mk ⟨0, []⟩ 2 [1] 1 0).append [2, 3]) [0]
  have htaken := Dialogue.runs_converse ((Buffer.mk ⟨0, []⟩ 2 [1] 1 0).append [2, 3]) [1, 1]
  obtain ⟨_, _, hdrawn, _⟩ := (append_overtakes_nothing hsound [2, 3]).2 _ _ _ htaken
  exact ⟨hsound, hrefused, htaken, hdrawn⟩

end LeveledLog.Buffer
