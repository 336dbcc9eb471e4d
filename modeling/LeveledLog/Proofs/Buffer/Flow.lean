import LeveledLog.Buffer
import LeveledLog.Proofs.Exchange

/-!
# The flow through a buffer

Bytes enter a buffer at its back and leave it at its front. `Flow a entered left b` says that
the buffer `b` is what `a` became while some bytes entered and others left, and that the two
counts moved with them. Flushing and appending are flows, flows follow one another, and undoing
what was appended since a mark cuts the bytes that entered since the mark. Everything else
known about buffers follows from these laws.
-/

namespace LeveledLog.Buffer

open Exchange (allTaken DrawnFrom drawnFrom_nil drawnFrom_offer)

variable {a b c : Buffer} {entered left : Bytes} {es : List Exchange} {r : Bool}

/-- What every buffer in use satisfies. -/
structure Sound (b : Buffer) : Prop where
  /-- There is room for at least one byte. -/
  roomy : 0 < b.capacity
  /-- No more is held than there is room for. -/
  fits : b.buffered ≤ b.capacity
  /-- What was appended has either left the buffer or is held. -/
  balance : b.appended = b.drained + b.buffered

/-- An empty buffer is sound. -/
theorem Sound.empty {sink : Sink} {capacity : Nat} (h : 0 < capacity) :
    (Buffer.empty sink capacity).Sound := ⟨h, Nat.zero_le _, rfl⟩

/-- Some bytes entered at the back and some left at the front. -/
structure Flow (a : Buffer) (entered left : Bytes) (b : Buffer) : Prop where
  /-- The bytes stay in order. -/
  order : left ++ b.held = a.held ++ entered
  /-- The bytes that entered are counted. -/
  appended : b.appended = a.appended + entered.length
  /-- The bytes that left are counted. -/
  drained : b.drained = a.drained + left.length
  sink : b.sink = a.sink
  capacity : b.capacity = a.capacity

namespace Flow

/-- Nothing flows while nothing happens. -/
theorem refl (a : Buffer) : Flow a [] [] a := ⟨by simp, rfl, rfl, rfl, rfl⟩

/-- Flows follow one another. -/
theorem trans {entered' left' : Bytes} (h : Flow a entered left b)
    (h' : Flow b entered' left' c) : Flow a (entered ++ entered') (left ++ left') c where
  order := by
    calc (left ++ left') ++ c.held = left ++ (left' ++ c.held) := List.append_assoc ..
      _ = left ++ (b.held ++ entered') := by rw [h'.order]
      _ = (left ++ b.held) ++ entered' := (List.append_assoc ..).symm
      _ = a.held ++ (entered ++ entered') := by rw [h.order, List.append_assoc]
  appended := by rw [h'.appended, h.appended, List.length_append, Nat.add_assoc]
  drained := by rw [h'.drained, h.drained, List.length_append, Nat.add_assoc]
  sink := h'.sink.trans h.sink
  capacity := h'.capacity.trans h.capacity

/-- As many bytes come together on both sides. -/
theorem length_eq (h : Flow a entered left b) :
    left.length + b.buffered = a.buffered + entered.length := by
  simpa only [buffered, List.length_append] using congrArg List.length h.order

/-- A flow that does not overfill the buffer keeps it sound. -/
theorem sound (h : Flow a entered left b) (ha : a.Sound) (hb : b.buffered ≤ b.capacity) :
    b.Sound where
  roomy := by rw [h.capacity]; exact ha.roomy
  fits := hb
  balance := by
    have hl := h.length_eq
    have := ha.balance
    rw [h.appended, h.drained]
    omega

end Flow

/-! ## Flushing -/

/-- A sink takes everything exactly when its answer is large enough. -/
private theorem min_beq (n size : Nat) : (min n size == size) = decide (size ≤ n) := by
  rw [Bool.eq_iff_iff, beq_iff_eq, decide_eq_true_iff]
  omega

/-- An empty buffer offers nothing; any other one offers everything it holds, once. -/
theorem runs_flush : b.flush.Runs es (r, c) ↔
    (b.held = [] ∧ es = [] ∧ r = true ∧ c = b) ∨
    (b.held ≠ [] ∧ ∃ n, es = [.offered b.sink b.held n] ∧ r = decide (b.buffered ≤ n) ∧
      c = { b with held := b.held.drop n, drained := b.drained + (b.held.take n).length }) := by
  unfold flush
  by_cases hb : b.held = []
  · simp [hb]
  · have hn (n : Nat) : (min n b.held.length == b.buffered) = decide (b.buffered ≤ n) := min_beq ..
    have hd (n : Nat) : b.held.drop (min n b.held.length) = b.held.drop n := by
      rw [List.drop_eq_drop_iff]
      omega
    simp only [List.isEmpty_iff, hb, ite_false, Dialogue.runs_bind, Dialogue.runs_deliver,
      Dialogue.runs_pure, Prod.mk.injEq, false_and, false_or, ne_eq, not_false_eq_true, true_and]
    constructor
    · rintro ⟨_, _, _, ⟨n, rfl, rfl⟩, ⟨rfl, rfl, rfl⟩, rfl⟩
      exact ⟨n, by simp, hn n, by rw [hd, List.length_take]⟩
    · rintro ⟨n, rfl, rfl, rfl⟩
      exact ⟨_, _, [], ⟨n, rfl, rfl⟩, ⟨rfl, (hn n).symm, by rw [hd, List.length_take]⟩, by simp⟩

/-- What a flush lets out was at the front of the buffer. -/
theorem flow_flush (h : b.flush.Runs es (r, c)) : Flow b [] (allTaken es) c := by
  rcases runs_flush.mp h with ⟨_, rfl, _, rfl⟩ | ⟨_, n, rfl, _, rfl⟩
  · exact .refl _
  · exact ⟨by simp [Exchange.taken], rfl, by simp [Exchange.taken], rfl, rfl⟩

/-- A flush is complete exactly when it leaves the buffer empty. -/
theorem flush_complete_iff (h : b.flush.Runs es (r, c)) : r = true ↔ c.held = [] := by
  rcases runs_flush.mp h with ⟨hb, _, rfl, rfl⟩ | ⟨_, n, _, rfl, rfl⟩
  · simp only [hb]
  · rw [decide_eq_true_iff, List.drop_eq_nil_iff, buffered]

/-- A flush never makes a buffer fuller. -/
theorem buffered_flush_le (h : b.flush.Runs es (r, c)) : c.buffered ≤ b.buffered := by
  have := (flow_flush h).length_eq
  simp only [List.length_nil] at this
  omega

/-- A flush consists of offers to the sink of the buffer. -/
theorem offers_flush (h : b.flush.Runs es (r, c)) : ∀ e ∈ es, e.IsOfferTo b.sink := by
  rcases runs_flush.mp h with ⟨_, rfl, _⟩ | ⟨_, n, rfl, _⟩
  · simp
  · simp [Exchange.IsOfferTo]

theorem concerns_flush (h : b.flush.Runs es (r, c)) : ∀ e ∈ es, e.ConcernsOnly b.sink :=
  fun e he => (offers_flush h e he).concernsOnly

/-- A flush is one offer of everything that is held, if anything is held. -/
theorem offered_flush (h : b.flush.Runs es (r, c)) :
    Exchange.offers es = if b.held = [] then [] else [(b.sink, b.held)] := by
  rcases runs_flush.mp h with ⟨hb, rfl, _⟩ | ⟨hb, n, rfl, _⟩
  · rw [if_pos hb]
    rfl
  · rw [if_neg hb]
    rfl

/-- So what a flush offers is what is held. -/
theorem drawn_flush (h : b.flush.Runs es (r, c)) : DrawnFrom b.held es := by
  rcases runs_flush.mp h with ⟨_, rfl, _⟩ | ⟨_, n, rfl, _⟩
  · exact drawnFrom_nil _
  · exact drawnFrom_offer (List.prefix_refl _) _ _

/-! ## Appending -/

/-- The buffer holds something, and bytes do not fit behind it. -/
def IsCrowded (b : Buffer) (data : Bytes) : Prop := b.held ≠ [] ∧ b.available < data.length

instance (b : Buffer) (data : Bytes) : Decidable (b.IsCrowded data) :=
  inferInstanceAs (Decidable (_ ∧ _))

/-- Room is made by a flush, and only when something is held and the bytes do not fit behind it. -/
theorem runs_makeRoom {data : Bytes} : (b.makeRoom data).Runs es (r, c) ↔
    (¬ b.IsCrowded data ∧ es = [] ∧ r = true ∧ c = b) ∨
    (b.IsCrowded data ∧ b.flush.Runs es (r, c)) := by
  unfold makeRoom IsCrowded
  split
  case isTrue hfull => by_cases hb : b.held = [] <;> simp [runs_flush, hfull, hb]
  case isFalse hroom => simp [hroom]

/-- When room is made, nothing is held or the bytes fit. -/
theorem flow_makeRoom {data : Bytes} (h : (b.makeRoom data).Runs es (r, c)) :
    Flow b [] (allTaken es) c ∧ c.buffered ≤ b.buffered ∧
      (r = true → c.held = [] ∨ data.length ≤ c.available) := by
  rcases runs_makeRoom.mp h with ⟨hroom, rfl, rfl, rfl⟩ | ⟨_, h⟩
  · rw [IsCrowded, not_and_or, not_not, Nat.not_lt] at hroom
    exact ⟨.refl _, Nat.le_refl _, fun _ => hroom⟩
  · exact ⟨flow_flush h, buffered_flush_le h, fun hr => .inl ((flush_complete_iff h).mp hr)⟩

/-- Room is made by offers to the sink of the buffer. -/
theorem offers_makeRoom {data : Bytes} (h : (b.makeRoom data).Runs es (r, c)) :
    ∀ e ∈ es, e.IsOfferTo b.sink := by
  rcases runs_makeRoom.mp h with ⟨_, rfl, _⟩ | ⟨_, h⟩
  · simp
  · exact offers_flush h

theorem drawn_makeRoom {data : Bytes} (h : (b.makeRoom data).Runs es (r, c)) :
    DrawnFrom b.held es := by
  rcases runs_makeRoom.mp h with ⟨_, rfl, _⟩ | ⟨_, h⟩
  · exact drawnFrom_nil _
  · exact drawn_flush h

/-- Room for bytes as long as the whole buffer is made by emptying it. -/
theorem held_eq_nil_of_makeRoom {data : Bytes} (hb : b.Sound)
    (h : (b.makeRoom data).Runs es (true, c)) (hlong : c.capacity ≤ data.length) :
    c.held = [] := by
  obtain ⟨hf, hle, hroom⟩ := flow_makeRoom h
  have hfits : c.buffered ≤ c.capacity := hf.capacity ▸ hle.trans hb.fits
  rcases hroom rfl with hempty | hroom
  · exact hempty
  · have hpos : 0 < c.capacity := hf.capacity ▸ hb.roomy
    rw [← List.length_eq_zero_iff]
    simp only [available, buffered] at hroom hfits
    omega

/-- Bytes go past a buffer in one offer, and what is taken of them counts as appended and
drained. -/
theorem runs_passThrough {data : Bytes} : (b.passThrough data).Runs es (r, c) ↔
    ∃ n, es = [.offered b.sink data n] ∧ r = decide (data.length ≤ n) ∧
      c = { b with
        appended := b.appended + (data.take n).length
        drained := b.drained + (data.take n).length } := by
  simp only [passThrough, Dialogue.runs_bind, Dialogue.runs_deliver, Dialogue.runs_pure,
    Prod.mk.injEq, List.length_take]
  constructor
  · rintro ⟨_, _, _, ⟨n, rfl, rfl⟩, ⟨rfl, rfl, rfl⟩, rfl⟩
    exact ⟨n, List.append_nil _, min_beq .., rfl⟩
  · rintro ⟨n, rfl, rfl, rfl⟩
    exact ⟨_, _, [], ⟨n, rfl, rfl⟩, ⟨rfl, (min_beq ..).symm, rfl⟩, (List.append_nil _).symm⟩

/-- What goes past an empty buffer enters it and leaves it at once. -/
theorem flow_passThrough {data : Bytes} (hb : b.held = [])
    (h : (b.passThrough data).Runs es (r, c)) :
    ∃ k ≤ data.length, Flow b (data.take k) (allTaken es) c ∧ c.held = [] ∧
      (r = true ↔ k = data.length) := by
  obtain ⟨n, rfl, rfl, rfl⟩ := runs_passThrough.mp h
  have ht : data.take (min n data.length) = data.take n := by
    rw [List.take_eq_take_iff]
    omega
  refine ⟨min n data.length, Nat.min_le_right .., ⟨?_, ?_, ?_, rfl, rfl⟩, hb, by simp⟩
  · simp [hb, Exchange.taken, ht]
  · simp
  · simp [Exchange.taken]

/-- What is put behind the bytes held enters the buffer. -/
theorem flow_hold (data : Bytes) : Flow b data [] (b.hold data) :=
  ⟨by simp [hold], rfl, by simp [hold], rfl, rfl⟩

/-- How an append can go: there is nothing to append, or no room can be made, or the bytes go
past the buffer that was emptied for them, or they are put behind those held. -/
theorem runs_append {data : Bytes} : (b.append data).Runs es (r, c) ↔
    (data = [] ∧ es = [] ∧ r = true ∧ c = b) ∨
    (data ≠ [] ∧ (b.makeRoom data).Runs es (false, c) ∧ r = false) ∨
    ∃ es₁ b₁, data ≠ [] ∧ (b.makeRoom data).Runs es₁ (true, b₁) ∧
      ((b₁.capacity ≤ data.length ∧
          ∃ es₂, (b₁.passThrough data).Runs es₂ (r, c) ∧ es = es₁ ++ es₂) ∨
        (data.length < b₁.capacity ∧ es = es₁ ∧ r = true ∧ c = b₁.hold data)) := by
  unfold append
  by_cases hd : data = []
  · simp only [hd, List.isEmpty_nil, ite_true, Dialogue.runs_pure, Prod.mk.injEq, true_and, ne_eq,
      not_true_eq_false, false_and, exists_false, or_false]
  simp only [List.isEmpty_iff, hd, ite_false, Dialogue.runs_bind, false_and, false_or, ne_eq,
    not_false_eq_true, true_and]
  constructor
  · rintro ⟨es₁, ⟨roomy, b₁⟩, es₂, h₁, h₂, rfl⟩
    cases roomy with
    | false =>
      simp only [Bool.not_false, ite_true, Dialogue.runs_pure, Prod.mk.injEq] at h₂
      obtain ⟨rfl, rfl, rfl⟩ := h₂
      exact .inl ⟨by simpa using h₁, rfl⟩
    | true =>
      simp only [Bool.not_true, Bool.false_eq_true, ite_false] at h₂
      refine .inr ⟨es₁, b₁, h₁, ?_⟩
      split at h₂
      · exact .inl ⟨‹_›, es₂, h₂, rfl⟩
      · simp only [Dialogue.runs_pure, Prod.mk.injEq] at h₂
        obtain ⟨rfl, rfl, rfl⟩ := h₂
        exact .inr ⟨by omega, by simp, rfl, rfl⟩
  · rintro (⟨h₁, rfl⟩ | ⟨es₁, b₁, h₁, ⟨hlong, es₂, h₂, rfl⟩ | ⟨hshort, rfl, rfl, rfl⟩⟩)
    · exact ⟨es, (false, c), [], h₁, by simp, (List.append_nil es).symm⟩
    · exact ⟨es₁, (true, b₁), es₂, h₁, by simpa [hlong] using h₂, rfl⟩
    · exact ⟨es, (true, b₁), [], h₁, by simp [Nat.not_le_of_lt hshort], (List.append_nil es).symm⟩

/-- An append lets in a prefix of the bytes, and all of them exactly when it succeeds. -/
theorem flow_append {data : Bytes} (hb : b.Sound) (h : (b.append data).Runs es (r, c)) :
    ∃ k ≤ data.length, Flow b (data.take k) (allTaken es) c ∧ c.buffered ≤ c.capacity ∧
      (r = true ↔ k = data.length) := by
  rcases runs_append.mp h with ⟨rfl, rfl, rfl, rfl⟩ | ⟨hd, h₁, rfl⟩ | ⟨es₁, b₁, hd, h₁, h₂⟩
  · exact ⟨0, Nat.le_refl _, .refl _, hb.fits, by simp⟩
  · obtain ⟨hf, hle, _⟩ := flow_makeRoom h₁
    refine ⟨0, Nat.zero_le _, hf, ?_, by simpa [eq_comm] using hd⟩
    rw [hf.capacity]
    exact hle.trans hb.fits
  · obtain ⟨hf, hle, hroom⟩ := flow_makeRoom h₁
    rcases h₂ with ⟨hlong, es₂, h₂, rfl⟩ | ⟨hshort, rfl, rfl, rfl⟩
    · have hempty := held_eq_nil_of_makeRoom hb h₁ hlong
      obtain ⟨k, hk, hf₂, hc, hr⟩ := flow_passThrough hempty h₂
      refine ⟨k, hk, ?_, by simp [buffered, hc], hr⟩
      simpa only [List.nil_append, Exchange.allTaken_append] using hf.trans hf₂
    · refine ⟨data.length, Nat.le_refl _, ?_, ?_, by simp⟩
      · simpa only [List.nil_append, List.append_nil, List.take_length] using
          hf.trans (flow_hold data)
      · have hfits : b₁.buffered ≤ b₁.capacity := hf.capacity ▸ hle.trans hb.fits
        simp only [buffered, hold, List.length_append] at hfits ⊢
        rcases hroom rfl with hroom | hroom
        · simp only [hroom, List.length_nil]
          omega
        · simp only [available, buffered] at hroom
          omega

/-- An append consists of offers to the sink of the buffer. -/
theorem offers_append {data : Bytes} (h : (b.append data).Runs es (r, c)) :
    ∀ e ∈ es, e.IsOfferTo b.sink := by
  rcases runs_append.mp h with ⟨_, rfl, _⟩ | ⟨_, h₁, _⟩ | ⟨es₁, b₁, _, h₁, h₂⟩
  · simp
  · exact offers_makeRoom h₁
  · have hsink : b₁.sink = b.sink := (flow_makeRoom h₁).1.sink
    rcases h₂ with ⟨_, es₂, h₂, rfl⟩ | ⟨_, rfl, _⟩
    · obtain ⟨n, rfl, _⟩ := runs_passThrough.mp h₂
      intro e he
      rcases List.mem_append.mp he with he | he
      · exact offers_makeRoom h₁ e he
      · exact ⟨data, n, by rw [List.mem_singleton.mp he, hsink]⟩
    · exact offers_makeRoom h₁

/-- An append offers what is held and then the bytes that are appended. -/
theorem drawn_append {data : Bytes} (hb : b.Sound) (h : (b.append data).Runs es (r, c)) :
    DrawnFrom (b.held ++ data) es := by
  rcases runs_append.mp h with ⟨_, rfl, _⟩ | ⟨_, h₁, _⟩ | ⟨es₁, b₁, _, h₁, h₂⟩
  · exact drawnFrom_nil _
  · exact (drawn_makeRoom h₁).mono (List.prefix_append ..)
  · have hroom := (drawn_makeRoom h₁).mono (List.prefix_append b.held data)
    rcases h₂ with ⟨hlong, es₂, h₂, rfl⟩ | ⟨_, rfl, _⟩
    · have hempty := held_eq_nil_of_makeRoom hb h₁ hlong
      have hflushed : allTaken es₁ = b.held := by
        simpa [hempty] using (flow_makeRoom h₁).1.order
      obtain ⟨n, rfl, _⟩ := runs_passThrough.mp h₂
      exact hroom.append (drawnFrom_offer (List.prefix_refl data) _ _) (by rw [hflushed])
    · exact hroom

theorem concerns_append {data : Bytes} (h : (b.append data).Runs es (r, c)) :
    ∀ e ∈ es, e.ConcernsOnly b.sink :=
  fun e he => (offers_append h e he).concernsOnly

/-- Appending keeps a buffer sound. -/
theorem Sound.append {data : Bytes} (hb : b.Sound) (h : (b.append data).Runs es (r, c)) :
    c.Sound := by
  obtain ⟨k, _, hf, hfits, _⟩ := flow_append hb h
  exact hf.sound hb hfits

/-- Flushing keeps a buffer sound. -/
theorem Sound.flush (hb : b.Sound) (h : b.flush.Runs es (r, c)) : c.Sound := by
  have hf := flow_flush h
  refine hf.sound hb ?_
  rw [hf.capacity]
  exact (buffered_flush_le h).trans hb.fits

/-- Parts that could all be made enter one after the other, and all of them exactly when all
appends succeed. They are offered to the sink of the buffer only, behind what was held. -/
theorem flow_appendAll {texts : List Bytes} {outcome : Except FormatFault Bool} (hb : b.Sound)
    (h : (b.appendAll (texts.map .ok)).Runs es (outcome, c)) :
    ∃ done k, outcome = .ok done ∧ k ≤ texts.flatten.length ∧
      Flow b (texts.flatten.take k) (allTaken es) c ∧ c.Sound ∧
      (∀ e ∈ es, e.IsOfferTo b.sink) ∧ DrawnFrom (b.held ++ texts.flatten) es ∧
      (done = true ↔ k = texts.flatten.length) := by
  induction texts generalizing b es with
  | nil =>
    simp only [List.map_nil, appendAll, Dialogue.runs_pure, Prod.mk.injEq] at h
    obtain ⟨rfl, rfl, rfl⟩ := h
    exact ⟨true, 0, rfl, Nat.le_refl _, .refl _, hb, by simp, drawnFrom_nil _, by simp⟩
  | cons text texts ih =>
    simp only [List.map_cons, appendAll, Dialogue.runs_bind] at h
    obtain ⟨es₁, ⟨done, b₁⟩, es₂, h₁, h₂, rfl⟩ := h
    obtain ⟨k, hk, hf, hfits, hdone⟩ := flow_append hb h₁
    have hb₁ := hf.sound hb hfits
    have hdrawn : DrawnFrom (b.held ++ (text ++ texts.flatten)) es₁ :=
      (drawn_append hb h₁).mono (by
        rw [← List.append_assoc]
        exact List.prefix_append ..)
    cases done with
    | false =>
      simp only [Bool.false_eq_true, ite_false, Dialogue.runs_pure, Prod.mk.injEq] at h₂
      obtain ⟨rfl, rfl, rfl⟩ := h₂
      have hlt : k ≠ text.length := by simpa using hdone
      refine ⟨false, k, rfl, ?_, ?_, hb₁, by simpa using offers_append h₁,
        by simpa using hdrawn, ?_⟩
      · simp only [List.flatten_cons, List.length_append]
        omega
      · rw [List.flatten_cons, List.take_append_of_le_length hk, List.append_nil]
        exact hf
      · simp only [List.flatten_cons, List.length_append, Bool.false_eq_true, false_iff]
        omega
    | true =>
      have hk : k = text.length := hdone.mp rfl
      simp only [ite_true] at h₂
      obtain ⟨done, k', rfl, hk', hf', hc, hsink, hdrawn', hdone'⟩ := ih hb₁ h₂
      rw [hk, List.take_length] at hf
      refine ⟨done, text.length + k', rfl, ?_, ?_, hc, ?_, ?_, ?_⟩
      · simp only [List.flatten_cons, List.length_append]
        omega
      · rw [List.flatten_cons, List.take_length_add_append, Exchange.allTaken_append]
        exact hf.trans hf'
      · intro e he
        rcases List.mem_append.mp he with he | he
        · exact offers_append h₁ e he
        · exact hf.sink ▸ hsink e he
      · rw [List.flatten_cons]
        refine hdrawn.append hdrawn' ?_
        rw [← List.append_assoc, hf.order, List.append_assoc]
      · rw [hdone', List.flatten_cons, List.length_append]
        omega

/-- Parts that could all be made are appended or fail; none is refused. -/
theorem appendAll_made {texts : List Bytes} {outcome : Except FormatFault Bool}
    (h : (b.appendAll (texts.map .ok)).Runs es (outcome, c)) : ∃ done, outcome = .ok done := by
  induction texts generalizing b es with
  | nil =>
    simp only [List.map_nil, appendAll, Dialogue.runs_pure, Prod.mk.injEq] at h
    exact ⟨true, h.2.1⟩
  | cons text texts ih =>
    simp only [List.map_cons, appendAll, Dialogue.runs_bind] at h
    obtain ⟨_, ⟨done, b₁⟩, _, _, h₂, _⟩ := h
    cases done with
    | false =>
      simp only [Bool.false_eq_true, ite_false, Dialogue.runs_pure, Prod.mk.injEq] at h₂
      exact ⟨false, h₂.2.1⟩
    | true => exact ih (by simpa only [ite_true] using h₂)

/-! ## Undoing -/

/-- A rollback to a mark in reach drops held bytes from the back down to the mark, or all of
them when the mark has left the buffer. What is left is counted again. -/
theorem rollback_eq {mark : Nat} (hb : b.Sound) (hm : mark ≤ b.appended) :
    b.rollback mark = (decide (b.drained ≤ mark),
      { b with held := b.held.take (mark - b.drained), appended := max mark b.drained }) := by
  have := hb.balance
  by_cases h : b.drained ≤ mark
  · simp only [rollback, h, ite_true, decide_true, Prod.mk.injEq, mk.injEq, true_and, and_true]
    omega
  · have hz : mark - b.drained = 0 := by omega
    simp only [rollback, h, ite_false, decide_false, hz, List.take_zero, Prod.mk.injEq, mk.injEq,
      true_and, and_true]
    omega

/-- A rollback in reach keeps a buffer sound. -/
theorem Sound.rollback {mark : Nat} (hb : b.Sound) (hm : mark ≤ b.appended)
    (h : b.rollback mark = (r, c)) : c.Sound := by
  rw [rollback_eq hb hm, Prod.mk.injEq] at h
  obtain ⟨_, rfl⟩ := h
  have hfits := hb.fits
  have hbal := hb.balance
  simp only [buffered] at hfits hbal
  refine ⟨hb.roomy, ?_, ?_⟩
  · simp only [buffered, List.length_take]
    omega
  · simp only [buffered, List.length_take]
    omega

/-- A rollback to a mark that is not before the start of a flow takes bytes back from the end
of those that entered, and no others. -/
theorem Flow.rollback {mark : Nat} (h : Flow a entered left b) (ha : a.Sound) (hb : b.Sound)
    (hstart : a.appended ≤ mark) (hm : mark ≤ b.appended) (hr : b.rollback mark = (r, c)) :
    Flow a (entered.take (max mark b.drained - a.appended)) left c := by
  rw [rollback_eq hb hm, Prod.mk.injEq] at hr
  obtain ⟨_, rfl⟩ := hr
  have hl := h.length_eq
  have hba := ha.balance
  have hbb := hb.balance
  have hd := h.drained
  have happ := h.appended
  simp only [buffered] at hl hba hbb
  refine ⟨?_, ?_, hd, h.sink, h.capacity⟩
  · calc left ++ b.held.take (mark - b.drained)
        = (left ++ b.held).take (left.length + (mark - b.drained)) :=
          (List.take_length_add_append ..).symm
      _ = (a.held ++ entered).take (a.held.length + (max mark b.drained - a.appended)) := by
          rw [h.order]
          congr 1
          omega
      _ = a.held ++ entered.take (max mark b.drained - a.appended) :=
          List.take_length_add_append ..
  · simp only [List.length_take]
    omega

/-- A rollback to the start of a flow leaves either nothing of what entered, or nothing held
and a beginning of what entered that has left already. -/
theorem Flow.undo {clean : Bool} (h : Flow a entered left b) (ha : a.Sound) (hb : b.Sound)
    (hr : b.rollback a.mark = (clean, c)) :
    (clean = true ∧ Flow a [] left c) ∨
    (clean = false ∧ c.held = [] ∧ ∃ young, young ≠ [] ∧ young <+: entered ∧
      Flow a young left c) := by
  have hreach : a.mark ≤ b.appended := by
    rw [h.appended]
    exact Nat.le_add_right ..
  have hflow := h.rollback ha hb (Nat.le_refl a.appended) hreach hr
  rw [rollback_eq hb hreach, Prod.mk.injEq] at hr
  obtain ⟨hclean, hc⟩ := hr
  cases clean with
  | true =>
    have hle : b.drained ≤ a.appended := of_decide_eq_true hclean
    have hnone : max a.appended b.drained - a.appended = 0 := by omega
    rw [hnone, List.take_zero] at hflow
    exact .inl ⟨rfl, hflow⟩
  | false =>
    have hlt : ¬ b.drained ≤ a.appended := of_decide_eq_false hclean
    have hempty : c.held = [] := by
      rw [← hc, List.take_eq_nil_iff]
      exact .inl (Nat.sub_eq_zero_of_le (Nat.le_of_not_le hlt))
    refine .inr ⟨rfl, hempty, _, ?_, List.take_prefix .., hflow⟩
    -- More has left than was held at the start.
    have hl := hflow.length_eq
    have hbal := ha.balance
    have hd := h.drained
    simp only [buffered, hempty, List.length_nil] at hl hbal
    exact List.ne_nil_of_length_pos (by omega)

end LeveledLog.Buffer
