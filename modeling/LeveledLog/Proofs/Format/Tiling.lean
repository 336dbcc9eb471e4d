import LeveledLog.Proofs.Format.Slots

/-!
# The tiling of a template

The tokens of a template lie in it one behind the other. Between two of them nothing is left
out but a backslash, and only where it makes the byte behind it plain. What a piece of plain
text may contain follows from how it was read: a percent sign is in it because a backslash made
it plain, or because it opened a slot that was never closed.
-/

namespace LeveledLog.Template

open Bytes (backslash)
open Spec (percent)

/-- The bytes of the template that a token reports. -/
def Token.bytes : Token → Bytes
  | .text content => content
  | .slot s => s.text

/-- A token and the number of bytes of the template before it. -/
structure Placed where
  token : Token
  start : Nat

namespace Placed

/-- The number of bytes of the template up to the end of a token. -/
def stop (p : Placed) : Nat := p.start + p.token.bytes.length

/-- Whether the byte with the given number belongs to the token. -/
def Covers (p : Placed) (i : Nat) : Prop := p.start ≤ i ∧ i < p.stop

/-- The token is a part of the template, not empty, and stands at its place. -/
def StandsIn (template : Bytes) (p : Placed) : Prop :=
  p.token.bytes ≠ [] ∧ (template.drop p.start).take p.token.bytes.length = p.token.bytes

end Placed

/-- The byte with the given number is a backslash that no token reports. It makes the byte
behind it plain, and a run of plain text begins with that byte. -/
def Skips (template : Bytes) (placed : List Placed) (i : Nat) : Prop :=
  (∀ p ∈ placed, ¬ p.Covers i) ∧ template[i]? = some backslash ∧
    ∃ p ∈ placed, p.start = i + 1 ∧
      ∃ b more, p.token = .text (b :: more) ∧ (b = percent ∨ b = backslash)

/-- Tokens lie in a template from a given number of bytes on to its end. -/
structure Tiles (template : Bytes) (start : Nat) (placed : List Placed) : Prop where
  /-- None of them begins earlier. -/
  bound : ∀ p ∈ placed, start ≤ p.start
  stands : ∀ p ∈ placed, p.StandsIn template
  /-- Each begins where those before it have ended, or later. -/
  apart : placed.Pairwise fun p q => p.stop ≤ q.start
  /-- Each byte belongs to exactly one of them or is skipped. -/
  covers : ∀ i, start ≤ i → i < template.length →
    (∃! p, p ∈ placed ∧ p.Covers i) ∨ Skips template placed i

namespace Tiles

variable {template : Bytes} {placed : List Placed} {p : Placed} {i : Nat}

/-- At the end of a template there are no tokens. -/
theorem nil (template : Bytes) : Tiles template template.length [] where
  bound := by simp
  stands := by simp
  apart := .nil
  covers := by
    intro i hle hlt
    exact absurd hlt (Nat.not_lt.mpr hle)

/-- A token lies in front of those that begin at its end. -/
theorem cons (h : Tiles template p.stop placed) (hp : p.StandsIn template) :
    Tiles template p.start (p :: placed) where
  bound := by
    have hle : p.start ≤ p.stop := Nat.le_add_right ..
    intro q hq
    rcases List.mem_cons.mp hq with rfl | hq
    · exact Nat.le_refl _
    · exact hle.trans (h.bound q hq)
  stands := List.forall_mem_cons.mpr ⟨hp, h.stands⟩
  apart := List.pairwise_cons.mpr ⟨h.bound, h.apart⟩
  covers := by
    intro i hle hlt
    by_cases hi : i < p.stop
    · refine .inl ⟨p, ⟨List.mem_cons_self .., hle, hi⟩, ?_⟩
      rintro q ⟨hq, hcov⟩
      rcases List.mem_cons.mp hq with rfl | hq
      · rfl
      · exact absurd hcov.1 (Nat.not_le.mpr (hi.trans_le (h.bound q hq)))
    · have hnot : ¬ p.Covers i := fun hcov => hi hcov.2
      rcases h.covers i (Nat.le_of_not_lt hi) hlt with
        ⟨q, ⟨hq, hcov⟩, huniq⟩ | ⟨hnone, hbs, q, hq, hafter⟩
      · refine .inl ⟨q, ⟨List.mem_cons_of_mem _ hq, hcov⟩, ?_⟩
        rintro r ⟨hr, hcov'⟩
        rcases List.mem_cons.mp hr with rfl | hr
        · exact absurd hcov' hnot
        · exact huniq r ⟨hr, hcov'⟩
      · exact .inr ⟨List.forall_mem_cons.mpr ⟨hnot, hnone⟩, hbs, q,
          List.mem_cons_of_mem _ hq, hafter⟩

/-- A backslash can be skipped in front of a run that begins with an escapable byte. -/
theorem skip (h : Tiles template (i + 1) (p :: placed)) (hbs : template[i]? = some backslash)
    (hstart : p.start = i + 1) {b : UInt8} {more : Bytes} (htoken : p.token = .text (b :: more))
    (hb : b = percent ∨ b = backslash) : Tiles template i (p :: placed) where
  bound := fun q hq => (Nat.le_succ i).trans (h.bound q hq)
  stands := h.stands
  apart := h.apart
  covers := by
    intro k hle hlt
    by_cases hk : k = i
    · subst hk
      refine .inr ⟨?_, hbs, p, List.mem_cons_self .., hstart, b, more, htoken, hb⟩
      intro q hq hcov
      exact absurd hcov.1 (Nat.not_le.mpr (h.bound q hq))
    · exact h.covers k (by omega) hlt

/-- No token begins where another one does. -/
theorem increasing {start : Nat} (h : Tiles template start placed) :
    placed.Pairwise fun p q => p.start < q.start := by
  refine h.apart.imp_of_mem fun {p q} hp _ hle => ?_
  have hpos : 0 < p.token.bytes.length := List.length_pos_iff.mpr (h.stands p hp).1
  unfold Placed.stop at hle
  omega

end Tiles

/-! ## What was read -/

/-- The bytes of the template that a reading has taken up. -/
def Reading.source : Reading → Bytes
  | plain true reversed => backslash :: reversed.reverse
  | plain false reversed => reversed.reverse
  | slot reversed => reversed.reverse

/-- A reading as it comes about: a run behind a backslash has begun with an escapable byte, no
run goes on beyond a percent sign, and an open slot has met no verb. -/
def Reading.IsFormed : Reading → Prop
  | plain true reversed =>
    ∃ more b, reversed = more ++ [b] ∧ (b = percent ∨ b = backslash) ∧ percent ∉ more
  | plain false reversed => percent ∉ reversed
  | slot reversed => (slot reversed).IsOpen

/-- A piece as it is read while the template goes on. -/
def Piece.IsFormed : Piece → Prop
  | plain true text => ∃ b more, text = b :: more ∧ (b = percent ∨ b = backslash) ∧ percent ∉ more
  | plain false text => text ≠ [] ∧ percent ∉ text
  | slot text => IsSlotText text

/-- A slot that is still open at the end of the template is its last piece. -/
def Piece.IsOpenEnd (p : Piece) : Prop :=
  ∃ more, p = .plain false (percent :: more) ∧ ∀ b ∈ more, Verb.isVerb b = false

/-- Pieces as they are read from a template. -/
def AreFormed (ps : List Piece) : Prop :=
  ∃ closed tail, ps = closed ++ tail ∧ (∀ p ∈ closed, p.IsFormed) ∧
    (tail = [] ∨ ∃ p, tail = [p] ∧ p.IsOpenEnd)

theorem AreFormed.append {ps qs : List Piece} (hp : ∀ p ∈ ps, p.IsFormed) (hq : AreFormed qs) :
    AreFormed (ps ++ qs) := by
  obtain ⟨closed, tail, rfl, hclosed, htail⟩ := hq
  refine ⟨ps ++ closed, tail, (List.append_assoc ..).symm, ?_, htail⟩
  intro p hmem
  rcases List.mem_append.mp hmem with hmem | hmem
  · exact hp p hmem
  · exact hclosed p hmem

theorem isEscapable_iff {b : UInt8} : isEscapable b = true ↔ b = percent ∨ b = backslash := by
  simp only [isEscapable, Bool.or_eq_true, beq_iff_eq]

/-- A run of plain text that breaks off is complete. -/
theorem isFormed_stop {escaped : Bool} {reversed : Bytes}
    (h : (Reading.plain escaped reversed).IsFormed) :
    ∀ p ∈ (Reading.plain escaped reversed).stop, p.IsFormed := by
  intro p hp
  cases reversed with
  | nil => simp [Reading.stop] at hp
  | cons c reversed =>
    obtain rfl := List.mem_singleton.mp hp
    cases escaped with
    | false =>
      have hnone : percent ∉ c :: reversed := h
      exact ⟨by simp, mt List.mem_reverse.mp hnone⟩
    | true =>
      obtain ⟨more, b, heq, hb, hmore⟩ := h
      refine ⟨b, more.reverse, ?_, hb, by simpa using hmore⟩
      rw [heq, List.reverse_append, List.reverse_singleton, List.singleton_append]

/-- A run of plain text that breaks off covers what was taken up. -/
theorem source_stop {escaped : Bool} {reversed : Bytes}
    (h : (Reading.plain escaped reversed).IsFormed) :
    (Reading.plain escaped reversed).stop.flatMap Piece.source =
      (Reading.plain escaped reversed).source := by
  cases escaped with
  | false => cases reversed <;> simp [Reading.stop, Reading.source, Piece.source]
  | true =>
    obtain ⟨more, b, rfl, _⟩ := h
    cases more <;> simp [Reading.stop, Reading.source, Piece.source]

/-- A byte that neither opens a slot nor is taken away from the run goes into the run. -/
theorem Reading.IsFormed.take {escaped : Bool} {reversed : Bytes} {b : UInt8}
    (h : (Reading.plain escaped reversed).IsFormed) (hb : (b == percent) = false) :
    (Reading.plain escaped (b :: reversed)).IsFormed := by
  have hne : percent ≠ b := fun heq => by simp [heq] at hb
  cases escaped with
  | false => exact List.not_mem_cons_of_ne_of_not_mem hne h
  | true =>
    obtain ⟨more, c, rfl, hc, hmore⟩ := h
    exact ⟨b :: more, c, rfl, hc, List.not_mem_cons_of_ne_of_not_mem hne hmore⟩

theorem isFormed_open {b : UInt8} (hb : (b == percent) = true) : (Reading.slot [b]).IsFormed :=
  ⟨[], by simpa using hb, by simp⟩

/-- However far a template has been read, its pieces cover the bytes that were taken up and
those that follow, and they have the form of pieces. -/
theorem piecesFrom_cover {reading : Reading} {rest : Bytes} (h : reading.IsFormed) :
    (piecesFrom reading rest).flatMap Piece.source = reading.source ++ rest ∧
      AreFormed (piecesFrom reading rest) := by
  fun_induction piecesFrom reading rest with
  | case1 reading =>
    cases reading with
    | plain escaped reversed =>
      refine ⟨by rw [source_stop h, List.append_nil], _, [], (List.append_nil _).symm,
        isFormed_stop h, .inl rfl⟩
    | slot reversed =>
      obtain ⟨modifiers, rfl, hmod⟩ := h
      refine ⟨by simp [Reading.stop, Piece.source, Reading.source], [], _, rfl, by simp,
        .inr ⟨_, rfl, modifiers.reverse, ?_, ?_⟩⟩
      · rw [List.reverse_append, List.reverse_singleton, List.singleton_append]
      · simpa using hmod
  | case2 reversed b rest hverb ih =>
    obtain ⟨modifiers, rfl, hmod⟩ := h
    obtain ⟨hsource, hformed⟩ := ih (by simp [Reading.IsFormed])
    refine ⟨?_, .append (List.forall_mem_singleton.mpr ?_) hformed⟩
    · rw [List.flatMap_cons, hsource]
      simp [Piece.source, Reading.source]
    · exact ⟨modifiers.reverse, b, by simp, hverb, by simpa using hmod⟩
  | case3 reversed b rest hverb ih =>
    obtain ⟨modifiers, rfl, hmod⟩ := h
    have hopen : (Reading.slot (b :: (modifiers ++ [percent]))).IsFormed :=
      ⟨b :: modifiers, rfl, List.forall_mem_cons.mpr ⟨by simpa using hverb, hmod⟩⟩
    obtain ⟨hsource, hformed⟩ := ih hopen
    exact ⟨by rw [hsource]; simp [Reading.source], hformed⟩
  | case4 escaped reversed b hpercent ih =>
    obtain ⟨hsource, hformed⟩ := ih (isFormed_open hpercent)
    refine ⟨?_, .append (isFormed_stop h) hformed⟩
    rw [List.flatMap_append, source_stop h, hsource]
    simp [Reading.source]
  | case5 escaped reversed b hpercent ih =>
    obtain ⟨hsource, hformed⟩ := ih (h.take (by simpa using hpercent))
    refine ⟨?_, hformed⟩
    rw [hsource]
    cases escaped <;> simp [Reading.source]
  | case6 escaped reversed b c rest hescape ih =>
    obtain ⟨hb, hc⟩ := Bool.and_eq_true_iff.mp hescape
    have hrun : (Reading.plain true [c]).IsFormed := ⟨[], c, rfl, isEscapable_iff.mp hc, by simp⟩
    obtain ⟨hsource, hformed⟩ := ih hrun
    refine ⟨?_, .append (isFormed_stop h) hformed⟩
    rw [List.flatMap_append, source_stop h, hsource, eq_of_beq hb]
    simp [Reading.source]
  | case7 escaped reversed b c rest _ hpercent ih =>
    obtain ⟨hsource, hformed⟩ := ih (isFormed_open hpercent)
    refine ⟨?_, .append (isFormed_stop h) hformed⟩
    rw [List.flatMap_append, source_stop h, hsource]
    simp [Reading.source]
  | case8 escaped reversed b c rest _ hpercent ih =>
    obtain ⟨hsource, hformed⟩ := ih (h.take (by simpa using hpercent))
    refine ⟨?_, hformed⟩
    rw [hsource]
    cases escaped <;> simp [Reading.source]

/-- The pieces of a template cover it. -/
theorem source_pieces (template : Bytes) :
    (pieces template).flatMap Piece.source = template ∧ AreFormed (pieces template) := by
  have hstart : (Reading.plain false []).IsFormed := List.not_mem_nil
  exact piecesFrom_cover hstart

/-! ## Where the tokens stand -/

/-- The token of a piece that stands behind the given numbers of bytes and of slots. -/
def Piece.placeAt (offset ordinal : Nat) : Piece → Placed
  | plain true text => ⟨.text text, offset + 1⟩
  | plain false text => ⟨.text text, offset⟩
  | slot text => ⟨.slot ⟨text, offset, ordinal⟩, offset⟩

/-- The tokens of pieces that stand behind the given numbers of bytes and of slots. -/
def place (offset ordinal : Nat) : List Piece → List Placed
  | [] => []
  | p@(.plain _ _) :: rest =>
    p.placeAt offset ordinal :: place (offset + p.source.length) ordinal rest
  | p@(.slot _) :: rest =>
    p.placeAt offset ordinal :: place (offset + p.source.length) (ordinal + 1) rest

/-- Each piece is placed behind the bytes of those before it. -/
theorem place_cons (offset ordinal : Nat) (p : Piece) :
    ∃ later, ∀ rest, place offset ordinal (p :: rest) =
      p.placeAt offset ordinal :: place (offset + p.source.length) later rest := by
  cases p with
  | plain escaped text => exact ⟨ordinal, fun _ => rfl⟩
  | slot text => exact ⟨ordinal + 1, fun _ => rfl⟩

/-- The tokens that are placed are those that are located. -/
theorem map_token_place (offset ordinal : Nat) (ps : List Piece) :
    (place offset ordinal ps).map Placed.token = locate offset ordinal ps := by
  fun_induction locate offset ordinal ps with
  | case1 => rfl
  | case2 offset ordinal escaped text rest ih =>
    rw [place, List.map_cons, ih]
    cases escaped <;> rfl
  | case3 offset ordinal text rest ih =>
    rw [place, List.map_cons, ih]
    rfl

/-- A placed token is that of one of the pieces, behind the bytes of those before it. -/
theorem mem_place {offset ordinal : Nat} {ps : List Piece} {p : Placed}
    (h : p ∈ place offset ordinal ps) : ∃ before piece after later,
      ps = before ++ piece :: after ∧
        p = piece.placeAt (offset + (before.flatMap Piece.source).length) later := by
  induction ps generalizing offset ordinal with
  | nil => simp [place] at h
  | cons first rest ih =>
    obtain ⟨next, hplace⟩ := place_cons offset ordinal first
    rw [hplace] at h
    rcases List.mem_cons.mp h with rfl | h
    · exact ⟨[], first, rest, ordinal, rfl, by simp⟩
    · obtain ⟨before, piece, after, later, rfl, rfl⟩ := ih h
      refine ⟨first :: before, piece, after, later, rfl, ?_⟩
      rw [List.flatMap_cons, List.length_append, Nat.add_assoc]

/-- What comes before a piece does not matter for where the later ones are placed, but for its
length. -/
theorem place_append (offset ordinal : Nat) (before rest : List Piece) :
    ∃ later, place offset ordinal (before ++ rest) = place offset ordinal before ++
      place (offset + (before.flatMap Piece.source).length) later rest := by
  induction before generalizing offset ordinal with
  | nil => exact ⟨ordinal, rfl⟩
  | cons p before ih =>
    obtain ⟨next, hplace⟩ := place_cons offset ordinal p
    obtain ⟨later, hrest⟩ := ih (offset + p.source.length) next
    refine ⟨later, ?_⟩
    rw [List.cons_append, hplace, hplace, hrest, List.flatMap_cons, List.length_append,
      Nat.add_assoc, List.cons_append]

/-- Only the last piece of a template can be an open slot. -/
theorem AreFormed.split {before after : List Piece} {p : Piece}
    (h : AreFormed (before ++ p :: after)) : p.IsFormed ∨ p.IsOpenEnd ∧ after = [] := by
  obtain ⟨closed, tail, heq, hclosed, htail⟩ := h
  rcases htail with rfl | ⟨q, rfl, hq⟩
  · rw [List.append_nil] at heq
    exact .inl (hclosed p (heq ▸ by simp))
  · rcases List.eq_nil_or_concat after with rfl | ⟨front, last, rfl⟩
    · obtain ⟨_, hlast⟩ := List.append_inj' heq rfl
      obtain rfl := List.singleton_inj.mp hlast
      exact .inr ⟨hq, rfl⟩
    · rw [List.concat_eq_append, ← List.cons_append, ← List.append_assoc] at heq
      obtain ⟨rfl, _⟩ := List.append_inj' heq rfl
      exact .inl (hclosed p (by simp))

/-- A piece that no open slot can be has the form of its kind wherever it stands. -/
theorem AreFormed.isFormed {before after : List Piece} {p : Piece}
    (h : AreFormed (before ++ p :: after)) (hp : ∀ text, p ≠ .plain false text) : p.IsFormed := by
  refine h.split.resolve_right fun hopen => ?_
  obtain ⟨⟨_, heq, _⟩, _⟩ := hopen
  exact hp _ heq

/-- What every piece of a template satisfies, be it its last or not. -/
theorem AreFormed.solid {ps : List Piece} (h : AreFormed ps) {p : Piece} (hp : p ∈ ps) :
    p.IsFormed ∨ p.IsOpenEnd := by
  obtain ⟨before, after, rfl⟩ := List.append_of_mem hp
  exact h.split.imp_right And.left

/-- A part of a template stands where the part before it ends. -/
theorem take_drop_middle (front text behind : Bytes) :
    ((front ++ text ++ behind).drop front.length).take text.length = text := by
  rw [List.append_assoc, List.drop_left, List.take_left]

/-- The token of a piece covers the bytes of the piece, but for the backslash in front of an
escaped run. -/
theorem Tiles.placeAt {front behind : Bytes} {piece : Piece} {placed : List Placed}
    (ordinal : Nat) (hp : piece.IsFormed ∨ piece.IsOpenEnd)
    (h : Tiles (front ++ piece.source ++ behind) (front.length + piece.source.length) placed) :
    Tiles (front ++ piece.source ++ behind) front.length
      (piece.placeAt front.length ordinal :: placed) := by
  cases piece with
  | slot text =>
    have hne : text ≠ [] := by
      rcases hp with ⟨modifiers, verb, rfl, _⟩ | ⟨more, heq, _⟩
      · simp
      · cases heq
    exact h.cons (p := Piece.placeAt _ ordinal (.slot text))
      ⟨hne, take_drop_middle front text behind⟩
  | plain escaped text =>
    cases escaped with
    | false =>
      have hne : text ≠ [] := by
        rcases hp with ⟨hne, _⟩ | ⟨more, heq, _⟩
        · exact hne
        · cases heq
          simp
      exact h.cons (p := Piece.placeAt _ ordinal (.plain false text))
        ⟨hne, take_drop_middle front text behind⟩
    | true =>
      obtain ⟨b, more, rfl, hb, _⟩ := hp.resolve_right nofun
      have hfront : front ++ backslash :: b :: more ++ behind =
          (front ++ [backslash]) ++ (b :: more) ++ behind := by simp
      have hstop : front.length + (backslash :: b :: more).length =
          (Piece.placeAt front.length ordinal (.plain true (b :: more))).stop := by
        simp only [Piece.placeAt, Placed.stop, Token.bytes, List.length_cons]
        omega
      simp only [Piece.source] at h ⊢
      rw [hstop] at h
      refine (h.cons ⟨List.cons_ne_nil _ _, ?_⟩).skip (by simp) rfl rfl hb
      have hmiddle := take_drop_middle (front ++ [backslash]) (b :: more) behind
      rw [List.length_append, List.length_singleton, ← hfront] at hmiddle
      exact hmiddle

/-- The tokens of pieces lie in the bytes of the pieces. -/
theorem tiles_place (front : Bytes) (ordinal : Nat) {ps : List Piece}
    (h : ∀ p ∈ ps, p.IsFormed ∨ p.IsOpenEnd) :
    Tiles (front ++ ps.flatMap Piece.source) front.length (place front.length ordinal ps) := by
  induction ps generalizing front ordinal with
  | nil => simpa [place] using Tiles.nil front
  | cons p rest ih =>
    obtain ⟨hp, hrest⟩ := List.forall_mem_cons.mp h
    obtain ⟨later, hplace⟩ := place_cons front.length ordinal p
    have hlater := ih (front ++ p.source) later hrest
    rw [List.length_append] at hlater
    rw [hplace, List.flatMap_cons, ← List.append_assoc]
    exact hlater.placeAt ordinal hp

/-- A token of a template ends with the template at the latest. -/
theorem Placed.StandsIn.stop_le {template : Bytes} {p : Placed} (h : p.StandsIn template) :
    p.stop ≤ template.length := by
  obtain ⟨hne, htake⟩ := h
  have hpos : 0 < p.token.bytes.length := List.length_pos_iff.mpr hne
  have hlen := congrArg List.length htake
  rw [List.length_take, List.length_drop] at hlen
  unfold Placed.stop
  omega

/-- The backslash of an escaped piece is skipped. -/
theorem skips_escaped {before after : List Piece} {text : Bytes}
    (h : AreFormed (before ++ .plain true text :: after)) :
    Skips ((before ++ .plain true text :: after).flatMap Piece.source)
      (place 0 0 (before ++ .plain true text :: after))
      (before.flatMap Piece.source).length := by
  obtain ⟨b, more, rfl, hb, _⟩ := h.isFormed nofun
  obtain ⟨later, hplace⟩ := place_append 0 0 before (.plain true (b :: more) :: after)
  rw [Nat.zero_add, place] at hplace
  refine ⟨?_, ?_, ⟨.text (b :: more), (before.flatMap Piece.source).length + 1⟩, ?_, rfl, b, more,
    rfl, hb⟩
  · rw [hplace]
    intro q hq hcov
    have hbefore : ∀ p ∈ before, p.IsFormed ∨ p.IsOpenEnd := fun p hp =>
      h.solid (List.mem_append_left _ hp)
    have hafter : ∀ p ∈ after, p.IsFormed ∨ p.IsOpenEnd := fun p hp =>
      h.solid (List.mem_append_right _ (List.mem_cons_of_mem _ hp))
    rcases List.mem_append.mp hq with hq | hq
    · have hstands := (tiles_place [] 0 hbefore).stands q hq
      exact absurd hcov.2 (Nat.not_lt.mpr hstands.stop_le)
    · rcases List.mem_cons.mp hq with rfl | hq
      · exact absurd hcov.1 (Nat.not_succ_le_self _)
      · have htiles :=
          tiles_place (before.flatMap Piece.source ++ backslash :: b :: more) later hafter
        rw [List.length_append] at htiles
        have hbound := htiles.bound q hq
        have hstart := hcov.1
        rw [List.length_cons] at hbound
        omega
  · simp [Piece.source]
  · rw [hplace]
    exact List.mem_append_right _ (List.mem_cons_self ..)

/-- A percent sign in plain text is the byte that the skipped backslash before it makes plain,
or the text runs to the end of the template from a percent sign without a verb behind it. -/
theorem percent_in_text {template : Bytes} {p : Placed} {content : Bytes}
    (hp : p ∈ place 0 0 (pieces template)) (htext : p.token = .text content)
    (hmem : percent ∈ content) : ∃ more, content = percent :: more ∧
      ((percent ∉ more ∧
          ∃ i, p.start = i + 1 ∧ Skips template (place 0 0 (pieces template)) i) ∨
        (p.stop = template.length ∧ ∀ b ∈ more, Verb.isVerb b = false)) := by
  obtain ⟨hsource, hformed⟩ := source_pieces template
  obtain ⟨before, piece, after, later, hsplit, rfl⟩ := mem_place hp
  rw [hsplit] at hformed
  cases piece with
  | slot text => cases htext
  | plain escaped text =>
    cases escaped with
    | true =>
      obtain rfl := Token.text.inj htext
      have hskips := skips_escaped hformed
      rw [← hsplit, hsource] at hskips
      obtain ⟨b, more, rfl, _, hmore⟩ := hformed.isFormed nofun
      obtain rfl : percent = b := (List.mem_cons.mp hmem).resolve_right hmore
      exact ⟨more, rfl, .inl ⟨hmore, _, by simp [Piece.placeAt], hskips⟩⟩
    | false =>
      obtain rfl := Token.text.inj htext
      obtain ⟨⟨more, heq, hmore⟩, rfl⟩ := hformed.split.resolve_left fun h => h.2 hmem
      cases heq
      refine ⟨more, rfl, .inr ⟨?_, hmore⟩⟩
      rw [← hsource, hsplit]
      simp [Piece.placeAt, Placed.stop, Token.bytes, Piece.source]

/-- The slots of a template are placed where they say, and have the form of slots. -/
theorem slot_placed {template : Bytes} {p : Placed} {slot : Slot}
    (hp : p ∈ place 0 0 (pieces template)) (hslot : p.token = .slot slot) :
    slot.offset = p.start ∧ IsSlotText slot.text := by
  have hformed := (source_pieces template).2
  obtain ⟨before, piece, after, later, hsplit, rfl⟩ := mem_place hp
  rw [hsplit] at hformed
  cases piece with
  | plain escaped text => cases escaped <;> cases hslot
  | slot text =>
    obtain rfl := Token.slot.inj hslot
    exact ⟨rfl, hformed.isFormed nofun⟩

/-- The tokens of a template are parts of it that are not empty and stand one behind the other.
Every byte belongs to exactly one of them, but for backslashes, each in front of a run of plain
text that begins with the percent sign or the backslash it makes plain. A slot runs from a
percent sign to the first verb behind it, and says where it stands and how many slots stand
before it. A percent sign is plain text only where a backslash makes it so, or in the last
token, which then is a slot that no verb closes. The number of slots is the number of tokens
that are slots. -/
theorem tokens_tile_template (template : Bytes) : ∃ placed : List Placed,
    placed.map Placed.token = tokens template ∧ Tiles template 0 placed ∧
    (placed.Pairwise fun p q => p.start < q.start) ∧
    (∀ p ∈ placed, ∀ slot, p.token = .slot slot →
      slot.offset = p.start ∧ IsSlotText slot.text) ∧
    (∀ (n : Nat) (slot : Slot), (slots template)[n]? = some slot → slot.ordinal = n) ∧
    (∀ p ∈ placed, ∀ content, p.token = .text content → percent ∈ content →
      ∃ more, content = percent :: more ∧
        ((percent ∉ more ∧ ∃ i, p.start = i + 1 ∧ Skips template placed i) ∨
          (p.stop = template.length ∧ ∀ b ∈ more, Verb.isVerb b = false))) ∧
    slotCount template = (tokens template).countP fun token => token.slot?.isSome := by
  obtain ⟨hsource, hformed⟩ := source_pieces template
  have htiles := tiles_place [] 0 fun p hp => hformed.solid hp
  rw [List.nil_append, hsource] at htiles
  refine ⟨place 0 0 (pieces template), map_token_place .., htiles, htiles.increasing, ?_, ?_, ?_,
    ?_⟩
  · intro p hp slot hslot
    exact slot_placed hp hslot
  · intro n slot hn
    have hordinal : ((slots template).map Slot.ordinal)[n]? = some slot.ordinal := by
      rw [List.getElem?_map, hn, Option.map_some]
    rw [ordinals_slots] at hordinal
    obtain ⟨_, hrange⟩ := List.getElem?_eq_some_iff.mp hordinal
    rw [← hrange, List.getElem_range]
  · intro p hp content htext hmem
    exact percent_in_text hp htext hmem
  · exact List.length_filterMap_eq_countP ..

/-- A percent sign is made plain in front of a slot, and a backslash at the end is plain. -/
example : tokens (utf8 "\\%%d\\") =
    [.text (utf8 "%"), .slot ⟨utf8 "%d", 2, 0⟩, .text (utf8 "\\")] := by decide +kernel

end LeveledLog.Template
