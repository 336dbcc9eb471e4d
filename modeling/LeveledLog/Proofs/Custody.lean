import LeveledLog.Proofs.Exchange

/-!
# The custody of sinks

A sink that is handed over is kept until it is released. In one act, offers go to the sink that
is kept, and the sinks that are released or kept afterwards are those that were kept or handed
over. Acts add up to a ledger: as long as no sink is handed over twice, every sink is released
once or still kept, and none is offered anything after its release.
-/

namespace LeveledLog

open Exchange (released offers_told)

variable {sink : Sink} {before handed after kept : Option Sink} {given : List Sink}
  {es es' : List Exchange}

theorem Exchange.mem_released : sink ∈ released es ↔ .told (.released sink) ∈ es := by
  simp only [released, List.mem_filterMap]
  constructor
  · rintro ⟨e, he, h⟩
    split at h
    · cases h
      exact he
    · cases h
  · intro h
    exact ⟨_, h, rfl⟩

/-- An act in which a sink may be handed over while one may be kept. -/
structure Custody (before handed : Option Sink) (es : List Exchange) (after : Option Sink) :
    Prop where
  /-- There are offers to the sink that is kept, and then notices. -/
  calls : ∃ (offered : List Exchange) (notices : List Notice),
    es = offered ++ notices.map .told ∧ ∀ e ∈ offered, ∃ sink ∈ before, e.IsOfferTo sink
  /-- No sink gets lost or appears twice. -/
  balance : (released es ++ after.toList).Perm (before.toList ++ handed.toList)

namespace Custody

/-- Offers to the sink that is kept and notices that balance make an act. -/
theorem of_offers (h : ∀ e ∈ es, e.IsOfferTo sink) (notices : List Notice)
    (hb : (released (notices.map .told) ++ after.toList).Perm (sink :: handed.toList)) :
    Custody (some sink) handed (es ++ notices.map .told) after where
  calls := ⟨es, notices, rfl, fun e he => ⟨sink, rfl, h e he⟩⟩
  balance := by
    rw [Exchange.released_append, (Exchange.released_of_offers h).1, List.nil_append]
    exact hb

/-- Nothing but offers leaves the sink where it is. -/
theorem of_only_offers (h : ∀ e ∈ es, e.IsOfferTo sink) :
    Custody (some sink) none es (some sink) := by
  have hquiet : Custody (some sink) none (es ++ List.map .told []) (some sink) :=
    of_offers h [] (.refl _)
  rwa [List.map_nil, List.append_nil] at hquiet

/-- Offers go to the sink that is kept. -/
theorem eq_some_of_offered {data : Bytes} {answer : Nat} (h : Custody before handed es after)
    (he : .offered sink data answer ∈ es) : before = some sink := by
  obtain ⟨offered, notices, rfl, hoffered⟩ := h.calls
  rcases List.mem_append.mp he with he | he
  · obtain ⟨other, hother, _, _, heq⟩ := hoffered _ he
    cases heq
    exact hother
  · obtain ⟨notice, _, hnotice⟩ := List.mem_map.mp he
    cases hnotice

/-- Where no sink is kept, nothing is offered. -/
theorem drawnFrom (h : Custody none handed es after) (source : Bytes) :
    Exchange.DrawnFrom source es := by
  intro earlier sink data answer later heq
  cases h.eq_some_of_offered (heq ▸ List.mem_append_right _ List.mem_cons_self)

/-- Only the sink that is kept is offered anything. -/
theorem concernsOnly (h : Custody (some sink) handed es after) : ∀ e ∈ es, e.ConcernsOnly sink := by
  intro e he
  cases e with
  | offered other data answer => exact (Option.some.inj (h.eq_some_of_offered he)).symm
  | told notice => trivial

end Custody

/-- A sink is not offered anything. -/
def Exchange.Avoids (sink : Sink) : Exchange → Prop
  | .offered other _ _ => other.id ≠ sink.id
  | .told _ => True

/-- No sink is offered anything after its release. -/
def Spares (e later : Exchange) : Prop :=
  ∀ sink, e = .told (.released sink) → later.Avoids sink

/-- Within an act, releases come last. -/
theorem Custody.pairwise_spares (h : Custody before handed es after) : es.Pairwise Spares := by
  obtain ⟨offered, notices, rfl, hoffered⟩ := h.calls
  -- The offers release nothing, and among and behind the notices nothing is offered.
  refine List.pairwise_append.mpr ⟨?_, ?_, ?_⟩
  · refine List.pairwise_of_forall_mem_list fun e he _ _ sink hrelease => ?_
    obtain ⟨_, _, _, _, rfl⟩ := hoffered e he
    cases hrelease
  · refine List.pairwise_of_forall_mem_list fun _ _ later hlater _ _ => ?_
    obtain ⟨notice, _, rfl⟩ := List.mem_map.mp hlater
    trivial
  · intro e he later _ sink hrelease
    obtain ⟨_, _, _, _, rfl⟩ := hoffered e he
    cases hrelease

/-- What acts come to in which the given sinks were handed over. -/
structure Ledger (given : List Sink) (es : List Exchange) (kept : Option Sink) : Prop where
  /-- Every sink is released or still kept, and only once. -/
  balance : (released es ++ kept.toList).Perm given
  distinct : (given.map Sink.id).Nodup
  /-- No other sink is offered anything. -/
  offered : ∀ {sink data answer}, .offered sink data answer ∈ es → sink ∈ given
  spares : es.Pairwise Spares

namespace Ledger

/-- Before all acts one sink is kept. -/
theorem begin (first : Sink) : Ledger [first] [] (some first) :=
  ⟨.refl _, List.nodup_singleton _, by simp, .nil⟩

/-- A sink that is kept was handed over. -/
theorem mem_of_kept (h : Ledger given es (some sink)) : sink ∈ given :=
  h.balance.mem_iff.mp (List.mem_append_right _ (List.mem_singleton.mpr rfl))

/-- A sink that is kept was not released before. -/
theorem id_ne_of_released {other : Sink} (h : Ledger given es (some sink))
    (hother : other ∈ released es) : sink.id ≠ other.id := by
  have hnodup : ((released es ++ [sink]).map Sink.id).Nodup :=
    (h.balance.map Sink.id).nodup_iff.mpr h.distinct
  rw [List.map_append, List.nodup_append] at hnodup
  exact fun heq => hnodup.2.2 _ (List.mem_map_of_mem hother) _ (List.mem_singleton.mpr rfl)
    heq.symm

/-- Up to the end of an act, offers go to sinks that were handed over before it. -/
theorem mem_of_offered {data : Bytes} {answer : Nat} (h : Ledger given es kept)
    (hc : Custody kept handed es' after) (he : .offered sink data answer ∈ es ++ es') :
    sink ∈ given := by
  rcases List.mem_append.mp he with he | he
  · exact h.offered he
  · obtain rfl := hc.eq_some_of_offered he
    exact h.mem_of_kept

/-- An act in which no sink is handed over a second time goes into the ledger. -/
theorem act (h : Ledger given es kept) (hc : Custody kept handed es' after)
    (hfresh : ∀ sink ∈ handed, sink.id ∉ given.map Sink.id) :
    Ledger (given ++ handed.toList) (es ++ es') after where
  balance := by
    calc released (es ++ es') ++ after.toList
        = released es ++ (released es' ++ after.toList) := by
          rw [Exchange.released_append, List.append_assoc]
      List.Perm _ (released es ++ (kept.toList ++ handed.toList)) := hc.balance.append_left _
      _ = released es ++ kept.toList ++ handed.toList := (List.append_assoc ..).symm
      List.Perm _ (given ++ handed.toList) := h.balance.append_right _
  distinct := by
    cases handed with
    | none => simpa using h.distinct
    | some sink =>
      rw [Option.toList_some, List.map_append, List.nodup_append]
      refine ⟨h.distinct, List.nodup_singleton _, fun id hid other hother heq => ?_⟩
      rw [List.map_singleton, List.mem_singleton] at hother
      exact hfresh sink rfl (hother ▸ heq ▸ hid)
  offered := fun he => List.mem_append_left _ (h.mem_of_offered hc he)
  spares := by
    refine List.pairwise_append.mpr ⟨h.spares, hc.pairwise_spares, ?_⟩
    -- Whatever the act offers goes to the sink that was kept, so that one was not released.
    rintro e he later hlater sink rfl
    cases later with
    | offered other data answer =>
      obtain rfl := hc.eq_some_of_offered hlater
      exact h.id_ne_of_released (Exchange.mem_released.mpr he)
    | told notice => trivial

/-- A sink that was not handed over before an act is not offered anything up to its end. -/
theorem avoids_fresh (h : Ledger given es kept) (hc : Custody kept handed es' after)
    (hfresh : sink.id ∉ given.map Sink.id) : ∀ e ∈ es ++ es', e.Avoids sink := by
  intro e he
  cases e with
  | offered other data answer =>
    exact fun heq => hfresh (heq ▸ List.mem_map_of_mem (h.mem_of_offered hc he))
  | told notice => trivial

/-- A sink that was released is not offered anything afterwards. -/
theorem avoids_released (h : Ledger given (es ++ es') kept) (hsink : sink ∈ released es) :
    ∀ e ∈ es', e.Avoids sink := fun e he =>
  (List.pairwise_append.mp h.spares).2.2 _ (Exchange.mem_released.mp hsink) e he sink rfl

end Ledger

end LeveledLog
