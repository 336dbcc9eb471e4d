import LeveledLog.Descriptor
import Mathlib

/-!
# A descriptor keeps account

Whatever the operating system answers, what it takes of the bytes that are written to a descriptor
is a beginning of them, without a gap and without a repetition, and the write returns the length of
that beginning. It falls short of the whole only by an error, and over any number of writes the
descriptor counts the bytes and the errors and reports the first error.
-/

namespace LeveledLog

/-- The error by which an answer ends a write, if it ends it. -/
def SystemAnswer.fatal? : SystemAnswer → Option SystemError
  | took 0 => some .inputOutput
  | took _ => none
  | failed cause => if cause.isInterruption then none else some cause

namespace SystemCall

/-- The bytes that the operating system took: as many of those offered as it said. -/
def taken (c : SystemCall) : Bytes :=
  match c.answer with
  | .took count => c.offered.take count
  | .failed _ => []

/-- The operating system does not take more than it is offered. -/
def IsPossible (c : SystemCall) : Prop :=
  match c.answer with
  | .took count => count ≤ c.offered.length
  | .failed _ => True

instance (c : SystemCall) : Decidable c.IsPossible := by
  unfold IsPossible
  split <;> infer_instance

/-- The bytes that the operating system took in calls, in order. -/
def allTaken (calls : List SystemCall) : Bytes := calls.flatMap taken

/-- The first error in calls by which an answer ends a write. -/
def fatal? (calls : List SystemCall) : Option SystemError :=
  calls.findSome? fun call => call.answer.fatal?

@[simp] theorem allTaken_cons (call : SystemCall) (calls : List SystemCall) :
    allTaken (call :: calls) = call.taken ++ allTaken calls := List.flatMap_cons ..

@[simp] theorem allTaken_append (calls later : List SystemCall) :
    allTaken (calls ++ later) = allTaken calls ++ allTaken later := List.flatMap_append

theorem fatal?_append (calls later : List SystemCall) :
    fatal? (calls ++ later) = (fatal? calls).or (fatal? later) := List.findSome?_append

theorem fatal?_ne_none_iff {calls : List SystemCall} :
    fatal? calls ≠ none ↔ ∃ call ∈ calls, call.answer.fatal? ≠ none := by
  simp [fatal?, List.findSome?_eq_none_iff]

/-- What ends a write takes nothing. -/
theorem taken_of_fatal {data : Bytes} {answer : SystemAnswer} {cause : SystemError}
    (h : answer.fatal? = some cause) : taken ⟨data, answer⟩ = [] := by
  cases answer with
  | took count =>
    cases count with
    | zero => rfl
    | succ count => cases h
  | failed => rfl

end SystemCall

namespace Transfer

open SystemCall (allTaken fatal?)

variable {answer : SystemAnswer} {cause : SystemError} {data : Bytes} {n : Nat} {t : Transfer}

/-- What a transfer makes of the bytes that it is given. -/
structure Accounts (data : Bytes) (t : Transfer) : Prop where
  /-- What was taken is a beginning of the bytes, and its length was counted. -/
  taken : allTaken t.calls = data.take t.count
  count_le : t.count ≤ data.length
  /-- Every call goes on where the bytes end that were taken before it, and offers all the rest. -/
  goes_on : ∀ (earlier : List SystemCall) (call : SystemCall) (later : List SystemCall),
    t.calls = earlier ++ call :: later →
    call.offered = data.drop (allTaken earlier).length ∧ call.offered ≠ []
  failure : t.failure = fatal? t.calls
  short_iff : t.count < data.length ↔ t.failure ≠ none

/-- Nothing is asked when there is nothing to write. -/
theorem Accounts.calls_eq_nil (h : t.Accounts []) : t.calls = [] := by
  cases hcalls : t.calls with
  | nil => rfl
  | cons call later =>
    obtain ⟨hoffered, hne⟩ := h.goes_on [] call later hcalls
    exact absurd (hoffered.trans List.drop_nil) hne

/-- A single call has no calls before it. -/
private theorem goes_on_single (hdata : data ≠ []) :
    ∀ (earlier : List SystemCall) (call : SystemCall) (later : List SystemCall),
      [SystemCall.mk data answer] = earlier ++ call :: later →
      call.offered = data.drop (allTaken earlier).length ∧ call.offered ≠ [] := by
  intro earlier call later hcalls
  cases earlier with
  | nil =>
    cases hcalls
    exact ⟨rfl, hdata⟩
  | cons _ earlier =>
    exact absurd (List.cons.inj hcalls).2.symm
      (List.append_ne_nil_of_right_ne_nil _ (List.cons_ne_nil _ _))

/-- A call that takes everything ends a transfer. -/
theorem accounts_everything (hdata : data ≠ []) :
    Accounts data ⟨[⟨data, .took data.length⟩], data.length, none⟩ where
  taken := List.append_nil _
  count_le := Nat.le_refl _
  goes_on := goes_on_single hdata
  failure := by
    have hlength : data.length ≠ 0 := fun h => hdata (List.length_eq_zero_iff.mp h)
    simp [fatal?, SystemAnswer.fatal?]
  short_iff := by simp

/-- An error ends a transfer. -/
theorem accounts_failure (hdata : data ≠ []) (hfatal : answer.fatal? = some cause) :
    Accounts data ⟨[⟨data, answer⟩], 0, some cause⟩ where
  taken := (List.append_nil _).trans (SystemCall.taken_of_fatal hfatal)
  count_le := Nat.zero_le _
  goes_on := goes_on_single hdata
  failure := by simp [fatal?, hfatal]
  short_iff := by simpa using List.length_pos_iff.mpr hdata

/-- A call that does not end the transfer goes in front of the transfer of the rest. -/
theorem Accounts.behind (h : t.Accounts (data.drop n)) (hdata : data ≠ []) (hn : n ≤ data.length)
    (htaken : (SystemCall.mk data answer).taken = data.take n) (hgoes : answer.fatal? = none) :
    (t.behind ⟨data, answer⟩ n).Accounts data where
  taken := by
    simp only [Transfer.behind, SystemCall.allTaken_cons, htaken, h.taken, List.take_add]
  count_le := by
    have hle := h.count_le
    rw [List.length_drop] at hle
    simp only [Transfer.behind]
    omega
  goes_on := by
    intro earlier call later hcalls
    cases earlier with
    | nil =>
      cases hcalls
      exact ⟨rfl, hdata⟩
    | cons first earlier =>
      obtain ⟨rfl, hlater⟩ := List.cons.inj hcalls
      obtain ⟨hoffered, hne⟩ := h.goes_on earlier call later hlater
      refine ⟨?_, hne⟩
      rw [hoffered, SystemCall.allTaken_cons, htaken, List.drop_drop, List.length_append,
        List.length_take, Nat.min_eq_left hn]
  failure := by
    simp only [Transfer.behind, h.failure, fatal?, List.findSome?_cons, hgoes]
  short_iff := by
    have hshort := h.short_iff
    rw [List.length_drop] at hshort
    simp only [Transfer.behind]
    rw [← hshort]
    omega

/-- A transfer accounts for the bytes it is given, whatever the answers are. -/
theorem accounts_ofAnswers (answers : List SystemAnswer) (data : Bytes)
    (h : ∀ call ∈ (ofAnswers answers data).calls, call.IsPossible) :
    (ofAnswers answers data).Accounts data := by
  fun_induction ofAnswers answers data with
  | case1 => exact ⟨rfl, Nat.le_refl _, fun _ _ _ hcalls => absurd hcalls (by simp), rfl, by simp⟩
  | case2 data hdata => exact accounts_everything hdata
  | case3 data rest hdata => exact accounts_failure hdata rfl
  | case4 count rest data hdata hcount ih =>
    have hpossible : count ≤ data.length := h _ List.mem_cons_self
    obtain ⟨count, rfl⟩ := Nat.exists_eq_succ_of_ne_zero hcount
    have hrest := ih fun call hcall => h call (List.mem_cons_of_mem _ hcall)
    exact hrest.behind hdata hpossible rfl rfl
  | case5 cause rest data hdata hagain ih =>
    have hrest : (ofAnswers rest data).Accounts (data.drop 0) :=
      ih fun call hcall => h call (List.mem_cons_of_mem _ hcall)
    exact hrest.behind hdata (Nat.zero_le _) List.take_zero.symm (if_pos hagain)
  | case6 cause rest data hdata hfatal => exact accounts_failure hdata (if_neg hfatal)

/-- A transfer hears the answers that are given, and another one when they are at their end. -/
theorem answers_ofAnswers (answers : List SystemAnswer) (data : Bytes) : ∃ n,
    (ofAnswers answers data).calls.map SystemCall.answer <+: answers ++ [.took n] := by
  fun_induction ofAnswers answers data with
  | case1 => exact ⟨0, List.nil_prefix⟩
  | case2 data => exact ⟨data.length, List.prefix_rfl⟩
  | case3 | case6 => exact ⟨0, List.prefix_append [_] _⟩
  | case4 _ _ _ _ _ ih | case5 _ _ _ _ _ ih =>
    obtain ⟨n, hn⟩ := ih
    exact ⟨n, (List.prefix_cons_inj _).mpr hn⟩

end Transfer

namespace Descriptor

open SystemCall (allTaken fatal? fatal?_ne_none_iff)

/-- Bytes to be written, with the answers that the operating system gives meanwhile. -/
structure Order where
  data : Bytes
  answers : List SystemAnswer
  deriving DecidableEq, Repr

/-- A write as it happened. -/
structure Passage extends Written where
  data : Bytes
  deriving DecidableEq, Repr

/-- Whether the write took less than it was given. -/
def Passage.isShort (p : Passage) : Bool := p.count < p.data.length

/-- The writes to a descriptor, one after the other. -/
def passages (d : Descriptor) : List Order → List Passage
  | [] => []
  | order :: rest =>
    let w := d.write order.answers order.data
    ⟨w, order.data⟩ :: w.descriptor.passages rest

/-- The descriptor after writes. -/
def after (d : Descriptor) : List Order → Descriptor
  | [] => d
  | order :: rest => (d.write order.answers order.data).descriptor.after rest

variable {d : Descriptor}

@[simp] theorem calls_account (d : Descriptor) (t : Transfer) : (d.account t).calls = t.calls := by
  unfold account
  split <;> rfl

/-- A write that does not fail is counted. -/
theorem account_of_none {t : Transfer} (h : t.failure = none) :
    d.account t = ⟨t.calls, t.count, { d with written := d.written + t.count }, none⟩ := by
  rw [account, h]

/-- A write that fails is counted, and so is its failure. -/
theorem account_of_some {t : Transfer} {cause : SystemError} (h : t.failure = some cause) :
    d.account t = ⟨t.calls, t.count,
      { d with written := d.written + t.count, failures := d.failures + 1 },
      if d.failures = 0 then some (d.failureReport cause) else none⟩ := by
  rw [account, h]

/-- A write to a descriptor as it is counted and reported. -/
structure Passage.Follows (d : Descriptor) (p : Passage) : Prop where
  accounts : Transfer.Accounts p.data ⟨p.calls, p.count, fatal? p.calls⟩
  written : p.descriptor.written = d.written + p.count
  failures : p.descriptor.failures = d.failures + [p].countP Passage.isShort
  same : p.descriptor.failureReport = d.failureReport
  /-- Only the first failure is reported. -/
  report : p.report = if d.failures = 0 then (fatal? p.calls).map d.failureReport else none

theorem follows_write (d : Descriptor) (order : Order)
    (h : ∀ call ∈ (d.write order.answers order.data).calls, call.IsPossible) :
    Passage.Follows d ⟨d.write order.answers order.data, order.data⟩ := by
  unfold write at h ⊢
  rw [calls_account] at h
  generalize ht : Transfer.ofAnswers order.answers order.data = t at h
  have haccounts : t.Accounts order.data := ht ▸ Transfer.accounts_ofAnswers _ _ (ht ▸ h)
  have hfatal := haccounts.failure
  have hshort := haccounts.short_iff
  obtain ⟨calls, count, failure⟩ := t
  obtain rfl : failure = fatal? calls := hfatal
  cases hend : fatal? calls with
  | none =>
    rw [hend] at haccounts hshort
    have hlong : ¬ count < order.data.length := fun hlt => hshort.mp hlt rfl
    rw [account_of_none rfl]
    exact ⟨by rwa [hend], rfl, by simp [Passage.isShort, hlong], rfl, by simp [hend]⟩
  | some cause =>
    rw [hend] at haccounts hshort
    have hlong : count < order.data.length := hshort.mpr (Option.some_ne_none _)
    rw [account_of_some rfl]
    exact ⟨by rwa [hend], rfl, by simp [Passage.isShort, hlong], rfl, by simp [hend]⟩

/-- A write falls short exactly when an error ended it. -/
theorem Passage.Follows.isShort_iff {p : Passage} (h : p.Follows d) :
    p.isShort = true ↔ fatal? p.calls ≠ none := by
  rw [isShort, decide_eq_true_eq]
  exact h.accounts.short_iff

/-- Writes to a descriptor as they are counted and reported. -/
structure Accounted (d : Descriptor) (ps : List Passage) (e : Descriptor) : Prop where
  accounts : ∀ p ∈ ps, Transfer.Accounts p.data ⟨p.calls, p.count, fatal? p.calls⟩
  written : e.written = d.written + (ps.map fun p => p.count).sum
  failures : e.failures = d.failures + ps.countP Passage.isShort
  /-- Only the first failure of all is reported. -/
  reports : ps.filterMap (fun p => p.report) = if d.failures = 0 then
    ((fatal? (ps.flatMap fun p => p.calls)).map d.failureReport).toList else []
  report : ∀ (earlier : List Passage) (p : Passage) (later : List Passage),
    ps = earlier ++ p :: later →
    p.report = if d.failures + earlier.countP Passage.isShort = 0 then
      (fatal? p.calls).map d.failureReport else none

theorem Accounted.cons {p : Passage} {ps : List Passage} {e : Descriptor}
    (hp : p.Follows d) (hps : Accounted p.descriptor ps e) : Accounted d (p :: ps) e where
  accounts := List.forall_mem_cons.mpr ⟨hp.accounts, hps.accounts⟩
  written := by
    rw [hps.written, hp.written, List.map_cons, List.sum_cons, Nat.add_assoc]
  failures := by
    rw [hps.failures, hp.failures, Nat.add_assoc, ← List.countP_append, List.singleton_append]
  reports := by
    have hfailures := hp.failures
    rw [List.filterMap_cons, hps.reports, hp.report, hp.same, List.flatMap_cons,
      SystemCall.fatal?_append]
    by_cases hd : d.failures = 0
    · cases hfatal : fatal? p.calls with
      | none =>
        have hshort : ¬ p.isShort = true := fun h => hp.isShort_iff.mp h hfatal
        have hsame : p.descriptor.failures = 0 := by simpa [hd, hshort] using hfailures
        simp [hd, hsame]
      | some cause =>
        have hshort : p.isShort = true := hp.isShort_iff.mpr (by simp [hfatal])
        have hother : p.descriptor.failures ≠ 0 := by simp [hfailures, hshort]
        simp [hd, hother]
    · have hother : p.descriptor.failures ≠ 0 := by omega
      simp [hd, hother]
  report := by
    intro earlier q later hsplit
    cases earlier with
    | nil =>
      obtain ⟨rfl, -⟩ := List.cons.inj hsplit
      exact hp.report
    | cons first earlier =>
      obtain ⟨rfl, hlater⟩ := List.cons.inj hsplit
      rw [hps.report earlier q later hlater, hp.same, hp.failures, Nat.add_assoc,
        ← List.countP_append, List.singleton_append]

/-- What was taken of writes is what was taken of each. -/
theorem Accounted.taken {ps : List Passage} {e : Descriptor} (h : Accounted d ps e) :
    allTaken (ps.flatMap fun p => p.calls) = ps.flatMap (fun p => p.data.take p.count) := by
  rw [allTaken, List.flatMap_assoc]
  exact List.flatMap_congr fun p hp => (h.accounts p hp).taken

/-- Every write gets its bytes and hears its answers. -/
theorem heard (d : Descriptor) (orders : List Order) :
    List.Forall₂ (fun (order : Order) (p : Passage) => p.data = order.data ∧
      ∃ n : Nat, p.calls.map SystemCall.answer <+: order.answers ++ [.took n])
      orders (d.passages orders) := by
  induction orders generalizing d with
  | nil => exact .nil
  | cons order orders ih =>
    refine .cons ⟨rfl, ?_⟩ (ih _)
    rw [write, calls_account]
    exact Transfer.answers_ofAnswers _ _

/-- Writes are counted and reported, whatever the answers are. -/
theorem accounted (d : Descriptor) (orders : List Order)
    (h : ∀ p ∈ d.passages orders, ∀ call ∈ p.calls, call.IsPossible) :
    Accounted d (d.passages orders) (d.after orders) := by
  induction orders generalizing d with
  | nil => exact ⟨by simp [passages], rfl, rfl, by simp [passages, fatal?], by simp [passages]⟩
  | cons order orders ih =>
    obtain ⟨hfirst, hlater⟩ := List.forall_mem_cons.mp h
    exact (ih _ hlater).cons (follows_write d order hfirst)

/-- What the operating system takes, over any number of writes and whatever it answers, is a
beginning of each, in order: as many bytes as the write returns. A write asks for nothing but what
is still to be taken of its bytes, and for nothing at all if it has none. It returns less than its
length exactly when an answer was an error other than an interruption, or took nothing. The
descriptor counts the bytes that were taken and the writes that fell short, and reports the error
of the first of those. -/
theorem writes_are_accounted_for (hunused : d.written = 0 ∧ d.failures = 0) {orders : List Order}
    {ps : List Passage} (hps : d.passages orders = ps)
    (hpossible : ∀ p ∈ ps, ∀ call ∈ p.calls, call.IsPossible) :
    List.Forall₂ (fun (order : Order) (p : Passage) => p.data = order.data ∧
        ∃ n : Nat, p.calls.map SystemCall.answer <+: order.answers ++ [.took n]) orders ps ∧
      allTaken (ps.flatMap fun p => p.calls) = ps.flatMap (fun p => p.data.take p.count) ∧
      (∀ p ∈ ps, p.count ≤ p.data.length ∧
        (p.count < p.data.length ↔ ∃ call ∈ p.calls, call.answer.fatal? ≠ none) ∧
        (∀ (earlier : List SystemCall) (call : SystemCall) (later : List SystemCall),
          p.calls = earlier ++ call :: later →
          call.offered = p.data.drop (allTaken earlier).length ∧ call.offered ≠ []) ∧
        (p.data = [] → p.calls = [])) ∧
      (d.after orders).written = (ps.map fun p => p.count).sum ∧
      (d.after orders).failures = ps.countP (fun p => p.count < p.data.length) ∧
      (∀ (earlier : List Passage) (p : Passage) (later : List Passage),
        ps = earlier ++ p :: later → (p.report ≠ none ↔
          p.count < p.data.length ∧ ∀ q ∈ earlier, ¬ q.count < q.data.length)) ∧
      ps.filterMap (fun p => p.report) =
        ((fatal? (ps.flatMap fun p => p.calls)).map fun cause =>
          ⟨.warn, utf8 "[FdSink:" ++ d.name ++ utf8 "] first write failure fd=" ++
            Numeral.decimal d.number ++ utf8 ": " ++ cause.message⟩).toList := by
  subst hps
  have h := accounted d orders hpossible
  have hreport := h.reports
  rw [if_pos hunused.2] at hreport
  refine ⟨heard d orders, h.taken, fun p hp => ?_, ?_, ?_, fun earlier p later hsplit => ?_,
    hreport⟩
  · have hp := h.accounts p hp
    refine ⟨hp.count_le, hp.short_iff.trans fatal?_ne_none_iff, hp.goes_on, fun hdata => ?_⟩
    rw [hdata] at hp
    exact hp.calls_eq_nil
  · rw [h.written, hunused.1, Nat.zero_add]
  · rw [h.failures, hunused.2, Nat.zero_add]
    rfl
  · have hshort := (h.accounts p (by simp [hsplit])).short_iff
    rw [h.report earlier p later hsplit, hunused.2, Nat.zero_add, hshort]
    simp [Passage.isShort, and_comm]

/-- An interruption and a short count in the middle of a write, nothing to write, a device that
takes nothing after the first byte, a closed pipe, and a write that is taken whole after all. -/
theorem writes_are_accounted_for_pipe :
    ∃ (d : Descriptor) (orders : List Order), create 5 true (utf8 "pipe") = .ok d ∧
      orders.map Order.data = [utf8 "hello", [], utf8 "xyz", utf8 "gone", utf8 "back"] ∧
      (d.passages orders).map (fun p => p.count) = [5, 0, 1, 0, 4] ∧
      allTaken ((d.passages orders).flatMap fun p => p.calls) = utf8 "helloxback" ∧
      (d.after orders).written = 10 ∧ (d.after orders).failures = 2 ∧
      (d.passages orders).filterMap (fun p => p.report) = [⟨.warn,
        utf8 "[FdSink:pipe] first write failure fd=5: Input/output error (errno=5)"⟩] := by
  obtain ⟨_, htaken, _, hwritten, hfailures, _, hreports⟩ := @writes_are_accounted_for
    ⟨5, true, utf8 "pipe", 0, 0⟩ ⟨rfl, rfl⟩
    [⟨utf8 "hello", [.failed .interrupted, .took 2, .failed .interrupted, .took 3]⟩, ⟨[], []⟩,
      ⟨utf8 "xyz", [.took 1, .took 0]⟩, ⟨utf8 "gone", [.failed .brokenPipe]⟩, ⟨utf8 "back", []⟩]
    _ rfl (by decide +kernel)
  exact ⟨_, _, rfl, rfl, by decide +kernel, htaken.trans (by decide +kernel),
    hwritten.trans (by decide +kernel), hfailures.trans (by decide +kernel),
    hreports.trans (by decide +kernel)⟩

end Descriptor

end LeveledLog
