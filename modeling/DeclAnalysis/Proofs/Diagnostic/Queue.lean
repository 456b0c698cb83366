import DeclAnalysis.Diagnostic.Queue
import Mathlib.Data.List.Induction

/-!
# What a diagnostic queue holds

A queue decides on each diagnostic when it is offered. It looks at the limit first, and only then at
repetition, and it compares a diagnostic with those it holds, not with those it was offered. The
specification takes two passes over everything that was offered: `distinct` drops repetitions, and
`taken` then drops the errors past the limit. The two agree (`holds_addAll`) because a diagnostic
that was offered and is not held is an error, and the limit has been reached since
(`isError_of_not_mem_taken`): offered again, it is turned away once more.
-/

namespace DeclAnalysis

/-! ## The two passes -/

namespace QueuePolicy

/-- The offered diagnostics without those that repeat an earlier one, if they are to be dropped. -/
def distinct (p : QueuePolicy) (ds : List Diagnostic) : List Diagnostic :=
  if p.deduplicate then ds.eraseDups else ds

/-- Whether no further error is taken after so many. -/
def isFull (p : QueuePolicy) (errors : Nat) : Bool :=
  decide (0 < p.errorLimit) && decide (p.errorLimit ≤ errors)

/-- The diagnostics that are taken when so many errors were taken before: everything but the errors
past the limit. -/
def taken (p : QueuePolicy) : Nat → List Diagnostic → List Diagnostic
  | _, [] => []
  | errors, d :: rest =>
    if d.isError && p.isFull errors then p.taken errors rest
    else d :: p.taken (errors + d.isError.toNat) rest

/-- What is shown of some errors: each one once, if repetitions are dropped, and the first ones up
to the limit, if there is one. -/
def shown (p : QueuePolicy) (errors : List Diagnostic) : List Diagnostic :=
  if 0 < p.errorLimit then (p.distinct errors).take p.errorLimit else p.distinct errors

variable {p : QueuePolicy}

private theorem isFull_mono {errors more : Nat} (hfull : p.isFull errors = true)
    (hle : errors ≤ more) : p.isFull more = true := by
  simp only [isFull, Bool.and_eq_true, decide_eq_true_eq] at hfull ⊢
  omega

private theorem eraseDups_concat (ds : List Diagnostic) (d : Diagnostic) :
    (ds ++ [d]).eraseDups = ds.eraseDups ++ if d ∈ ds then [] else [d] := by
  have hsingle : [d].eraseDups = [d] := by
    rw [List.eraseDups_cons, List.filter_nil, List.eraseDups_nil]
  rw [List.eraseDups_append]
  by_cases hmem : d ∈ ds
  · simp [hmem, List.removeAll]
  · simp [hmem, List.removeAll, hsingle]

private theorem distinct_concat (p : QueuePolicy) (ds : List Diagnostic) (d : Diagnostic) :
    p.distinct (ds ++ [d]) =
      p.distinct ds ++ if p.deduplicate = true ∧ d ∈ ds then [] else [d] := by
  by_cases hdedup : p.deduplicate = true
  · simp only [distinct, hdedup, if_true, true_and]
    exact eraseDups_concat ds d
  · rw [distinct, distinct, if_neg hdedup, if_neg hdedup, if_neg fun h ↦ hdedup h.1]

theorem mem_distinct_iff {ds : List Diagnostic} {d : Diagnostic} :
    d ∈ p.distinct ds ↔ d ∈ ds := by
  rw [distinct]
  split
  · exact List.mem_eraseDups
  · rfl

theorem filter_distinct (p : QueuePolicy) (keep : Diagnostic → Bool) (ds : List Diagnostic) :
    (p.distinct ds).filter keep = p.distinct (ds.filter keep) := by
  induction ds using List.reverseRecOn with
  | nil => rw [List.filter_nil, distinct]; split <;> rfl
  | append_singleton ds d ih =>
    rw [distinct_concat, List.filter_append, List.filter_append, ih]
    by_cases hkeep : keep d = true
    · rw [List.filter_cons_of_pos hkeep, List.filter_nil, distinct_concat]
      have hmem : d ∈ ds.filter keep ↔ d ∈ ds := by simp [hkeep]
      simp only [hmem]
      split
      · rfl
      · rw [List.filter_cons_of_pos hkeep, List.filter_nil]
    · rw [List.filter_cons_of_neg hkeep, List.filter_nil, List.append_nil]
      split
      · rw [List.filter_nil, List.append_nil]
      · rw [List.filter_cons_of_neg hkeep, List.filter_nil, List.append_nil]

private theorem mem_of_mem_taken {errors : Nat} {ds : List Diagnostic} {d : Diagnostic}
    (hmem : d ∈ p.taken errors ds) : d ∈ ds := by
  induction ds generalizing errors with
  | nil => exact hmem
  | cons e rest ih =>
    rw [taken] at hmem
    split at hmem
    · exact List.mem_cons_of_mem e (ih hmem)
    · rcases List.mem_cons.mp hmem with rfl | hlater
      · exact List.mem_cons_self
      · exact List.mem_cons_of_mem e (ih hlater)

private theorem add_countP_cons (errors : Nat) (d : Diagnostic) (ds : List Diagnostic) :
    errors + (d :: ds).countP (·.isError) =
      errors + d.isError.toNat + ds.countP (·.isError) := by
  rw [List.countP_cons, Nat.add_assoc, Nat.add_comm d.isError.toNat]
  cases d.isError <;> rfl

theorem taken_concat (p : QueuePolicy) (errors : Nat) (ds : List Diagnostic) (d : Diagnostic) :
    p.taken errors (ds ++ [d]) = p.taken errors ds ++
      if d.isError && p.isFull (errors + (p.taken errors ds).countP (·.isError)) then []
      else [d] := by
  induction ds generalizing errors with
  | nil => rfl
  | cons e rest ih =>
    rw [List.cons_append, taken, taken]
    split
    · exact ih errors
    · rw [ih, add_countP_cons, List.cons_append]

/-- **What was offered and is not taken** is an error, and the limit has been reached. -/
theorem isError_of_not_mem_taken {errors : Nat} {ds : List Diagnostic} {d : Diagnostic}
    (hoffered : d ∈ ds) (habsent : d ∉ p.taken errors ds) :
    d.isError = true ∧ p.isFull (errors + (p.taken errors ds).countP (·.isError)) = true := by
  induction ds generalizing errors with
  | nil => cases hoffered
  | cons e rest ih =>
    rw [taken] at habsent ⊢
    split at habsent
    · next hturned =>
      rw [if_pos hturned]
      obtain ⟨herror, hfull⟩ := Bool.and_eq_true_iff.mp hturned
      rcases List.mem_cons.mp hoffered with rfl | hlater
      · exact ⟨herror, isFull_mono hfull (Nat.le_add_right _ _)⟩
      · exact ih hlater habsent
    · next htaken =>
      rw [if_neg htaken, add_countP_cons]
      rw [List.mem_cons, not_or] at habsent
      exact ih ((List.mem_cons.mp hoffered).resolve_left habsent.1) habsent.2

theorem filter_isError_taken (p : QueuePolicy) (errors : Nat) (ds : List Diagnostic) :
    (p.taken errors ds).filter (·.isError) =
      if 0 < p.errorLimit then (ds.filter (·.isError)).take (p.errorLimit - errors)
      else ds.filter (·.isError) := by
  induction ds generalizing errors with
  | nil => simp [taken]
  | cons d rest ih =>
    rw [taken]
    by_cases herror : d.isError = true
    · by_cases hfull : p.isFull errors = true
      · rw [if_pos (Bool.and_eq_true_iff.mpr ⟨herror, hfull⟩), ih]
        simp only [isFull, Bool.and_eq_true, decide_eq_true_eq] at hfull
        rw [if_pos hfull.1, if_pos hfull.1, Nat.sub_eq_zero_of_le hfull.2, List.take_zero,
          List.take_zero]
      · rw [if_neg fun hturned ↦ hfull (Bool.and_eq_true_iff.mp hturned).2,
          List.filter_cons_of_pos herror, List.filter_cons_of_pos herror, ih, herror,
          Bool.toNat_true]
        simp only [isFull, Bool.and_eq_true, decide_eq_true_eq, not_and, Nat.not_le] at hfull
        by_cases hlimit : 0 < p.errorLimit
        · have hroom : p.errorLimit - errors = p.errorLimit - (errors + 1) + 1 := by
            have := hfull hlimit
            omega
          rw [if_pos hlimit, if_pos hlimit, hroom, List.take_succ_cons]
        · rw [if_neg hlimit, if_neg hlimit]
    · rw [if_neg fun hturned ↦ herror (Bool.and_eq_true_iff.mp hturned).1,
        List.filter_cons_of_neg herror, List.filter_cons_of_neg herror, ih,
        eq_false_of_ne_true herror, Bool.toNat_false, Nat.add_zero]

/-- **The decision on one more diagnostic** is made by what was taken before: it is dropped if it is
an error past the limit, or if it repeats a diagnostic that was taken. -/
theorem taken_distinct_concat (p : QueuePolicy) (ds : List Diagnostic) (d : Diagnostic) :
    p.taken 0 (p.distinct (ds ++ [d])) = p.taken 0 (p.distinct ds) ++
      if (d.isError && p.isFull ((p.taken 0 (p.distinct ds)).countP (·.isError))) ||
        (p.deduplicate && (p.taken 0 (p.distinct ds)).contains d) then [] else [d] := by
  have hoffered (htaken : d ∈ p.taken 0 (p.distinct ds)) : d ∈ ds :=
    mem_distinct_iff.mp (mem_of_mem_taken htaken)
  rw [distinct_concat]
  by_cases hrepeats : p.deduplicate = true ∧ d ∈ ds
  · -- a repeated diagnostic that was not taken is an error past the limit
    rw [if_pos hrepeats, List.append_nil]
    by_cases htaken : d ∈ p.taken 0 (p.distinct ds)
    · simp [hrepeats.1, htaken]
    · have hlost := isError_of_not_mem_taken (mem_distinct_iff.mpr hrepeats.2) htaken
      rw [Nat.zero_add] at hlost
      simp [hlost]
  · have hnew : (p.deduplicate && (p.taken 0 (p.distinct ds)).contains d) = false := by
      rw [← Bool.not_eq_true, Bool.and_eq_true_iff, List.contains_iff_mem]
      exact fun h ↦ hrepeats ⟨h.1, hoffered h.2⟩
    rw [if_neg hrepeats, taken_concat, Nat.zero_add, hnew, Bool.or_false]

end QueuePolicy

/-! ## The queue -/

namespace Queue

theorem addAll_append (q : Queue) (ds more : List Diagnostic) :
    q.addAll (ds ++ more) = (q.addAll ds).addAll more := List.foldl_append ..

private theorem filter_held_add {keep : Diagnostic → Bool} (q : Queue) {d : Diagnostic}
    (hd : keep d = false) : (q.add d).held.filter keep = q.held.filter keep := by
  rw [add, offer]
  split
  · rfl
  · split
    · rfl
    · simp [hd]

theorem filter_held_addAll {keep : Diagnostic → Bool} (q : Queue) {ds : List Diagnostic}
    (hds : ∀ d ∈ ds, keep d = false) : (q.addAll ds).held.filter keep = q.held.filter keep := by
  induction ds generalizing q with
  | nil => rfl
  | cons d rest ih =>
    have hrest : ∀ d ∈ rest, keep d = false := fun d hd ↦ hds d (List.mem_cons_of_mem _ hd)
    exact (ih (q.add d) hrest).trans (filter_held_add q (hds d List.mem_cons_self))

/-- The queue has decided on the offered diagnostics as the two passes do. -/
structure Holds (p : QueuePolicy) (q : Queue) (ds : List Diagnostic) : Prop where
  policy_eq : q.policy = p
  held_eq : q.held = p.taken 0 (p.distinct ds)
  errorCount_eq : q.errorCount = q.held.countP (·.isError)
  /-- An error is turned away only when the queue holds some. -/
  pos_of_truncated : q.truncated = true → 0 < q.errorCount

namespace Holds

variable {p : QueuePolicy} {q : Queue} {ds : List Diagnostic}

theorem limitReached_eq (hholds : q.Holds p ds) :
    q.limitReached = p.isFull ((p.taken 0 (p.distinct ds)).countP (·.isError)) := by
  rw [limitReached, hholds.policy_eq, hholds.errorCount_eq, hholds.held_eq]
  rfl

theorem filter_isError_held (hholds : q.Holds p ds) :
    q.held.filter (·.isError) = p.shown (ds.filter (·.isError)) := by
  rw [hholds.held_eq, QueuePolicy.filter_isError_taken, QueuePolicy.filter_distinct, Nat.sub_zero]
  rfl

theorem mem_of_mem_held (hholds : q.Holds p ds) {d : Diagnostic} (hd : d ∈ q.held) : d ∈ ds := by
  rw [hholds.held_eq] at hd
  exact QueuePolicy.mem_distinct_iff.mp (QueuePolicy.mem_of_mem_taken hd)

/-- **One more diagnostic.** -/
theorem add (hholds : q.Holds p ds) (d : Diagnostic) : (q.add d).Holds p (ds ++ [d]) := by
  have hnext := p.taken_distinct_concat ds d
  rw [← hholds.limitReached_eq, ← hholds.held_eq, ← hholds.policy_eq] at hnext
  rw [Queue.add, offer]
  by_cases hturned : (d.isError && q.limitReached) = true
  · rw [hturned, Bool.true_or, if_pos rfl, List.append_nil] at hnext
    rw [if_pos hturned]
    refine ⟨hholds.policy_eq, ?_, hholds.errorCount_eq, fun _ ↦ ?_⟩
    · rw [← hholds.policy_eq, hnext]
    · have hreached := (Bool.and_eq_true_iff.mp hturned).2
      simp only [limitReached, Bool.and_eq_true, decide_eq_true_eq] at hreached
      exact Nat.lt_of_lt_of_le hreached.1 hreached.2
  rw [if_neg hturned]
  rw [eq_false_of_ne_true hturned, Bool.false_or] at hnext
  by_cases hrepeats : (q.policy.deduplicate && q.held.contains d) = true
  · rw [hrepeats, if_pos rfl, List.append_nil] at hnext
    rw [if_pos hrepeats]
    exact ⟨hholds.policy_eq, by rw [← hholds.policy_eq, hnext], hholds.errorCount_eq,
      hholds.pos_of_truncated⟩
  · rw [if_neg hrepeats] at hnext
    rw [if_neg hrepeats]
    have hcount : (if d.isError = true then q.errorCount + 1 else q.errorCount) =
        (q.held ++ [d]).countP (·.isError) := by
      rw [List.countP_append, List.countP_singleton, hholds.errorCount_eq]
      split <;> rfl
    refine ⟨hholds.policy_eq, by rw [← hholds.policy_eq, hnext], hcount, fun htruncated ↦ ?_⟩
    have hpos := hholds.pos_of_truncated htruncated
    dsimp only
    split <;> omega

end Holds

/-- **What a queue holds** after any diagnostics were offered to it. -/
theorem holds_addAll (p : QueuePolicy) (ds : List Diagnostic) :
    ((new p).addAll ds).Holds p ds := by
  induction ds using List.reverseRecOn with
  | nil => exact ⟨rfl, by rw [QueuePolicy.distinct]; split <;> rfl, rfl, fun h ↦ by cases h⟩
  | append_singleton ds d ih =>
    rw [addAll_append]
    exact ih.add d

end Queue

end DeclAnalysis
