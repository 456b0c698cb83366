import DeclAnalysis.Proofs.Diagnostic.Queue
import Mathlib.Data.Prod.Lex

/-!
# What a diagnostic queue gives out

A queue gives out what it holds, sorted by place, and then one more diagnostic if it has turned away
an error. A client that offers diagnostics and now and then flushes the queue is followed as a
`Session`: the queue, what was offered since the last flush, and what the answers said was taken.
`Session.Sound` ties the three together; every request keeps it, so it holds of every session.

The flag for the last diagnostic is raised by every error that comes when the queue is full, and the
queue does not ask whether it holds that error already. So the flag tells more than that something
was lost (`limit_notice_iff`).
-/

namespace DeclAnalysis

/-! ## Listing by place -/

/-- Merge sort is stable, so elements that the order does not tell apart keep their order. -/
private theorem filter_mergeSort {α : Type} {le : α → α → Bool} {keep : α → Bool}
    (trans : ∀ a b c, le a b = true → le b c = true → le a c = true)
    (total : ∀ a b, (le a b || le b a) = true)
    (hequal : ∀ a b, keep a = true → keep b = true → le a b = true) (l : List α) :
    (l.mergeSort le).filter keep = l.filter keep := by
  have hordered : (l.filter keep).Pairwise fun a b ↦ le a b = true :=
    List.pairwise_of_forall_mem_list fun a ha b hb ↦
      hequal a b (List.mem_filter.mp ha).2 (List.mem_filter.mp hb).2
  have hsub : (l.filter keep).Sublist ((l.mergeSort le).filter keep) := by
    simpa using (List.sublist_mergeSort trans total hordered List.filter_sublist).filter keep
  have hlength := ((List.mergeSort_perm l le).filter keep).length_eq
  exact (hsub.eq_of_length hlength.symm).symm

namespace Diagnostic

/-- The pair of offsets that a diagnostic is listed by. One without a place comes last. -/
def place (d : Diagnostic) : ℕ ×ₗ ℕ :=
  match d.primary? with
  | some span => toLex (span.start.toNat, span.stop.toNat)
  | none => toLex (4294967295, 4294967295)

private theorem place_eq (d : Diagnostic) :
    d.place = toLex (d.position.start.toNat, d.position.stop.toNat) := by
  rw [place, position]
  split
  · next span hprimary => rw [hprimary, Option.getD_some]
  · next hprimary => rw [hprimary]; rfl

private theorem le_position_iff {d e : Diagnostic} :
    d.position.le e.position = true ↔ d.place ≤ e.place := by
  rw [Span.le_iff, place_eq, place_eq, Prod.Lex.toLex_le_toLex]

/-- A list is another one sorted by place: nothing is lost or added, the places are in order, and
diagnostics of one place keep their order. -/
structure ListedByPlace (held listed : List Diagnostic) : Prop where
  perm : listed.Perm held
  ordered : listed.Pairwise fun d e ↦ d.place ≤ e.place
  stable : ∀ place, listed.filter (·.place = place) = held.filter (·.place = place)

end Diagnostic

namespace Queue

variable {q : Queue}

/-- The diagnostic that is added at the end if an error was turned away. -/
def notices (q : Queue) : List Diagnostic :=
  if q.truncated then [limitNotice q.policy.errorLimit (lastPlace q.sorted)] else []

theorem flush_fst (q : Queue) : q.flush.1 = q.sorted ++ q.notices := rfl

theorem mem_sorted_iff {d : Diagnostic} : d ∈ q.sorted ↔ d ∈ q.held :=
  (List.mergeSort_perm q.held _).mem_iff

theorem code_of_mem_notices {d : Diagnostic} (hd : d ∈ q.notices) : d.code = .errorLimit := by
  rw [notices] at hd
  split at hd
  · rw [List.mem_singleton.mp hd]
    rfl
  · cases hd

theorem length_notices_le (q : Queue) : q.notices.length ≤ 1 := by
  rw [notices]
  split
  · exact Nat.le_refl 1
  · exact Nat.zero_le 1

theorem pairwise_sorted (q : Queue) :
    q.sorted.Pairwise fun d e ↦ d.position.le e.position = true :=
  List.pairwise_mergeSort (fun d e f ↦ Span.le_trans d.position e.position f.position)
    (fun d e ↦ d.position.le_total e.position) q.held

private theorem listedByPlace_sorted (q : Queue) : Diagnostic.ListedByPlace q.held q.sorted where
  perm := List.mergeSort_perm q.held _
  ordered := q.pairwise_sorted.imp Diagnostic.le_position_iff.mp
  stable place := by
    refine filter_mergeSort (fun d e f ↦ Span.le_trans d.position e.position f.position)
      (fun d e ↦ d.position.le_total e.position) (fun d e hd he ↦ ?_) q.held
    have hsame : d.place = e.place :=
      (of_decide_eq_true hd).trans (of_decide_eq_true he).symm
    exact Diagnostic.le_position_iff.mpr hsame.le

end Queue

/-! ## The first errors -/

namespace QueuePolicy

/-- Everything but the errors past the limit: an error stays if fewer errors than the limit come
before it, and every error stays if there is no limit. -/
def limited (p : QueuePolicy) (ds : List Diagnostic) : List Diagnostic :=
  (ds.zipIdx.filter fun numbered ↦ !numbered.1.isError || decide (p.errorLimit = 0) ||
    decide ((ds.take numbered.2).countP (·.isError) < p.errorLimit)).map (·.1)

private theorem isFull_countP_taken (p : QueuePolicy) (ds : List Diagnostic) :
    p.isFull ((p.taken 0 ds).countP (·.isError)) = p.isFull (ds.countP (·.isError)) := by
  have hfirst := congrArg List.length (p.filter_isError_taken 0 ds)
  rw [← List.countP_eq_length_filter, Nat.sub_zero] at hfirst
  rw [hfirst, Bool.eq_iff_iff]
  simp only [isFull, Bool.and_eq_true, decide_eq_true_eq]
  split
  · rw [List.length_take, ← List.countP_eq_length_filter]
    omega
  · rw [← List.countP_eq_length_filter]

private theorem limited_concat (p : QueuePolicy) (ds : List Diagnostic) (d : Diagnostic) :
    p.limited (ds ++ [d]) = p.limited ds ++
      if d.isError && p.isFull (ds.countP (·.isError)) then [] else [d] := by
  have hfront : ∀ numbered ∈ ds.zipIdx, (ds ++ [d]).take numbered.2 = ds.take numbered.2 := by
    intro numbered hmem
    exact List.take_append_of_le_length (List.snd_lt_of_mem_zipIdx hmem).le
  have hlast : (!d.isError || decide (p.errorLimit = 0) ||
      decide (ds.countP (·.isError) < p.errorLimit)) =
        !(d.isError && p.isFull (ds.countP (·.isError))) := by
    cases d.isError with
    | false => rfl
    | true =>
      rw [isFull, Bool.eq_iff_iff]
      simp only [Bool.not_true, Bool.false_or, Bool.true_and, Bool.not_and, Bool.or_eq_true,
        Bool.not_eq_true', decide_eq_true_eq, decide_eq_false_iff_not]
      omega
  rw [limited, limited, List.zipIdx_append, List.filter_append, List.map_append]
  congr 1
  · refine congrArg _ (List.filter_congr fun numbered hmem ↦ ?_)
    rw [hfront numbered hmem]
  · rw [List.zipIdx_singleton, List.filter_cons, List.filter_nil]
    simp only [Nat.zero_add, List.take_left, hlast]
    cases d.isError && p.isFull (ds.countP (·.isError)) <;> rfl

private theorem taken_eq_limited (p : QueuePolicy) (ds : List Diagnostic) :
    p.taken 0 ds = p.limited ds := by
  induction ds using List.reverseRecOn with
  | nil => rfl
  | append_singleton ds d ih =>
    rw [taken_concat, limited_concat, Nat.zero_add, isFull_countP_taken, ih]

private theorem filter_not_isError_taken (p : QueuePolicy) (errors : Nat) (ds : List Diagnostic) :
    (p.taken errors ds).filter (!·.isError) = ds.filter (!·.isError) := by
  induction ds generalizing errors with
  | nil => rfl
  | cons d rest ih =>
    rw [taken]
    split
    · next hturned =>
      rw [ih, List.filter_cons_of_neg (by simp [(Bool.and_eq_true_iff.mp hturned).1])]
    · rw [List.filter_cons, List.filter_cons, ih]

end QueuePolicy

/-! ## Sessions -/

namespace Queue

/-- What a client asks of a queue. -/
inductive Request where
  /-- To take a diagnostic. -/
  | add (d : Diagnostic)
  /-- To give everything out. -/
  | flush
deriving DecidableEq

/-- A queue, and what a client knows of its dealings with it since the last flush. -/
structure Session where
  /-- The queue. -/
  queue : Queue
  /-- The diagnostics that were offered. -/
  offered : List Diagnostic
  /-- Those on which the queue answered that it took them. -/
  accepted : List Diagnostic
deriving DecidableEq

namespace Session

/-- A session with a new queue. -/
def new (p : QueuePolicy) : Session := ⟨.new p, [], []⟩

/-- The session after a request. -/
def step (s : Session) : Request → Session
  | .add d =>
    { queue := (s.queue.offer d).2
      offered := s.offered ++ [d]
      accepted := if (s.queue.offer d).1 then s.accepted ++ [d] else s.accepted }
  | .flush => ⟨s.queue.flush.2, [], []⟩

/-- The session after some requests. -/
def run (s : Session) (rs : List Request) : Session := rs.foldl step s

end Session

private theorem held_add (q : Queue) (d : Diagnostic) :
    (q.add d).held = if (q.offer d).1 then q.held ++ [d] else q.held := by
  rw [add, offer]
  split
  · rfl
  · split <;> rfl

/-- The queue of a session holds what it should of what was offered, and the client knows it. -/
structure Session.Sound (p : QueuePolicy) (s : Session) : Prop where
  holds : s.queue.Holds p s.offered
  accepted_eq : s.accepted = s.queue.held

theorem Session.Sound.step {p : QueuePolicy} {s : Session} (hs : s.Sound p) (r : Request) :
    (s.step r).Sound p := by
  cases r with
  | add d =>
    refine ⟨hs.holds.add d, ?_⟩
    rw [Session.step, hs.accepted_eq]
    exact (held_add s.queue d).symm
  | flush =>
    have hnew : s.queue.flush.2 = .new p := congrArg Queue.new hs.holds.policy_eq
    rw [Session.step, hnew]
    exact ⟨holds_addAll p [], rfl⟩

/-- **Every session is sound**, however often the queue is flushed. -/
theorem Session.sound_run (p : QueuePolicy) (rs : List Request) :
    ((Session.new p).run rs).Sound p := by
  induction rs using List.reverseRecOn with
  | nil => exact ⟨holds_addAll p [], rfl⟩
  | append_singleton rs r ih =>
    rw [Session.run, List.foldl_append]
    exact ih.step r

/-- **A queue keeps the right diagnostics.** Take a session of any requests, and let `distinct` be
what was offered since the last flush, without the diagnostics that are equal to an earlier one if
repetitions are to be dropped.

* The queue holds, in this order, everything of `distinct` but the errors past the limit: all that
  is no error, and the first errors up to the limit, or all of them if there is no limit.
* It counts the errors that it holds, and has answered that it took a diagnostic exactly for those
  that it holds.
* When it is flushed it gives out what it holds sorted by place, where diagnostics of one place keep
  their order, and at most one more diagnostic that announces the limit. After that it is as new. -/
theorem keeps_right_diagnostics (p : QueuePolicy) (rs : List Request) :
    let s := (Session.new p).run rs
    let distinct := p.distinct s.offered
    s.queue.held = p.limited distinct ∧
    s.queue.held.filter (!·.isError) = distinct.filter (!·.isError) ∧
    s.queue.held.filter (·.isError) =
      (if p.errorLimit = 0 then distinct.filter (·.isError)
        else (distinct.filter (·.isError)).take p.errorLimit) ∧
    s.queue.errorCount = s.queue.held.countP (·.isError) ∧
    s.accepted = s.queue.held ∧
    (∃ listed notices, s.queue.flush.1 = listed ++ notices ∧
      Diagnostic.ListedByPlace s.queue.held listed ∧ notices.length ≤ 1 ∧
      ∀ d ∈ notices, d.code = .errorLimit) ∧
    s.queue.flush.2 = .new p := by
  intro s distinct
  have hs : s.Sound p := Session.sound_run p rs
  have hheld : s.queue.held = p.taken 0 distinct := hs.holds.held_eq
  refine ⟨?_, ?_, ?_, hs.holds.errorCount_eq, hs.accepted_eq, ?_, ?_⟩
  · rw [hheld, QueuePolicy.taken_eq_limited]
  · rw [hheld, QueuePolicy.filter_not_isError_taken]
  · rw [hheld, QueuePolicy.filter_isError_taken, Nat.sub_zero]
    by_cases hlimit : p.errorLimit = 0
    · rw [if_pos hlimit, if_neg (by omega)]
    · rw [if_neg hlimit, if_pos (by omega)]
  · exact ⟨_, _, s.queue.flush_fst, s.queue.listedByPlace_sorted, s.queue.length_notices_le,
      fun d ↦ code_of_mem_notices⟩
  · exact congrArg Queue.new hs.holds.policy_eq

/-! ## The notice of the limit -/

private theorem truncated_add (q : Queue) (d : Diagnostic) :
    (q.add d).truncated = (q.truncated || (d.isError && q.limitReached)) := by
  rw [add, offer]
  split
  · next hturned => rw [hturned, Bool.or_true]
  · next htaken =>
    rw [eq_false_of_ne_true htaken, Bool.or_false]
    split <;> rfl

/-- **The flag is raised** by the errors that come when the queue is full, and by nothing else. -/
theorem truncated_addAll_iff (q : Queue) (ds : List Diagnostic) :
    (q.addAll ds).truncated = true ↔ q.truncated = true ∨ ∃ front d back,
      ds = front ++ d :: back ∧ d.isError = true ∧ (q.addAll front).limitReached = true := by
  induction ds generalizing q with
  | nil => simp [addAll]
  | cons d rest ih =>
    rw [addAll, List.foldl_cons, ← addAll, ih, truncated_add, Bool.or_eq_true, Bool.and_eq_true]
    constructor
    · rintro ((hraised | hturned) | ⟨front, e, back, rfl, hturned⟩)
      · exact .inl hraised
      · exact .inr ⟨[], d, rest, rfl, hturned⟩
      · exact .inr ⟨d :: front, e, back, rfl, hturned⟩
    · rintro (hraised | ⟨front, e, back, hsplit, hturned⟩)
      · exact .inl (.inl hraised)
      · rcases front with - | ⟨first, front⟩
        · obtain ⟨rfl, rfl⟩ := List.cons.inj hsplit
          exact .inl (.inr hturned)
        · obtain ⟨rfl, rfl⟩ := List.cons.inj hsplit
          exact .inr ⟨front, e, back, rfl, hturned⟩

private theorem mem_held_add {q : Queue} {d : Diagnostic}
    (hroom : (d.isError && q.limitReached) = false) : d ∈ (q.add d).held := by
  rw [add, offer, hroom, if_neg Bool.false_ne_true]
  split
  · next hrepeats => exact List.contains_iff_mem.mp (Bool.and_eq_true_iff.mp hrepeats).2
  · exact List.mem_append_right _ (List.mem_singleton_self d)

theorem held_prefix_addAll (q : Queue) (ds : List Diagnostic) : q.held <+: (q.addAll ds).held := by
  induction ds generalizing q with
  | nil => exact List.prefix_rfl
  | cons d rest ih =>
    refine List.IsPrefix.trans ?_ (ih (q.add d))
    rw [held_add]
    split
    · exact List.prefix_append ..
    · exact List.prefix_rfl

theorem mem_held_addAll (q : Queue) {ds : List Diagnostic} {d : Diagnostic} (hoffered : d ∈ ds)
    (hremark : d.isError = false) : d ∈ (q.addAll ds).held := by
  obtain ⟨front, back, rfl⟩ := List.append_of_mem hoffered
  rw [List.append_cons, addAll_append, addAll_append]
  exact (held_prefix_addAll _ back).subset (mem_held_add (by rw [hremark, Bool.false_and]))

end Queue

/-- As many different errors were offered as the limit has room for. -/
def QueuePolicy.ReachesLimit (p : QueuePolicy) (ds : List Diagnostic) : Prop :=
  p.errorLimit ≤ (ds.filter (·.isError)).eraseDups.length

namespace Queue

section Notice

variable {p : QueuePolicy} (hlimit : 0 < p.errorLimit) (hdedup : p.deduplicate = true)

include hlimit hdedup

private theorem limitReached_addAll_iff (ds : List Diagnostic) :
    ((new p).addAll ds).limitReached = true ↔ p.ReachesLimit ds := by
  rw [(holds_addAll p ds).limitReached_eq, QueuePolicy.isFull_countP_taken,
    List.countP_eq_length_filter, QueuePolicy.filter_distinct, QueuePolicy.isFull,
    QueuePolicy.distinct, if_pos hdedup]
  simp [hlimit, QueuePolicy.ReachesLimit]

private theorem mem_front_of_mem_held {front back : List Diagnostic} {d : Diagnostic}
    (hfull : p.ReachesLimit front) (herror : d.isError = true)
    (hheld : d ∈ ((new p).addAll (front ++ back)).held) : d ∈ front := by
  have hshown : d ∈ p.shown ((front ++ back).filter (·.isError)) := by
    rw [← (holds_addAll p (front ++ back)).filter_isError_held]
    exact List.mem_filter.mpr ⟨hheld, herror⟩
  rw [QueuePolicy.shown, if_pos hlimit, QueuePolicy.distinct, if_pos hdedup, List.filter_append,
    List.eraseDups_append, List.take_append_of_le_length hfull] at hshown
  exact (List.mem_filter.mp (List.mem_eraseDups.mp (List.mem_of_mem_take hshown))).1

/-- The flag is raised for an error that is lost, or for one that is repeated when the queue is
full. -/
private theorem truncated_iff_lost_or_repeated (ds : List Diagnostic) :
    ((new p).addAll ds).truncated = true ↔
      (∃ d ∈ ds, d.isError = true ∧ d ∉ ((new p).addAll ds).held) ∨
      ∃ front d back, ds = front ++ d :: back ∧ d.isError = true ∧ d ∈ front ∧
        p.ReachesLimit front := by
  have hflag := truncated_addAll_iff (new p) ds
  rw [or_iff_right (show ¬ (new p).truncated = true from Bool.false_ne_true)] at hflag
  simp only [limitReached_addAll_iff hlimit hdedup] at hflag
  rw [hflag]
  constructor
  · rintro ⟨front, d, back, rfl, herror, hfull⟩
    by_cases hrepeated : d ∈ front
    · exact .inr ⟨front, d, back, rfl, herror, hrepeated, hfull⟩
    · refine .inl ⟨d, by simp, herror, fun hheld ↦ hrepeated ?_⟩
      exact mem_front_of_mem_held hlimit hdedup hfull herror hheld
  · rintro (⟨d, hoffered, herror, hlost⟩ | ⟨front, d, back, rfl, herror, -, hfull⟩)
    · -- had there been room for it when it was offered, it would still be held
      obtain ⟨front, back, rfl⟩ := List.append_of_mem hoffered
      refine ⟨front, d, back, rfl, herror, ?_⟩
      rw [← limitReached_addAll_iff hlimit hdedup]
      by_contra hroom
      refine hlost ?_
      rw [List.append_cons, addAll_append, addAll_append]
      exact (held_prefix_addAll _ back).subset (mem_held_add (by simp [hroom]))
    · exact ⟨front, d, back, rfl, herror, hfull⟩

end Notice

private theorem endsWithNotice_iff {q : Queue} (hplain : ∀ d ∈ q.held, d.code ≠ .errorLimit) :
    (∃ d, q.flush.1.getLast? = some d ∧ d.code = .errorLimit) ↔ q.truncated = true := by
  rw [flush_fst, notices]
  split
  · next hraised => exact iff_of_true ⟨_, List.getLast?_concat, rfl⟩ hraised
  · next hnot =>
    rw [List.append_nil, iff_false_right hnot]
    rintro ⟨d, hlast, hcode⟩
    exact hplain d (mem_sorted_iff.mp (List.mem_of_getLast? hlast)) hcode

/-- **The limit is announced for errors that are lost, and for errors that are not.** Take a queue
with a limit that drops repetitions, and offer it diagnostics that are no such announcements. What
it gives out ends with an announcement exactly if

* an error that was offered is not among what is given out, or
* an error was offered again when as many different errors had been offered as the limit has room
  for; such an error may well be given out. -/
theorem limit_notice_iff {p : QueuePolicy} (hlimit : 0 < p.errorLimit)
    (hdedup : p.deduplicate = true) {ds : List Diagnostic}
    (hplain : ∀ d ∈ ds, d.code ≠ .errorLimit) :
    let flushed := ((new p).addAll ds).flush.1
    (∃ d, flushed.getLast? = some d ∧ d.code = .errorLimit) ↔
      (∃ d ∈ ds, d.isError = true ∧ d ∉ flushed) ∨
      ∃ front d back, ds = front ++ d :: back ∧ d.isError = true ∧ d ∈ front ∧
        p.ReachesLimit front := by
  intro flushed
  have hholds := holds_addAll p ds
  have hgiven : ∀ d ∈ ds, d ∈ flushed ↔ d ∈ ((new p).addAll ds).held := by
    intro d hd
    rw [show flushed = _ from flush_fst _, List.mem_append, mem_sorted_iff]
    exact or_iff_left fun hnotice ↦ hplain d hd (code_of_mem_notices hnotice)
  rw [endsWithNotice_iff fun d hd ↦ hplain d (hholds.mem_of_mem_held hd),
    truncated_iff_lost_or_repeated hlimit hdedup]
  refine or_congr_left ?_
  exact exists_congr fun d ↦ and_congr_right fun hd ↦ by rw [hgiven d hd]

/-- An error about the name `x`. -/
def unknownX : Diagnostic :=
  .errorAt .undeclared "use of undeclared name `x`" ⟨0, 1⟩ "not found in this scope"

/-- An error about the name `y`, further on. -/
def unknownY : Diagnostic :=
  .errorAt .undeclared "use of undeclared name `y`" ⟨2, 3⟩ "not found in this scope"

/-- With room for one error, the second of two is lost, and what is given out ends with an
announcement. -/
theorem limit_notice_iff_lost :
    let p : QueuePolicy := { errorLimit := 1 }
    let flushed := ((new p).addAll [unknownX, unknownY]).flush.1
    (∀ d ∈ [unknownX, unknownY], d.code ≠ .errorLimit) ∧
    (∃ d ∈ [unknownX, unknownY], d.isError = true ∧ d ∉ flushed) ∧
    ∃ d, flushed.getLast? = some d ∧ d.code = .errorLimit := by
  intro p flushed
  have hplain : ∀ d ∈ [unknownX, unknownY], d.code ≠ .errorLimit := by decide
  have hlost : ∃ d ∈ [unknownX, unknownY], d.isError = true ∧ d ∉ flushed :=
    ⟨unknownY, by decide, rfl, by decide +kernel⟩
  exact ⟨hplain, hlost, (limit_notice_iff (p := p) (by decide) rfl hplain).mpr (.inl hlost)⟩

/-- With room for one error, the same error twice is announced as too many, although it is given
out. -/
theorem limit_notice_without_loss :
    let p : QueuePolicy := { errorLimit := 1 }
    let flushed := ((new p).addAll [unknownX, unknownX]).flush.1
    (∃ d, flushed.getLast? = some d ∧ d.code = .errorLimit) ∧
    ∀ d ∈ [unknownX, unknownX], d ∈ flushed := by
  intro p flushed
  have hflushed : flushed = [unknownX, limitNotice 1 ⟨0, 1⟩] := by decide +kernel
  rw [hflushed]
  exact ⟨⟨_, rfl, rfl⟩, by decide⟩

end Queue

end DeclAnalysis
