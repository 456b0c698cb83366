import DeclAnalysis.Proofs.Diagnostic.Flush
import DeclAnalysis.Proofs.Elaboration.State

/-!
# The diagnostics of a unit

An error that is raised goes two ways: it is kept in the list of errors, and its diagnostic is
offered to the queue. Warnings about literals and notes on initializers are offered to the queue in
between. `Told` says that the two ways have not parted: the errors among everything that was offered
are the diagnostics of the errors that were raised, in order. What the queue makes of its offers is
known from the policy alone, so the diagnostics that are given out at the end can be told from the
list of errors.
-/

namespace DeclAnalysis

/-! ## What is offered to the queue -/

/-- A diagnostic that has a place and does not announce the limit of the queue. -/
structure Diagnostic.IsPlain (d : Diagnostic) : Prop where
  primary?_eq : d.primary? = some d.position
  code_ne : d.code ≠ .errorLimit

/-- A plain diagnostic that is no error. -/
structure Diagnostic.IsRemark (d : Diagnostic) : Prop extends d.IsPlain where
  not_isError : d.isError = false

namespace Error

/-- **The diagnostic of an error** is an error with the same code and the same place. -/
theorem diagnostic_spec (e : Error) :
    e.diagnostic.isError = true ∧ e.diagnostic.code = e.code ∧
      e.diagnostic.primary? = some e.span := by
  rcases e with ⟨span, fault⟩ | _ | _ | _ | _ | _ | _ | _ | ⟨_ | _, _⟩ | _ | _ | _ | _ | _
  case literal => cases fault <;> exact ⟨rfl, rfl, rfl⟩
  all_goals exact ⟨rfl, rfl, rfl⟩

private theorem code_ne_errorLimit (e : Error) : e.code ≠ .errorLimit := by
  cases e with
  | literal e =>
    rw [code, LiteralError.code]
    split <;> exact nofun
  | _ => exact nofun

private theorem isWarning_code (e : Error) : e.code.isWarning = false := by
  cases e with
  | literal e =>
    rw [code, LiteralError.code]
    split <;> rfl
  | _ => rfl

private theorem isPlain_diagnostic (e : Error) : e.diagnostic.IsPlain := by
  obtain ⟨-, hcode, hprimary⟩ := e.diagnostic_spec
  exact ⟨by rw [Diagnostic.position, hprimary, Option.getD_some], hcode ▸ e.code_ne_errorLimit⟩

end Error

private theorem LiteralReading.isRemark_warning {r : LiteralReading} {d : Diagnostic}
    (hwarning : r.warning? = some d) : d.IsRemark := by
  rw [warning?] at hwarning
  split at hwarning
  · cases hwarning
    exact ⟨⟨rfl, nofun⟩, rfl⟩
  · cases hwarning

private theorem LiteralReading.code_of_warning? {r : LiteralReading} {d : Diagnostic}
    (hwarning : r.warning? = some d) : d.code = .multiCharacter := by
  rw [warning?] at hwarning
  split at hwarning
  · obtain rfl := Option.some.inj hwarning
    rfl
  · simp at hwarning

theorem Narrowing.isRemark_remark (n : Narrowing) (span : Span) : (n.remark span).IsRemark :=
  ⟨⟨rfl, nofun⟩, rfl⟩

private theorem Widths.isRemark_initRemarks {w : Widths} {t : Ty} {init : Initializer}
    {operands : List Operand} {d : Diagnostic} (hmem : d ∈ w.initRemarks t init operands) :
    d.IsRemark := by
  rw [initRemarks] at hmem
  split at hmem
  · cases hmem
  · obtain ⟨o, -, hremark⟩ := List.mem_filterMap.mp hmem
    obtain ⟨n, -, rfl⟩ := Option.map_eq_some_iff.mp hremark
    exact n.isRemark_remark o.span

namespace DeclareEvent

variable {w : Widths} {t : ScopeTree} {e : DeclareEvent} {d : Diagnostic}

private theorem isRemark_bind {operands : List Operand} {operandFault : Option Error} {type : Ty}
    {literals : List LiteralReading}
    (hmem : d ∈ (e.bind w t operands operandFault type literals).remarks) : d.IsRemark := by
  rw [bind.eq_def] at hmem
  split at hmem
  · cases hmem
  · -- the notes are the same whether the name can be bound or not
    rcases t.declare (e.declaration w t.currentKind type operands) with error | ⟨_, t'⟩
    all_goals
      dsimp only at hmem
      repeat' split at hmem
      all_goals first
        | exact Widths.isRemark_initRemarks hmem
        | cases hmem

private theorem isRemark_elaborateWith {operands : List Operand} {operandFault : Option Error}
    {literals : List LiteralReading}
    (hmem : d ∈ (e.elaborateWith w t operands operandFault literals).remarks) : d.IsRemark := by
  rw [elaborateWith] at hmem
  split at hmem
  · cases hmem
  · exact isRemark_bind hmem

private theorem isRemark_elaborate (hmem : d ∈ (e.elaborate w t).remarks) : d.IsRemark := by
  rw [elaborate] at hmem
  split at hmem
  · exact isRemark_elaborateWith hmem
  · split at hmem
    · exact isRemark_elaborateWith hmem
    · cases hmem

end DeclareEvent

/-! ## What a declaration offers -/

namespace UnitState

private theorem queue_reportAll (c : Config) (s : UnitState) (errors : List Error) :
    (s.reportAll c errors).queue = s.queue.addAll (errors.map Error.diagnostic) := by
  induction errors generalizing s with
  | nil => rfl
  | cons e rest ih => exact ih (s.report c e)

/-- A declaration offers the warnings on its literals, the remarks on its initializer and its error
to the queue. -/
theorem queue_declare (c : Config) (s : UnitState) (e : DeclareEvent) :
    let declared := e.elaborate c.widths s.tree
    (s.declare c e).queue = s.queue.addAll (declared.literals.filterMap (·.warning?) ++
      declared.remarks ++ (failures declared.result).map Error.diagnostic) := by
  intro declared
  rw [declare, reportFailure_eq, Queue.addAll_append, Queue.addAll_append]
  exact queue_reportAll c _ _

theorem filter_held_declare {c : Config} {s : UnitState} {e : DeclareEvent}
    (hquiet : (e.elaborate c.widths s.tree).remarks = []) :
    (s.declare c e).queue.held.filter (·.code = .implicitNarrowing) =
      s.queue.held.filter (·.code = .implicitNarrowing) := by
  rw [queue_declare, hquiet, List.append_nil]
  refine Queue.filter_held_addAll _ fun d hd ↦ decide_eq_false ?_
  rcases List.mem_append.mp hd with hliteral | hfailure
  · obtain ⟨r, -, hwarning⟩ := List.mem_filterMap.mp hliteral
    rw [LiteralReading.code_of_warning? hwarning]
    decide
  · obtain ⟨error, -, rfl⟩ := List.mem_map.mp hfailure
    have hcode := error.isWarning_code
    rw [error.diagnostic_spec.2.1]
    intro hnarrowing
    rw [hnarrowing] at hcode
    exact absurd hcode.symm Bool.false_ne_true

/-! ## Errors and offers stay together -/

/-- One state has come of another one by offering diagnostics to the queue. The errors among them
are the diagnostics of the errors that were raised in between. -/
structure Offers (s s' : UnitState) (offers : List Diagnostic) : Prop where
  queue_eq : s'.queue = s.queue.addAll offers
  errors_eq : s'.errors.map (·.diagnostic) =
    s.errors.map (·.diagnostic) ++ offers.filter (·.isError)
  plain : ∀ d ∈ offers, d.IsPlain

/-- A state has come of another one by some offers. -/
def Follows (s s' : UnitState) : Prop := ∃ offers, s.Offers s' offers

section Follows

variable {c : Config} {s s₁ s₂ : UnitState}

theorem Follows.of_eq (hqueue : s₂.queue = s₁.queue) (herrors : s₂.errors = s₁.errors) :
    s₁.Follows s₂ :=
  ⟨[], hqueue, by rw [herrors, List.filter_nil, List.append_nil], nofun⟩

theorem Follows.refl (s : UnitState) : s.Follows s := .of_eq rfl rfl

theorem Follows.trans (h₁ : s.Follows s₁) (h₂ : s₁.Follows s₂) : s.Follows s₂ := by
  obtain ⟨offers₁, h₁⟩ := h₁
  obtain ⟨offers₂, h₂⟩ := h₂
  refine ⟨offers₁ ++ offers₂, ?_, ?_, fun d hd ↦ ?_⟩
  · rw [h₂.queue_eq, h₁.queue_eq, Queue.addAll_append]
  · rw [h₂.errors_eq, h₁.errors_eq, List.filter_append, List.append_assoc]
  · exact (List.mem_append.mp hd).elim (h₁.plain d) (h₂.plain d)

private theorem Follows.of_remarks {remarks : List Diagnostic}
    (hremarks : ∀ d ∈ remarks, d.IsRemark)
    (hqueue : s₂.queue = s₁.queue.addAll remarks) (herrors : s₂.errors = s₁.errors) :
    s₁.Follows s₂ := by
  have hnone : remarks.filter (·.isError) = [] :=
    List.filter_eq_nil_iff.mpr fun d hd ↦ by simp [(hremarks d hd).not_isError]
  exact ⟨remarks, hqueue, by rw [herrors, hnone, List.append_nil],
    fun d hd ↦ (hremarks d hd).toIsPlain⟩

/-- **An error goes both ways.** -/
theorem follows_reportAll (c : Config) (s : UnitState) (errors : List Error) :
    s.Follows (s.reportAll c errors) := by
  refine ⟨errors.map (·.diagnostic), queue_reportAll c s errors, ?_, fun d hd ↦ ?_⟩
  · have hall : (errors.map (·.diagnostic)).filter (·.isError) = errors.map (·.diagnostic) := by
      refine List.filter_eq_self.mpr fun d hd ↦ ?_
      obtain ⟨e, -, rfl⟩ := List.mem_map.mp hd
      exact e.diagnostic_spec.1
    rw [errors_reportAll, List.map_append, hall]
  · obtain ⟨e, -, rfl⟩ := List.mem_map.mp hd
    exact e.isPlain_diagnostic

private theorem follows_addLiterals (s : UnitState) (readings : List LiteralReading) :
    s.Follows (s.addLiterals readings) := by
  refine .of_remarks (fun d hd ↦ ?_) rfl rfl
  obtain ⟨r, -, hwarning⟩ := List.mem_filterMap.mp hd
  exact r.isRemark_warning hwarning

private theorem follows_takeTree (c : Config) (s : UnitState) (x : Except Error ScopeTree) :
    s.Follows (s.takeTree c x) := by
  rcases x with e | t
  · exact follows_reportAll c s [e]
  · exact .of_eq rfl rfl

private theorem follows_openScope (c : Config) (s : UnitState) (kind : ScopeKind)
    (name : Option String) (span : Span) : s.Follows (s.openScope c kind name span) := by
  rw [UnitState.openScope]
  split
  · exact .of_eq rfl rfl
  · next e _ =>
    have hrefused : s.Follows { s with refused := s.tree.depth :: s.refused } := .of_eq rfl rfl
    exact hrefused.trans (follows_reportAll c _ [e])

private theorem follows_closeHandle (c : Config) (s : UnitState) (h : ScopeTree.Handle)
    (span : Span) : s.Follows (s.closeHandle c h span) := by
  rw [UnitState.closeHandle]
  split
  · next unresolved t _ =>
    have hclosed : s.Follows { s with tree := t } := .of_eq rfl rfl
    exact hclosed.trans (follows_reportAll c _ unresolved)
  · exact follows_reportAll c s [_]

private theorem follows_closeScope (c : Config) (s : UnitState) (span : Span) :
    s.Follows (s.closeScope c span) := by
  rw [UnitState.closeScope]
  split
  · exact .of_eq rfl rfl
  · split
    · exact follows_reportAll c s [_]
    · exact follows_closeHandle c s _ span

private theorem follows_declare (c : Config) (s : UnitState) (e : DeclareEvent) :
    s.Follows (s.declare c e) := by
  have htaken : s.Follows (s.takeDeclared (e.elaborate c.widths s.tree)) :=
    (follows_addLiterals s _).trans
      (.of_remarks (fun d hd ↦ DeclareEvent.isRemark_elaborate hd) rfl rfl)
  rw [UnitState.declare, reportFailure_eq]
  exact (htaken.trans (follows_reportAll c _ _)).trans (.of_eq rfl rfl)

private theorem follows_take (c : Config) (s : UnitState) (e : Event) : s.Follows (s.take c e) := by
  cases e with
  | literal l =>
    rw [UnitState.take, literal, reportFailure_eq]
    exact (follows_addLiterals s _).trans (follows_reportAll c _ _)
  | openScope kind name span => exact follows_openScope c s kind name span
  | closeScope span => exact follows_closeScope c s span
  | declare e => exact follows_declare c s e
  | use name path span =>
    rw [UnitState.take, use_eq]
    exact (follows_reportAll c s _).trans (.of_eq rfl rfl)
  | assign name span =>
    rw [UnitState.take, reportFailure_eq]
    exact follows_reportAll c s _
  | label | goto => exact follows_takeTree c s _

theorem Follows.held_subset (h : s.Follows s₁) : s.queue.held ⊆ s₁.queue.held := by
  obtain ⟨offers, hoffers⟩ := h
  rw [hoffers.queue_eq]
  exact (Queue.held_prefix_addAll _ offers).subset

end Follows

theorem follows_run (c : Config) (s : UnitState) (events : List Event) :
    s.Follows (s.run c events) :=
  run_keeps (P := s.Follows) (fun s' e hs ↦ hs.trans (follows_take c s' e)) (.refl s) events

theorem follows_finish (c : Config) (s : UnitState) : s.Follows (s.finish c) :=
  closeOpen_keeps (P := s.Follows) (fun s' h hs ↦ (hs.trans (follows_reportAll c s' [_])).trans
    (follows_closeHandle c _ h _)) (.refl s) _

/-- The errors among everything that was offered to the queue are the diagnostics of the errors that
were raised. -/
structure Told (c : Config) (s : UnitState) (offers : List Diagnostic) : Prop where
  queue_eq : s.queue = (Queue.new c.diagnostics).addAll offers
  errors_eq : offers.filter (·.isError) = s.errors.map (·.diagnostic)
  plain : ∀ d ∈ offers, d.IsPlain

/-- **Errors and offers stay together** in a whole unit. -/
theorem tells_finish_run (c : Config) (seed : Seed) (events : List Event) :
    ∃ offers, (((new c seed).run c events).finish c).Told c offers := by
  obtain ⟨offers, hoffers⟩ := (follows_run c (new c seed) events).trans (follows_finish c _)
  exact ⟨offers, hoffers.queue_eq, hoffers.errors_eq.symm, hoffers.plain⟩

end UnitState

/-! ## What is given out -/

namespace Queue

variable {q : Queue}

section Plain

variable (hplain : ∀ d ∈ q.held, d.IsPlain)
include hplain

private theorem filter_code_ne_flush : q.flush.1.filter (·.code ≠ .errorLimit) = q.sorted := by
  have hsorted : q.sorted.filter (·.code ≠ .errorLimit) = q.sorted :=
    List.filter_eq_self.mpr fun d hd ↦ decide_eq_true (hplain d (mem_sorted_iff.mp hd)).code_ne
  have hnotices : q.notices.filter (·.code ≠ .errorLimit) = [] :=
    List.filter_eq_nil_iff.mpr fun d hd ↦ by simp [code_of_mem_notices hd]
  rw [flush_fst, List.filter_append, hsorted, hnotices, List.append_nil]

private theorem filter_code_eq_flush : q.flush.1.filter (·.code = .errorLimit) = q.notices := by
  have hsorted : q.sorted.filter (·.code = .errorLimit) = [] :=
    List.filter_eq_nil_iff.mpr fun d hd ↦ by simp [(hplain d (mem_sorted_iff.mp hd)).code_ne]
  have hnotices : q.notices.filter (·.code = .errorLimit) = q.notices :=
    List.filter_eq_self.mpr fun d hd ↦ decide_eq_true (code_of_mem_notices hd)
  rw [flush_fst, List.filter_append, hsorted, hnotices, List.nil_append]

end Plain

/-- A queue gives out an error exactly if it holds one: the diagnostic at the end never comes
alone. -/
private theorem Holds.exists_isError_flush {p : QueuePolicy} {ds : List Diagnostic}
    (hholds : q.Holds p ds) :
    (∃ d ∈ q.flush.1, d.isError = true) ↔ ∃ d ∈ q.held, d.isError = true := by
  constructor
  · rintro ⟨d, hd, herror⟩
    rw [flush_fst, List.mem_append, mem_sorted_iff] at hd
    rcases hd with hheld | hnotice
    · exact ⟨d, hheld, herror⟩
    · -- an error is turned away only once the queue holds as many as it may
      have htruncated : q.truncated = true := by
        by_contra hnot
        rw [notices, if_neg hnot] at hnotice
        cases hnotice
      have hpos := hholds.pos_of_truncated htruncated
      rw [hholds.errorCount_eq] at hpos
      exact List.countP_pos_iff.mp hpos
  · rintro ⟨d, hd, herror⟩
    exact ⟨d, List.mem_append_left _ (mem_sorted_iff.mpr hd), herror⟩

end Queue

private theorem QueuePolicy.shown_eq_nil_iff (p : QueuePolicy) (errors : List Diagnostic) :
    p.shown errors = [] ↔ errors = [] := by
  have hdistinct : p.distinct errors = [] ↔ errors = [] := by
    simp only [List.eq_nil_iff_forall_not_mem, mem_distinct_iff]
  rw [shown]
  split
  · next hlimit =>
    rw [List.take_eq_nil_iff, hdistinct, or_iff_right hlimit.ne']
  · exact hdistinct

/-- **The diagnostics of a unit tell its errors.** Set aside the diagnostic that announces the
limit, which comes last and at most once. The errors among the others are the diagnostics of the
errors of the unit, without the later of two equal ones if repetitions are dropped, and the first
ones up to the limit if there is one. Each has the code of its error and stands where the error is.
A unit has errors exactly if one of its diagnostics is an error, and the diagnostics are listed by
place. -/
theorem diagnostics_tell_errors (c : Config) (seed : Seed) (events : List Event) :
    let report := analyze c seed events
    let listed := report.diagnostics.filter (·.code ≠ .errorLimit)
    let notices := report.diagnostics.filter (·.code = .errorLimit)
    (listed.filter (·.isError)).Perm (c.diagnostics.shown (report.errors.map (·.diagnostic))) ∧
    (∀ e : Error, e.diagnostic.isError = true ∧ e.diagnostic.code = e.code ∧
      e.diagnostic.primary? = some e.span) ∧
    (report.errors ≠ [] ↔ ∃ d ∈ report.diagnostics, d.isError = true) ∧
    (report.diagnostics = listed ++ notices ∧ notices.length ≤ 1) ∧
    (∀ d ∈ listed, d.primary? = some d.position) ∧
    listed.Pairwise fun d e ↦ d.position.le e.position = true := by
  intro report listed notices
  obtain ⟨offers, htold⟩ := UnitState.tells_finish_run c seed events
  let q := (((UnitState.new c seed).run c events).finish c).queue
  have hqueue : q = (Queue.new c.diagnostics).addAll offers := htold.queue_eq
  have hholds : q.Holds c.diagnostics offers := hqueue ▸ Queue.holds_addAll _ offers
  have herrors : q.held.filter (·.isError) =
      c.diagnostics.shown (report.errors.map (·.diagnostic)) := by
    rw [hholds.filter_isError_held, htold.errors_eq]
    rfl
  have hplain : ∀ d ∈ q.held, d.IsPlain := fun d hd ↦
    htold.plain d (hholds.mem_of_mem_held hd)
  -- no offered diagnostic has the code of the notice, so the code takes the list apart
  have hlisted : listed = q.sorted := Queue.filter_code_ne_flush hplain
  have hnotices : notices = q.notices := Queue.filter_code_eq_flush hplain
  refine ⟨?_, Error.diagnostic_spec, ?_, ?_, fun d hd ↦ ?_, ?_⟩
  · rw [hlisted, ← herrors]
    exact (List.mergeSort_perm q.held _).filter _
  · refine Iff.trans ?_ hholds.exists_isError_flush.symm
    rw [← not_iff_not, not_not, ← List.map_eq_nil_iff (f := (·.diagnostic)),
      ← c.diagnostics.shown_eq_nil_iff, ← herrors, List.filter_eq_nil_iff]
    simp
  · rw [hlisted, hnotices]
    exact ⟨q.flush_fst, q.length_notices_le⟩
  · rw [hlisted, Queue.mem_sorted_iff] at hd
    exact (hplain d hd).primary?_eq
  · rw [hlisted]
    exact q.pairwise_sorted

end DeclAnalysis
