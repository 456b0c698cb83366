import DeclAnalysis.Proofs.Elaboration.Diagnostics
import DeclAnalysis.Proofs.Elaboration.Shown
import DeclAnalysis.Proofs.Numeric.Rounding
import DeclAnalysis.Proofs.Ty.Narrowing

/-!
# Recorded constants

A constant takes the known value of its only operand, converted to its type, and the next constant
may take it from there. An integer that its new type does not hold is forgotten on the way, so every
recorded integer is in the range of the declared type (`recorded_constants_fit`), whatever chain of
declarations it came through.

A floating-point number is recorded as it is. The type `float` may get a double that it does not
hold, and passes it on. But such a value does not come from nowhere: either it entered a `float` at
a declaration where the conversion was noted or refused as narrowing, or an expression of the unit
was given with a type that does not hold its value (`float_constants_held_or_told`).
-/

namespace DeclAnalysis

/-! ## Values that are converted -/

namespace Widths

variable {w : Widths} {t : Ty} {k : Constant}

private theorem isIntegral_of_range? {range : IntRange} (hrange : w.range? t = some range) :
    t.isIntegral = true := by
  rw [range?.eq_def] at hrange
  rw [Ty.isIntegral]
  split at hrange <;> simp_all

private theorem of_convert?_int {v : Int} (hconvert : w.convert? t k = some (.int v)) :
    k = .int v ∧ ∃ range, w.range? t = some range ∧ range.contains v = true := by
  rcases k with u | u
  · rw [convert?] at hconvert
    split at hconvert
    · next range hrange =>
      split at hconvert
      · next hcontains =>
        obtain rfl := Constant.int.inj (Option.some.inj hconvert)
        exact ⟨rfl, range, hrange, hcontains⟩
      · cases hconvert
    · cases hconvert
  · rw [convert?] at hconvert
    split at hconvert <;> cases hconvert

private theorem of_convert?_float {v : Binary64} (hconvert : w.convert? t k = some (.float v)) :
    k = .float v ∧ t.isFloating = true := by
  rcases k with u | u
  · rw [convert?] at hconvert
    split at hconvert
    · split at hconvert <;> cases hconvert
    · cases hconvert
  · rw [convert?] at hconvert
    split at hconvert
    · next hfloating =>
      obtain rfl := Constant.float.inj (Option.some.inj hconvert)
      exact ⟨rfl, hfloating⟩
    · cases hconvert

end Widths

private theorem DeclareEvent.exists_of_constant? {w : Widths} {e : DeclareEvent} {t : Ty}
    {operands : List Operand} {k : Constant} (hconstant : e.constant? w t operands = some k) :
    ∃ o value, operands = [o] ∧ o.value = some value ∧ e.isConst = true ∧
      t.isReference = false ∧ w.convert? t value = some k := by
  rw [constant?.eq_def] at hconstant
  split at hconstant
  · next o =>
    split at hconstant
    · next hrecords =>
      obtain ⟨value, hvalue, hconvert⟩ := Option.bind_eq_some_iff.mp hconstant
      simp only [Bool.and_eq_true, Bool.not_eq_true'] at hrecords
      exact ⟨o, value, rfl, hvalue, hrecords.1, hrecords.2, hconvert⟩
    · cases hconstant
  · cases hconstant

/-! ## Integers -/

/-- The recorded value of a declaration is one of its type: the object is constant, and an integer
is in the range of an integral type, a floating-point number in a floating one. -/
structure Declaration.ConstantFits (w : Widths) (d : Declaration) : Prop where
  int : ∀ v, d.constant = some (.int v) → d.isConst = true ∧ d.type.isIntegral = true ∧
    ∃ range, w.range? d.type = some range ∧ range.contains v = true
  float : ∀ v, d.constant = some (.float v) → d.isConst = true ∧ d.type.isFloating = true

private theorem DeclareEvent.Declares.constantFits {w : Widths} {t : ScopeTree} {e : DeclareEvent}
    {d : Declaration} (hd : e.Declares w t d) : d.ConstantFits w := by
  obtain ⟨type, -, rfl⟩ := hd
  refine ⟨fun v hv ↦ ?_, fun v hv ↦ ?_⟩
  · obtain ⟨o, value, -, -, hconst, -, hconvert⟩ := exists_of_constant? hv
    obtain ⟨-, range, hrange, hcontains⟩ := Widths.of_convert?_int hconvert
    exact ⟨hconst, Widths.isIntegral_of_range? hrange, range, hrange, hcontains⟩
  · obtain ⟨o, value, -, -, hconst, -, hconvert⟩ := exists_of_constant? hv
    exact ⟨hconst, (Widths.of_convert?_float hconvert).2⟩

/-- **Recorded constants are values of their types.** If the constants of the seed are, then so are
those of every declaration that the report on a unit shows: a recorded integer belongs to a constant
of integral type and is in its range, and a floating-point number belongs to a constant of floating
type. -/
theorem recorded_constants_fit {c : Config} {seed : Seed} {events : List Event} {d : Declaration}
    (hseed : ∀ name d, seed.get? name = some d → d.ConstantFits c.widths)
    (hd : (analyze c seed events).Shows d) : d.ConstantFits c.widths :=
  of_shows_analyze (P := fun _ d ↦ d.ConstantFits c.widths) hseed (fun _ _ _ hfits ↦ hfits)
    (fun _ _ _ _ _ _ hdeclares _ ↦ hdeclares.constantFits) hd

/-- The value of `const byte top = limit;`, where `byte` is an alias of `unsigned char` and `limit`
a shared `const int` of value 200, is in the range of `byte`. -/
theorem recorded_constants_fit_byte :
    let byte : Ty := .named "byte" (.char .unsigned)
    let limit : Declaration := ⟨"limit", .int, .static, .everywhere, true, true, none,
      some (.int 200), ⟨0, 5⟩⟩
    let e : DeclareEvent := ⟨"top", ⟨11, 14⟩, .explicit byte, [], none, true, true,
      some ⟨.copy, [.name "limit" ⟨17, 22⟩], ⟨17, 22⟩⟩⟩
    let d : Declaration := ⟨"top", byte, .static, .unitOnly, true, true, e.init, some (.int 200),
      ⟨11, 14⟩⟩
    let seed : Seed := ⟨⟨[("limit", limit)]⟩⟩
    limit.ConstantFits {} ∧ (analyze {} seed [.declare e]).Shows d ∧
    ∃ range, Widths.range? {} d.type = some range ∧ range.contains 200 = true := by
  intro byte limit e d seed
  have hlimit : limit.ConstantFits {} := by
    refine ⟨fun v hv ↦ ?_, fun v hv ↦ ?_⟩
    · obtain rfl := Constant.int.inj (Option.some.inj hv)
      exact ⟨rfl, rfl, _, rfl, by decide⟩
    · cases hv
  have hresults : (analyze {} seed [.declare e]).declarations.map (·.result) = [.ok d] := by
    decide +kernel
  obtain ⟨report, hreports, hok⟩ := List.map_eq_singleton_iff.mp hresults
  have hshows : (analyze {} seed [.declare e]).Shows d :=
    .accepted (hreports ▸ List.mem_singleton_self report) hok
  have hseed (name : String) (d' : Declaration) (hfound : seed.get? name = some d') :
      d'.ConstantFits {} := by
    obtain ⟨entry, hentry, rfl⟩ := Option.map_eq_some_iff.mp hfound
    rw [List.mem_singleton.mp (List.mem_of_find?_eq_some hentry)]
    exact hlimit
  exact ⟨hlimit, hshows, ((recorded_constants_fit hseed hshows).int 200 rfl).2.2⟩

/-! ## Floating-point numbers -/

namespace Precision

variable {p q : Precision} {v : Binary64}

private theorem eq_float_of_not_holds (hfinite : v.isFinite = true) (hlost : ¬ p.holds v = true) :
    p = .float := by
  rcases p with - | - | -
  · rfl
  · exact absurd hfinite hlost
  · exact absurd hfinite hlost

private theorem holds_of_rank_le (hle : q.rank ≤ p.rank) (hholds : q.holds v = true) :
    p.holds v = true := by
  have hfinite : v.isFinite = true := by
    rcases q with - | - | -
    · rw [holds, Binary64.isSingle, Bool.and_eq_true, Bool.and_eq_true] at hholds
      exact hholds.1.1
    · exact hholds
    · exact hholds
  by_contra hlost
  obtain rfl := eq_float_of_not_holds hfinite hlost
  rcases q with - | - | -
  · exact hlost hholds
  all_goals exact absurd hle (by decide)

end Precision

/-- A type of floating-point numbers that holds a number exactly, seen through a reference. -/
def Ty.HoldsFloat (t : Ty) (v : Binary64) : Prop :=
  ∃ p, t.designated = .floating p ∧ p.holds v = true

private theorem Ty.designated_of_floating {t : Ty} {p : Precision}
    (ht : t.withoutAlias = .floating p) : t.designated = .floating p := by
  rw [designated, ht]

private theorem Ty.exists_of_isFloating {t : Ty} (ht : t.isFloating = true) :
    ∃ p, t.withoutAlias = .floating p := by
  rw [isFloating] at ht
  split at ht
  · next p hp => exact ⟨p, hp⟩
  · cases ht

private theorem Widths.holds_of_narrowing?_eq_none {w : Widths} {source target : Ty} {p : Precision}
    {v : Binary64} (hsource : source.HoldsFloat v) (htarget : target.designated = .floating p)
    (hnone : w.narrowing? source (some (.float v)) target = none) : p.holds v = true := by
  obtain ⟨q, hq, hholds⟩ := hsource
  rw [narrowing?_eq_none_iff_narrows, hq, htarget] at hnone
  have hkept : q.narrowsTo (some (.float v)) p = false := hnone
  rw [Precision.narrowsTo, Bool.and_eq_false_iff] at hkept
  rcases hkept with hrank | hheld
  · exact Precision.holds_of_rank_le (Nat.le_of_not_lt (of_decide_eq_false hrank)) hholds
  · simpa using hheld

/-- The value of a floating literal is held by its type: it was rounded to it. -/
private theorem Literal.holdsFloat_of_read {w : Widths} {l : Literal} {m : LiteralMeaning}
    {v : Binary64}
    (hread : l.read w = .ok m) (hvalue : m.value = .float v) : m.type.HoldsFloat v := by
  rcases cases_of_read hread with ⟨-, hmeaning⟩ | ⟨-, hmeaning⟩ | ⟨-, hmeaning⟩
  · obtain ⟨width, sign, u, rfl, -⟩ := fits_of_integerMeaning hmeaning
    cases hvalue
  · obtain ⟨own, u, -, hint, -⟩ := exists_range_of_characterMeaning hmeaning
    cases hint.symm.trans hvalue
  · obtain ⟨p, value, rfl, hfinite⟩ := exists_of_floatingMeaning hmeaning
    obtain rfl := Constant.float.inj hvalue
    refine ⟨p, rfl, ?_⟩
    rcases p with - | - | -
    · exact Binary64.isSingle_toSingle hfinite
    · exact hfinite
    · exact hfinite

/-- The ways in which a number gets into an operand: with a type that holds it, from a declaration
in sight, or with a type that is given and does not hold it. -/
private theorem Expr.origin_of_float {w : Widths} {t : ScopeTree} {x : Expr} {o : Operand}
    {v : Binary64} (hok : (x.evaluate w t).result = .ok o) (hvalue : o.value = some (.float v)) :
    o.type.HoldsFloat v ∨
      (∃ name d, t.lookup? name = some d ∧ d.type = o.type ∧ d.constant = some (.float v)) ∨
      ∃ place, x = .typed o.type (some (.float v)) place ∧ ¬ o.type.HoldsFloat v := by
  rcases x with l | ⟨name, place⟩ | ⟨type, value, place⟩
  · rw [evaluate, LiteralReading.operand] at hok
    rcases hread : l.read w with fault | m
    · rw [hread] at hok
      cases hok
    · rw [hread] at hok
      obtain rfl := Except.ok.inj hok
      exact .inl (l.holdsFloat_of_read hread (Option.some.inj hvalue))
  · rw [evaluate] at hok
    rcases hfound : t.lookup? name with - | d
    · rw [hfound] at hok
      cases hok
    · rw [hfound] at hok
      obtain rfl := Except.ok.inj hok
      exact .inr (.inl ⟨name, d, hfound, rfl, hvalue⟩)
  · obtain rfl := Except.ok.inj hok
    obtain rfl : value = some (.float v) := hvalue
    by_cases hholds : type.HoldsFloat v
    · exact .inl hholds
    · exact .inr (.inr ⟨place, rfl, hholds⟩)

private theorem Expr.exists_of_evaluateAll_singleton {w : Widths} {t : ScopeTree} {es : List Expr}
    {o : Operand} (hok : (evaluateAll w t es).result = .ok [o]) :
    ∃ x, es = [x] ∧ (x.evaluate w t).result = .ok o := by
  rcases es with - | ⟨x, rest⟩
  · cases hok
  rw [evaluateAll] at hok
  dsimp only at hok
  rcases hx : (x.evaluate w t).result with error | o'
  · rw [hx] at hok
    cases hok
  rw [hx] at hok
  dsimp only at hok
  rcases hrest : (evaluateAll w t rest).result with error | others
  · rw [hrest] at hok
    cases hok
  rw [hrest] at hok
  obtain ⟨rfl, rfl⟩ := List.cons.inj (Except.ok.inj hok)
  rcases rest with - | ⟨y, more⟩
  · exact ⟨x, rfl, hx⟩
  · -- a second expression would have an operand of its own
    obtain ⟨o'', hmem, -⟩ := exists_operand hrest List.mem_cons_self
    cases hmem

namespace DeclareEvent

variable {w : Widths} {t : ScopeTree} {e : DeclareEvent} {o : Operand} {type : Ty} {n : Narrowing}

private theorem evaluateAll_of_operandsOf (hoperands : e.operandsOf w t = [o]) :
    (Expr.evaluateAll w t e.elements).result = .ok [o] := by
  rw [operandsOf] at hoperands
  rcases hall : (Expr.evaluateAll w t e.elements).result with error | operands
  · rw [hall] at hoperands
    cases hoperands
  · rw [hall] at hoperands
    exact congrArg _ hoperands

private theorem exists_init_of_operandsOf (hoperands : e.operandsOf w t = [o]) :
    ∃ init, e.init = some init := by
  have hall := evaluateAll_of_operandsOf hoperands
  rw [elements] at hall
  rcases hinit : e.init with - | init
  · rw [hinit] at hall
    cases hall
  · exact ⟨init, rfl⟩

/-- **Narrowing does not pass in silence.** A floating-point number that is bound and takes a value
by narrowing is noted, or the declaration fails with an error that says so. -/
theorem tells_narrowing {p : Precision} {standing : Declaration} {t' : ScopeTree}
    (hoperands : e.operandsOf w t = [o])
    (htype : (e.declaredType w t (e.operandsOf w t)).result = .ok type)
    (hfloating : type.designated = .floating p) (hn : w.narrowing? o.type o.value type = some n)
    (hdeclare : t.declare (e.declaration w t.currentKind type (e.operandsOf w t)) =
      .ok (standing, t')) :
    n.remark o.span ∈ (e.elaborate w t).remarks ∨
      (e.elaborate w t).result = .error (.narrowing n.source n.target o.span) := by
  obtain ⟨init, hinit⟩ := exists_init_of_operandsOf hoperands
  have hsound : e.operandFault? w t = none := by
    rw [operandFault?, evaluateAll_of_operandsOf hoperands]
  have hcomplete : ¬ e.lacksInit t.currentKind type = true := by
    rw [lacksInit, hinit]
    exact Bool.false_ne_true
  obtain ⟨literals, hdone⟩ := elaborate_of_declaredType (.inr hsound) htype
  rw [hdone, hsound, bind.eq_def, if_neg hcomplete]
  dsimp only
  rw [hdeclare, hinit, hoperands]
  dsimp only
  rcases hbraced : init.form.isBraced with - | -
  · -- outside braces the conversion goes through, with a note
    left
    have hremark : n.remark o.span ∈ w.initRemarks type init [o] := by
      rw [Widths.initRemarks, hbraced, List.filterMap_cons, hn]
      exact List.mem_cons_self
    rcases w.initFault? type init [o] with - | error <;> exact hremark
  · right
    have hscalar : w.narrowing? o.type o.value (.floating p) = some n := by
      rw [← hn]
      exact Widths.narrowing?_congr rfl (by rw [hfloating]; rfl) o.value
    have hfault : w.initFault? type init [o] = some (.narrowing n.source n.target o.span) := by
      rw [Widths.initFault?, if_pos hbraced, Widths.listFault?, Ty.listTarget, hfloating]
      refine (if_neg (Nat.lt_irrefl 1)).trans ?_
      rw [Widths.firstNarrowing?, List.findSome?_cons, hscalar]
      rfl
    rw [hfault]

end DeclareEvent

private theorem UnitState.said_of_declare {c : Config} {seed : Seed} {front : List Event}
    {e : DeclareEvent} {n : Narrowing} {span : Span}
    (hgoes : (stateAfter c seed front).aborted = false)
    (hsaid : n.remark span ∈ (e.elaborate c.widths (stateAfter c seed front).tree).remarks ∨
      (e.elaborate c.widths (stateAfter c seed front).tree).result =
        .error (.narrowing n.source n.target span)) :
    n.remark span ∈ (stateAfter c seed (front ++ [.declare e])).queue.held ∨
      .narrowing n.source n.target span ∈ (stateAfter c seed (front ++ [.declare e])).errors := by
  have hstate : stateAfter c seed (front ++ [.declare e]) =
      (stateAfter c seed front).take c (.declare e) := by
    rw [stateAfter_append]
    exact step_eq_take c hgoes _
  rw [hstate]
  rcases hsaid with hremark | hfails
  · left
    rw [take, queue_declare]
    exact Queue.mem_held_addAll _ (List.mem_append_left _ (List.mem_append_right _ hremark))
      (n.isRemark_remark span).not_isError
  · right
    have hraised := errors_of_gains (gains_take c (stateAfter c seed front) (.declare e))
    rw [hraised]
    refine List.mem_append_right _ ?_
    change _ ∈ failures (e.elaborate c.widths (stateAfter c seed front).tree).result
    rw [hfails]
    exact List.mem_singleton_self _

/-- A declaration takes a number from an operand whose type holds it into a constant of type
`float`, which does not hold it. -/
structure DeclareEvent.Loses (w : Widths) (t : ScopeTree) (e : DeclareEvent) (o : Operand)
    (q : Precision) (v : Binary64) : Prop where
  operands_eq : e.operandsOf w t = [o]
  designated_eq : o.type.designated = .floating q
  held : q.holds v = true
  lost : Precision.float.holds v = false
  recorded : ∃ d, e.Declares w t d ∧ d.type.withoutAlias = .floating .float ∧
    d.constant = some (.float v)

/-- A number is lost in a declaration of a unit, and there is a note or an error that says so. -/
def LossTold (c : Config) (events : List Event) (notes : List Diagnostic) (errors : List Error)
    (v : Binary64) : Prop :=
  ∃ front e back o q, events = front ++ .declare e :: back ∧
    e.Loses c.widths (stateAfter c .empty front).tree o q v ∧
    (Narrowing.remark ⟨.floating q, .floating .float⟩ o.span ∈ notes ∨
      .narrowing (.floating q) (.floating .float) o.span ∈ errors)

namespace LossTold

variable {c : Config} {events : List Event} {notes notes' : List Diagnostic}
  {errors errors' : List Error} {v : Binary64}

theorem mono (htold : LossTold c events notes errors v) (hnotes : notes ⊆ notes')
    (herrors : errors ⊆ errors') : LossTold c events notes' errors' v := by
  obtain ⟨front, e, back, o, q, hsplit, hloses, hsaid⟩ := htold
  exact ⟨front, e, back, o, q, hsplit, hloses, hsaid.imp (hnotes ·) (herrors ·)⟩

theorem append (htold : LossTold c events notes errors v) (more : List Event) :
    LossTold c (events ++ more) notes errors v := by
  obtain ⟨front, e, back, o, q, rfl, hsaid⟩ := htold
  exact ⟨front, e, back ++ more, o, q, by simp, hsaid⟩

end LossTold

/-- An expression in an initializer of a unit is given with a number and a type that does not hold
it. -/
def Misstated (events : List Event) (v : Binary64) : Prop :=
  ∃ e type place, .declare e ∈ events ∧ .typed type (some (.float v)) place ∈ e.elements ∧
    ¬ type.HoldsFloat v

/-- The events so far account for a number that is recorded where it is not held. -/
def AccountedFor (c : Config) (events : List Event) (v : Binary64) : Prop :=
  LossTold c events (stateAfter c .empty events).queue.held (stateAfter c .empty events).errors v ∨
    Misstated events v

theorem AccountedFor.concat {c : Config} {front : List Event} {v : Binary64}
    (hv : AccountedFor c front v) (event : Event) : AccountedFor c (front ++ [event]) v := by
  rcases hv with htold | ⟨e, type, place, he, hx, hnot⟩
  · left
    rw [stateAfter_append]
    exact (htold.append [event]).mono (UnitState.follows_run c _ [event]).held_subset
      (UnitState.errors_prefix_run c _ [event]).subset
  · exact .inr ⟨e, type, place, List.mem_append_left _ he, hx, hnot⟩

/-- A recorded number is held by the type of its declaration or accounted for. -/
def Declaration.FloatExplained (c : Config) (events : List Event) (d : Declaration) : Prop :=
  ∀ v, d.constant = some (.float v) → v.isFinite = true →
    d.type.HoldsFloat v ∨ AccountedFor c events v

namespace Declaration.FloatExplained

variable {c : Config} {d : Declaration} {front : List Event}

theorem concat (hd : d.FloatExplained c front) (event : Event) :
    d.FloatExplained c (front ++ [event]) := fun v hconstant hfinite ↦
  (hd v hconstant hfinite).imp_right (·.concat event)

private theorem of_evaluate {e : DeclareEvent} {x : Expr} {o : Operand} {v : Binary64}
    (htree : (stateAfter c .empty front).tree.Every (FloatExplained c front))
    (hx : x ∈ e.elements)
    (hok : (x.evaluate c.widths (stateAfter c .empty front).tree).result = .ok o)
    (hvalue : o.value = some (.float v)) (hfinite : v.isFinite = true) :
    o.type.HoldsFloat v ∨ AccountedFor c (front ++ [.declare e]) v := by
  rcases Expr.origin_of_float hok hvalue with
    hholds | ⟨name, d', hfound, htype, hconstant⟩ | ⟨place, rfl, hnot⟩
  · exact .inl hholds
  · rw [← htype]
    exact (htree.lookup? hfound).concat _ v hconstant hfinite
  · exact .inr (.inr ⟨e, o.type, place, by simp, hx, hnot⟩)

/-- **A declaration explains what it records**, if the declarations in sight do. -/
theorem of_declares {e : DeclareEvent} {standing : Declaration}
    (hgoes : (stateAfter c .empty front).aborted = false)
    (htree : (stateAfter c .empty front).tree.Every (FloatExplained c front))
    (hdeclares : e.Declares c.widths (stateAfter c .empty front).tree d)
    (hdeclare : (stateAfter c .empty front).tree.declare d =
      .ok (standing, (e.elaborate c.widths (stateAfter c .empty front).tree).tree)) :
    d.FloatExplained c (front ++ [.declare e]) := by
  intro v hconstant hfinite
  obtain ⟨type, htype, rfl⟩ := hdeclares
  obtain ⟨o, value, hoperands, hvalue, -, -, hconvert⟩ := DeclareEvent.exists_of_constant? hconstant
  obtain ⟨rfl, hfloating⟩ := Widths.of_convert?_float hconvert
  obtain ⟨p, hp⟩ := Ty.exists_of_isFloating hfloating
  by_cases hholds : p.holds v = true
  · exact .inl ⟨p, Ty.designated_of_floating hp, hholds⟩
  right
  obtain rfl := Precision.eq_float_of_not_holds hfinite hholds
  obtain ⟨x, hx, hevaluate⟩ :=
    Expr.exists_of_evaluateAll_singleton (DeclareEvent.evaluateAll_of_operandsOf hoperands)
  rcases of_evaluate htree (hx ▸ List.mem_cons_self) hevaluate hvalue hfinite with
    ⟨q, hq, hheld⟩ | hexplained
  · -- the number is lost right here, so the conversion is narrowing
    left
    rcases hnarrowing : c.widths.narrowing? o.type o.value type with - | n
    · rw [hvalue] at hnarrowing
      exact absurd (Widths.holds_of_narrowing?_eq_none ⟨q, hq, hheld⟩
        (Ty.designated_of_floating hp) hnarrowing) hholds
    · obtain rfl : n = ⟨.floating q, .floating .float⟩ := by
        rw [Widths.eq_of_narrowing? hnarrowing, hq, Ty.designated_of_floating hp]
        rfl
      have hsaid := DeclareEvent.tells_narrowing hoperands htype (Ty.designated_of_floating hp)
        hnarrowing hdeclare
      exact ⟨front, e, [], o, q, rfl, ⟨hoperands, hq, hheld, eq_false_of_ne_true hholds,
        _, ⟨type, htype, rfl⟩, hp, hconstant⟩, UnitState.said_of_declare hgoes hsaid⟩
  · exact hexplained

end Declaration.FloatExplained

/-- **A number that `float` does not hold is accounted for.** Take a declaration of floating type
that the report on a unit shows, with a finite number recorded as its value. The type holds the
number, unless it is `float`. In that case the number was taken into a constant of type `float` by
narrowing, here or in a declaration before, which the diagnostics note or an error says, or it
stands in the unit with a type that does not hold it. -/
theorem float_constants_held_or_told {c : Config} {events : List Event} {d : Declaration}
    {p : Precision} {v : Binary64} (hd : (analyze c .empty events).Shows d)
    (htype : d.type.withoutAlias = .floating p) (hconstant : d.constant = some (.float v))
    (hfinite : v.isFinite = true) :
    p.holds v = true ∨ p = .float ∧
      (LossTold c events (analyze c .empty events).diagnostics (analyze c .empty events).errors v ∨
        Misstated events v) := by
  have hseed (name : String) (d : Declaration) (hfound : Seed.empty.get? name = some d) :
      d.FloatExplained c [] := by
    cases hfound
  have hexplained : d.FloatExplained c events :=
    of_shows_analyze (P := fun events d ↦ d.FloatExplained c events) hseed
      (fun _ event _ hd ↦ hd.concat event) (fun _ _ _ _ hgoes htree ↦ .of_declares hgoes htree) hd
  by_cases hholds : p.holds v = true
  · exact .inl hholds
  refine .inr ⟨Precision.eq_float_of_not_holds hfinite hholds, ?_⟩
  rcases hexplained v hconstant hfinite with ⟨q, hq, hheld⟩ | htold | hmisstated
  · rw [Ty.designated_of_floating htype] at hq
    obtain rfl := Ty.floating.inj hq
    exact absurd hheld hholds
  · left
    -- what was noted and raised so far is still there when the unit is closed
    have hnotes : (stateAfter c .empty events).queue.held ⊆
        (analyze c .empty events).diagnostics := fun note hnote ↦
      List.mem_append_left _ (Queue.mem_sorted_iff.mpr
        ((UnitState.follows_finish c (stateAfter c .empty events)).held_subset hnote))
    have herrors : (stateAfter c .empty events).errors ⊆ (analyze c .empty events).errors :=
      (UnitState.errors_prefix_closeOpen c _ (stateAfter c .empty events)).subset
    exact htold.mono hnotes herrors
  · exact .inr hmisstated

/-- The declaration `const float f = 0.1;`. -/
def tenthIntoFloat : DeclareEvent :=
  ⟨"f", ⟨12, 13⟩, .explicit (.floating .float), [], none, true, true,
    some ⟨.copy, [.literal (.floating "0.1" ⟨16, 19⟩)], ⟨16, 19⟩⟩⟩

/-- The declaration `const double d = f;` after it. -/
def floatIntoDouble : DeclareEvent :=
  ⟨"d", ⟨34, 35⟩, .explicit (.floating .double), [], none, true, true,
    some ⟨.copy, [.name "f" ⟨38, 39⟩], ⟨38, 39⟩⟩⟩

/-- The double nearest to a tenth. -/
def tenth : Binary64 := ⟨0x3FB999999999999A⟩

/-- The narrowing of a tenth to the type of `f` is told. -/
theorem float_constants_held_or_told_tenth :
    let events := [.declare tenthIntoFloat, .declare floatIntoDouble]
    let report := analyze {} .empty events
    ∃ d, report.Shows d ∧ d.type = .floating .float ∧ d.constant = some (.float tenth) ∧
      tenth.isFinite = true ∧ LossTold {} events report.diagnostics report.errors tenth := by
  intro events report
  let f : Declaration := ⟨"f", .floating .float, .static, .unitOnly, true, true,
    tenthIntoFloat.init, some (.float tenth), ⟨12, 13⟩⟩
  have hfirst : (report.declarations.map (·.result)).head? = some (.ok f) := by decide +kernel
  obtain ⟨declared, hmem, hok⟩ := List.mem_map.mp (List.mem_of_mem_head? hfirst)
  have hshows : report.Shows f := .accepted hmem hok
  have hfinite : tenth.isFinite = true := by decide
  refine ⟨f, hshows, rfl, rfl, hfinite, ?_⟩
  rcases float_constants_held_or_told hshows rfl rfl hfinite with
    hholds | ⟨-, htold | ⟨e, type, place, he, hx, -⟩⟩
  · exact absurd hholds (by decide +kernel)
  · exact htold
  · -- a literal and a name have the types that they have
    rcases List.mem_pair.mp he with he | he
    · obtain rfl := Event.declare.inj he
      cases List.mem_singleton.mp hx
    · obtain rfl := Event.declare.inj he
      cases List.mem_singleton.mp hx

/-- A tenth is recorded for `f`, though `float` does not hold it, and from there for `d`. -/
theorem tenth_recorded_in_float :
    let f : Declaration := ⟨"f", .floating .float, .static, .unitOnly, true, true,
      tenthIntoFloat.init, some (.float tenth), ⟨12, 13⟩⟩
    let d : Declaration := ⟨"d", .floating .double, .static, .unitOnly, true, true,
      floatIntoDouble.init, some (.float tenth), ⟨34, 35⟩⟩
    (analyze {} .empty [.declare tenthIntoFloat, .declare floatIntoDouble]).declarations.map
      (·.result) = [.ok f, .ok d] ∧
    tenth.isFinite = true ∧ Precision.float.holds tenth = false := by
  intro f d
  exact ⟨by decide +kernel, by decide, by decide +kernel⟩

end DeclAnalysis
