import DeclAnalysis.Proofs.Elaboration.Binding
import DeclAnalysis.Proofs.Elaboration.Reports
import DeclAnalysis.Proofs.Ty.Narrowing

/-!
# Initializers in braces keep the values of their literals

An initializer in braces is accepted only if no element is narrowed. For a literal this means that
the type of the target holds its value, with one exception. A conversion to a type that covers the
type of the literal is never narrowing, and then the value is not looked at; so a literal whose
value is beyond its own type, like `u'\x100'`, is taken for any such target. Integer literals are
never beyond their type, and neither are characters of the byte encodings on targets of the usual
widths (`Literal.KeepsToType`).
-/

namespace DeclAnalysis

private theorem Widths.narrowing?_of_initFault? {w : Widths} {type : Ty} {init : Initializer}
    {operands : List Operand} (hnone : w.initFault? type init operands = none)
    (hbraced : init.form.isBraced = true) {o : Operand} (ho : o ∈ operands) :
    w.narrowing? o.type o.value type.listTarget.1 = none := by
  have hfirst : w.firstNarrowing? type.listTarget.1 operands = none := by
    rw [initFault?, if_pos hbraced, listFault?] at hnone
    split at hnone
    · next target capacity htarget =>
      split at hnone
      · cases hnone
      · rwa [htarget]
    · next target htarget => rwa [htarget]
  rw [firstNarrowing?, List.findSome?_eq_none_iff] at hfirst
  simpa using hfirst o ho

private theorem DeclareEvent.narrowing?_of_literal {w : Widths} {t : ScopeTree} {d : DeclareEvent}
    {decl : Declaration} {init : Initializer} {l : Literal} {m : LiteralMeaning}
    (hok : (d.elaborate w t).result = .ok decl) (hinit : d.init = some init)
    (hbraced : init.form.isBraced = true) (hmem : .literal l ∈ init.elements)
    (hread : l.read w = .ok m) :
    w.narrowing? m.type (some m.value) decl.type.listTarget.1 = none := by
  obtain ⟨operands, type, hoperands, -, rfl, hfault⟩ := of_elaborate_ok hok
  rw [elements, hinit] at hoperands
  obtain ⟨o, ho, hevaluated⟩ := Expr.exists_operand hoperands hmem
  have hoperand : o = ⟨m.type, some m.value, l.span⟩ := by
    rw [Expr.evaluate, LiteralReading.operand, hread] at hevaluated
    exact (Except.ok.inj hevaluated).symm
  rw [hoperand] at ho
  exact Widths.narrowing?_of_initFault? (hfault init hinit) hbraced ho

/-- **No literal in braces is narrowed unnoticed.** Take a declaration of a unit that is reported as
accepted, and a literal among the elements of its initializer in braces, with an integral value
`v`. If the target of the elements is integral, the type of the literal is integral, too, and

* the range of the target contains `v` if the range of the literal's own type does;
* it does not contain `v` only if `v` is outside the range of that type and the target covers it;
* it always contains `v` if the literal keeps to its type. -/
theorem list_init_holds_literals {c : Config} {seed : Seed} {events : List Event} {i : Nat}
    {d : DeclareEvent} {report : DeclarationReport} {decl : Declaration} {init : Initializer}
    {l : Literal} {m : LiteralMeaning} {v : Int} {range : IntRange}
    (hd : (events.filterMap Event.declaration?)[i]? = some d)
    (hreport : (analyze c seed events).declarations[i]? = some report)
    (hok : report.result = .ok decl) (hinit : d.init = some init)
    (hbraced : init.form.isBraced = true) (hmem : .literal l ∈ init.elements)
    (hread : l.read c.widths = .ok m) (hvalue : m.value = .int v)
    (hrange : c.widths.range? decl.type.listTarget.1 = some range) :
    ∃ own, c.widths.range? m.type = some own ∧
      (own.contains v = true → range.contains v = true) ∧
      (range.contains v = true ∨ own.contains v = false ∧ range.covers own = true) ∧
      (l.KeepsToType c.widths → range.contains v = true) := by
  obtain ⟨front, back, -, rfl⟩ := declaration_reported hreport hd
  obtain ⟨own, hown, hkeeps⟩ := Literal.exists_range_of_read hread hvalue
  have hnarrowing := DeclareEvent.narrowing?_of_literal hok hinit hbraced hmem hread
  rw [hvalue, Widths.narrowing?_eq_none_iff (Widths.range?_designated hown)
    (Widths.range?_designated hrange), IntRange.narrowsTo_int_eq_false_iff] at hnarrowing
  have hsafe : own.contains v = true → range.contains v = true := by
    intro hv
    rcases hnarrowing with hcovers | hcontains
    · exact IntRange.contains_of_covers hcovers hv
    · exact hcontains
  refine ⟨own, hown, hsafe, ?_, fun hl ↦ hsafe (hkeeps hl)⟩
  rcases hnarrowing with hcovers | hcontains
  · rcases hv : own.contains v with - | -
    · exact .inr ⟨rfl, hcovers⟩
    · exact .inl (hsafe hv)
  · exact .inl hcontains

/-- The value of `'A'` in `byte bytes[] = {'A', '\n'};`, where `byte` is an alias of
`unsigned char`, is checked: the range of `char` is not covered by that of `byte`. -/
theorem list_init_holds_literals_bytes :
    let byte : Ty := .named "byte" (.char .unsigned)
    let l : Literal := .character "'A'" ⟨17, 20⟩
    let d : DeclareEvent := ⟨"bytes", ⟨5, 10⟩, .explicit byte, [.array none], none, false, true,
      some ⟨.copyList, [.literal l, .literal (.character "'\\n'" ⟨22, 26⟩)], ⟨16, 27⟩⟩⟩
    let decl : Declaration := ⟨"bytes", .array byte (some 2), .static, .everywhere, false, true,
      d.init, none, ⟨5, 10⟩⟩
    (analyze {} .empty [.declare d]).declarations.map (·.result) = [.ok decl] ∧
    l.read {} = .ok ⟨.char .plain, .int 65, false⟩ ∧ l.KeepsToType {} ∧
    Widths.range? {} decl.type.listTarget.1 = some ⟨0, 255⟩ ∧
    IntRange.contains ⟨0, 255⟩ 65 = true := by
  intro byte l d decl
  have hresults : (analyze {} .empty [.declare d]).declarations.map (·.result) = [.ok decl] := by
    decide +kernel
  obtain ⟨report, hreports, hok⟩ := List.map_eq_singleton_iff.mp hresults
  have hreport := congrArg (·[0]?) hreports
  have hread : l.read {} = .ok ⟨.char .plain, .int 65, false⟩ := by decide +kernel
  have hkeeps : l.KeepsToType {} := .inr ⟨rfl, by decide, by decide, by decide⟩
  have hrange : Widths.range? {} decl.type.listTarget.1 = some ⟨0, 255⟩ := by decide
  obtain ⟨own, -, -, -, hcontains⟩ := list_init_holds_literals (i := 0) (d := d) rfl hreport hok rfl
    rfl List.mem_cons_self hread rfl hrange
  exact ⟨hresults, hread, hkeeps, hrange, hcontains hkeeps⟩

/-- The declaration `char c{u'\x100'};` is accepted, although its only literal has the value 256 and
a `char` reaches up to 127: the literal counts as a `char` itself. -/
theorem wide_character_accepted :
    let l : Literal := .character "u'\\x100'" ⟨7, 15⟩
    let d : DeclareEvent := ⟨"c", ⟨0, 16⟩, .explicit (.char .plain), [], none, false, true,
      some ⟨.directList, [.literal l], ⟨7, 15⟩⟩⟩
    let decl : Declaration := ⟨"c", .char .plain, .static, .everywhere, false, true, d.init, none,
      ⟨0, 16⟩⟩
    (analyze {} .empty [.declare d]).declarations.map (·.result) = [.ok decl] ∧
    l.read {} = .ok ⟨.char .plain, .int 256, false⟩ ∧
    Widths.range? {} decl.type.listTarget.1 = some ⟨-128, 127⟩ ∧
    IntRange.contains ⟨-128, 127⟩ 256 = false := by
  intro l d decl
  exact ⟨by decide +kernel, by decide +kernel, by decide, by decide⟩

end DeclAnalysis
