import DeclAnalysis.Elaboration.Declare

/-!
# The names that a unit mentions

An event asks for declarations by name: a declaration asks for its own name, which may be taken, and
for the names among the operands of its initializer and of its `decltype`; a use and an assignment
ask for the name in question. The names of labels and scopes are not asked for in this way, and
neither are the segments of a path.

What an expression evaluates to depends on the tree by the lookup of its names only.
-/

namespace DeclAnalysis

variable {t t' : ScopeTree}

namespace Expr

/-- The names in an expression. -/
def names : Expr → List String
  | .name n _ => [n]
  | .literal _ => []
  | .typed _ _ _ => []

private theorem evaluate_congr {e : Expr}
    (hlookup : ∀ name ∈ e.names, t'.lookup? name = t.lookup? name)
    (w : Widths) : e.evaluate w t' = e.evaluate w t := by
  cases e with
  | literal | typed => rfl
  | name n place => rw [evaluate, evaluate, hlookup n List.mem_cons_self]

theorem evaluateAll_congr {es : List Expr}
    (hlookup : ∀ name ∈ es.flatMap names, t'.lookup? name = t.lookup? name) (w : Widths) :
    evaluateAll w t' es = evaluateAll w t es := by
  induction es with
  | nil => rfl
  | cons e rest ih =>
    rw [List.flatMap_cons, List.forall_mem_append] at hlookup
    rw [evaluateAll, evaluateAll, evaluate_congr hlookup.1, ih hlookup.2]

end Expr

/-- The names in the specifier of a declaration. -/
def Specifier.names : Specifier → List String
  | .explicit _ => []
  | .auto => []
  | .decltype operand _ => operand.names

namespace DeclareEvent

theorem declaredType_congr {e : DeclareEvent}
    (hlookup : ∀ name ∈ e.base.names, t'.lookup? name = t.lookup? name) (w : Widths)
    (operands : List Operand) : e.declaredType w t' operands = e.declaredType w t operands := by
  rw [declaredType, declaredType]
  cases hbase : e.base with
  | explicit | auto => rfl
  | decltype operand parenthesized =>
    rw [hbase] at hlookup
    dsimp only
    rw [Expr.evaluate_congr hlookup]

/-- The names that a declaration mentions: its own and those of its operands. -/
def names (e : DeclareEvent) : List String :=
  e.name :: (e.base.names ++ e.elements.flatMap Expr.names)

end DeclareEvent

/-- The names that an event mentions. -/
def Event.names : Event → List String
  | .declare e => e.names
  | .use name _ _ => [name]
  | .assign name _ => [name]
  | .literal _ => []
  | .openScope _ _ _ => []
  | .closeScope _ => []
  | .label _ _ => []
  | .goto _ _ => []

end DeclAnalysis
