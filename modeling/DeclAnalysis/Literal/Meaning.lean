import DeclAnalysis.Literal.Character
import DeclAnalysis.Literal.Floating

/-!
# Meaning of literals

The type and value of a literal, or the fault that it has. A literal whose suffix does not end its
text is refused before anything else is looked at.
-/

namespace DeclAnalysis

namespace Literal

/-- What a literal means on a target, or what is wrong with it. -/
def meaning (w : Widths) (l : Literal) : Except LiteralFault LiteralMeaning :=
  match l.body? with
  | none => .error (.invalidSuffix l.suffix)
  | some _ =>
    match l.kind with
    | .integer => l.integerMeaning w
    | .character => l.characterMeaning w
    | .floating => l.floatingMeaning

/-- The meaning of a literal, with a fault put in its place. -/
def read (w : Widths) (l : Literal) : Except LiteralError LiteralMeaning :=
  (l.meaning w).mapError fun fault ↦ ⟨l.span, fault⟩

theorem read_eq_ok_iff {w : Widths} {l : Literal} {m : LiteralMeaning} :
    l.read w = .ok m ↔ l.meaning w = .ok m := by
  rw [read]
  rcases l.meaning w with fault | meaning
  · exact ⟨nofun, nofun⟩
  · constructor
    · rintro ⟨⟩
      rfl
    · rintro ⟨⟩
      rfl

end Literal

end DeclAnalysis
