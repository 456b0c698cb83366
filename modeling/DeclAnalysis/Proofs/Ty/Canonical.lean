import DeclAnalysis.Elaboration.Declare
import DeclAnalysis.Proofs.Literal.Value

/-!
# Types without their aliases

Every question that an analysis asks of a type looks through the aliases at the place where it
looks: at the top, behind a reference, or inside an array. So each of them has the same answer for a
type and for its canonical form, once the types in the answer are made canonical too.

A deduction that fails names the types that are to blame, so a result is made canonical on both of
its sides, by `mapBoth`.
-/

namespace DeclAnalysis

/-- Applies one function to a failure and another one to a value. -/
def mapBoth {ε ε' α β : Type} (f : ε → ε') (g : α → β) : Except ε α → Except ε' β
  | .error e => .error (f e)
  | .ok a => .ok (g a)

@[simp] theorem mapBoth_error {ε ε' α β : Type} (f : ε → ε') (g : α → β) (e : ε) :
    mapBoth f g (.error e) = .error (f e) := rfl

@[simp] theorem mapBoth_ok {ε ε' α β : Type} (f : ε → ε') (g : α → β) (a : α) :
    mapBoth f g (.ok a) = .ok (g a) := rfl

theorem mapBoth_map {ε ε' α α' β β' : Type} (f : ε → ε') {g : α → β} {k : β → β'} {g' : α' → β'}
    {k' : α → α'} (h : ∀ a, k (g a) = g' (k' a)) (x : Except ε α) :
    (mapBoth f g x).map k = mapBoth f g' (x.map k') := by
  cases x with
  | error e => rfl
  | ok a => exact congrArg Except.ok (h a)

/-- The failure with the aliases in its types resolved. -/
def DeductionFailure.canonical : DeductionFailure → DeductionFailure
  | .notAPointer type => .notAPointer type.canonical
  | failure => failure

/-- The error with the aliases in its types resolved. -/
def DeductionError.canonical : DeductionError → DeductionError
  | .ambiguousList first conflicting => .ambiguousList first.canonical conflicting.canonical
  | .cannotDeduce reason => .cannotDeduce reason.canonical

/-- The initializer with the aliases in its types resolved. -/
def PlaceholderSource.canonical : PlaceholderSource → PlaceholderSource
  | .expr type => .expr type.canonical
  | .copyList types => .copyList (types.map Ty.canonical)
  | .directList types => .directList (types.map Ty.canonical)

namespace Ty

/-! ## Questions about one type -/

theorem withoutAlias_ne_named (t : Ty) (name : String) (underlying : Ty) :
    t.withoutAlias ≠ .named name underlying := by
  induction t with
  | named _ _ ih => exact ih
  | _ => nofun

theorem canonical_of_withoutAlias {t u : Ty} (h : t.withoutAlias = u) :
    t.canonical = u.canonical := by
  rw [← h, canonical_withoutAlias]

@[simp] theorem isReference_canonical (t : Ty) : t.canonical.isReference = t.isReference := by
  induction t with
  | named _ _ ih => exact ih
  | _ => rfl

@[simp] theorem isFloating_canonical (t : Ty) : t.canonical.isFloating = t.isFloating := by
  induction t with
  | named _ _ ih => exact ih
  | _ => rfl

@[simp] theorem same_canonical (t u : Ty) : t.canonical.same u.canonical = t.same u := by
  rw [same, same, canonical_canonical, canonical_canonical]

@[simp] theorem designated_canonical (t : Ty) :
    t.canonical.designated = t.designated.canonical := by
  induction t with
  | named _ _ ih => exact ih
  | reference referent => exact (withoutAlias_canonical _).trans (canonical_withoutAlias _).symm
  | _ => rfl

@[simp] theorem withoutReference_canonical (t : Ty) :
    t.canonical.withoutReference = t.withoutReference.canonical := by
  rw [withoutReference, withoutReference, withoutAlias_canonical]
  -- what stands on top behind the aliases also stands on top of the canonical form
  cases htop : t.withoutAlias with
  | named name underlying => exact absurd htop (t.withoutAlias_ne_named name underlying)
  | _ => rw [canonical_of_withoutAlias htop]; rfl

theorem withoutAlias_eq_void_iff (t : Ty) : t.withoutAlias = .void ↔ t.canonical = .void := by
  induction t with
  | named _ _ ih => exact ih
  | _ => simp [withoutAlias, canonical]

/-! ## Deduction -/

theorem decay_canonical (t : Ty) :
    t.canonical.decay = mapBoth DeductionError.canonical canonical t.decay := by
  rw [decay, decay, withoutReference_canonical, withoutAlias_canonical]
  -- the alias of an array decays like the array, but otherwise a type keeps its aliases
  cases htop : t.withoutReference.withoutAlias with
  | named name underlying =>
    exact absurd htop (t.withoutReference.withoutAlias_ne_named name underlying)
  | void => rw [canonical_of_withoutAlias htop]; rfl
  | array element length => rw [canonical_of_withoutAlias htop]; rfl
  | _ =>
    rw [canonical_of_withoutAlias htop]
    exact congrArg Except.ok (canonical_of_withoutAlias htop).symm

theorem agreeWith_canonical (first : Ty) (types : List Ty) :
    first.canonical.agreeWith (types.map canonical) =
      mapBoth DeductionError.canonical id (first.agreeWith types) := by
  induction types with
  | nil => rfl
  | cons t rest ih =>
    rw [List.map_cons, agreeWith, agreeWith, decay_canonical]
    cases t.decay with
    | error e => rfl
    | ok other =>
      dsimp only [mapBoth_ok]
      rw [same_canonical]
      split
      · exact ih
      · rfl

theorem decltype_canonical (t : Ty) (parenthesizedName : Bool) :
    t.canonical.decltype parenthesizedName = (t.decltype parenthesizedName).canonical := by
  rw [decltype, decltype, isReference_canonical]
  split <;> rfl

theorem withLayers_canonical (lastLength : Option Nat) (t : Ty) (layers : List DeclaratorLayer) :
    t.canonical.withLayers lastLength layers = (t.withLayers lastLength layers).canonical := by
  fun_induction withLayers lastLength t layers with
  | case1 t => rfl
  | case2 t => rfl
  | case3 t layer rest hlast ih =>
    rw [withLayers]
    · rw [← ih]
      cases layer <;> rfl
    · exact hlast

theorem listTarget_canonical (t : Ty) :
    t.canonical.listTarget = (t.listTarget.1.canonical, t.listTarget.2) := by
  rw [listTarget, listTarget, designated_canonical]
  -- what a type designates is no alias, so the split is on the same constructor on both sides
  have htop : ∀ name underlying, t.designated ≠ .named name underlying := by
    intro name underlying
    rw [designated]
    split
    · exact withoutAlias_ne_named _ _ _
    · exact withoutAlias_ne_named _ _ _
  cases hd : t.designated with
  | named name underlying => exact absurd hd (htop name underlying)
  | _ => rfl

end Ty

namespace PlaceholderSource

theorem deduce_canonical (p : PlaceholderSource) :
    p.canonical.deduce = mapBoth DeductionError.canonical Ty.canonical p.deduce := by
  fun_cases deduce p with
  | case1 t => exact t.decay_canonical
  | case2 => rfl
  | case3 t rest e hdecay =>
    rw [canonical, List.map_cons, deduce, Ty.decay_canonical, hdecay]
    rfl
  | case4 t rest first hdecay =>
    rw [canonical, List.map_cons, deduce, Ty.decay_canonical, hdecay]
    dsimp only [mapBoth_ok]
    rw [Ty.agreeWith_canonical]
    cases first.agreeWith rest <;> rfl
  | case5 t => exact t.decay_canonical
  | case6 types hmany =>
    rw [canonical, deduce]
    · rw [List.length_map]
      rfl
    · intro t ht
      obtain ⟨u, rfl, -⟩ := List.map_eq_singleton_iff.mp ht
      exact hmany u rfl

theorem deduceReference_canonical (p : PlaceholderSource) :
    p.canonical.deduceReference =
      mapBoth DeductionError.canonical Ty.canonical p.deduceReference := by
  cases p with
  | expr t =>
    rw [canonical, deduceReference, deduceReference, Ty.withoutReference_canonical,
      Ty.withoutAlias_canonical]
    simp only [Ty.withoutAlias_eq_void_iff]
    split <;> rfl
  | copyList types =>
    change (PlaceholderSource.copyList types).canonical.deduce.map Ty.reference =
      mapBoth _ _ ((PlaceholderSource.copyList types).deduce.map Ty.reference)
    rw [deduce_canonical]
    refine mapBoth_map _ ?_ _
    exact fun _ ↦ rfl
  | directList types =>
    change (PlaceholderSource.directList types).canonical.deduce.map Ty.reference =
      mapBoth _ _ ((PlaceholderSource.directList types).deduce.map Ty.reference)
    rw [deduce_canonical]
    refine mapBoth_map _ ?_ _
    exact fun _ ↦ rfl

theorem deducePointer_canonical (p : PlaceholderSource) :
    p.canonical.deducePointer =
      mapBoth DeductionError.canonical Ty.canonical p.deducePointer := by
  rw [deducePointer, deducePointer, deduce_canonical]
  cases p.deduce with
  | error e => rfl
  | ok t =>
    dsimp only [mapBoth_ok]
    rw [Ty.withoutAlias_canonical]
    cases htop : t.withoutAlias with
    | named name underlying => exact absurd htop (t.withoutAlias_ne_named name underlying)
    | pointer pointee =>
      rw [Ty.canonical_of_withoutAlias htop]
      exact congrArg Except.ok (Ty.canonical_of_withoutAlias htop).symm
    | _ =>
      rw [Ty.canonical_of_withoutAlias htop]
      exact congrArg (fun u ↦ Except.error (DeductionError.cannotDeduce (.notAPointer u)))
        (Ty.canonical_of_withoutAlias htop).symm

/-- **Deduction looks through aliases**: the type that a placeholder stands for, or the reason why
there is none, depends on the canonical types of the initializer only. -/
theorem deduceWith_canonical (p : PlaceholderSource) (declarator : List DeclaratorLayer) :
    p.canonical.deduceWith declarator =
      mapBoth DeductionError.canonical Ty.canonical (p.deduceWith declarator) := by
  rw [deduceWith.eq_def, deduceWith.eq_def]
  split
  · rfl
  · split
    · exact p.deduce_canonical
    · exact p.deduceReference_canonical
    · exact p.deducePointer_canonical
    · rfl

end PlaceholderSource

/-! ## Ranges and narrowing -/

namespace Widths

variable (w : Widths)

@[simp] theorem range?_canonical (t : Ty) : w.range? t.canonical = w.range? t := by
  induction t with
  | named _ _ ih => exact ih
  | _ => rfl

@[simp] theorem narrowing?_canonical (source : Ty) (value : Option Constant) (target : Ty) :
    w.narrowing? source.canonical value target.canonical = w.narrowing? source value target := by
  simp only [narrowing?, Ty.designated_canonical, Ty.canonical_canonical]

theorem canonical_of_narrowing? {source target : Ty} {value : Option Constant} {n : Narrowing}
    (h : w.narrowing? source value target = some n) :
    n.source.canonical = n.source ∧ n.target.canonical = n.target := by
  rw [narrowing?] at h
  split at h
  · cases h
    exact ⟨Ty.canonical_canonical _, Ty.canonical_canonical _⟩
  · cases h

@[simp] theorem convert?_canonical (t : Ty) (v : Constant) :
    w.convert? t.canonical v = w.convert? t v := by
  cases v with
  | int v => rw [convert?, convert?, range?_canonical]
  | float v => rw [convert?, convert?, Ty.isFloating_canonical]

end Widths

/-! ## Literals -/

namespace Literal

/-- The type of a literal is a built-in one, so it has no aliases. -/
theorem canonical_of_read {w : Widths} {l : Literal} {m : LiteralMeaning}
    (h : l.read w = .ok m) : m.type.canonical = m.type := by
  rcases cases_of_read h with ⟨-, hmeaning⟩ | ⟨-, hmeaning⟩ | ⟨-, hmeaning⟩
  · obtain ⟨width, sign, v, rfl, -⟩ := fits_of_integerMeaning hmeaning
    rfl
  · obtain ⟨body, units, values, -, -, -, hvalues⟩ := exists_codeUnits_of_characterMeaning hmeaning
    rcases codeUnitsMeaning_cases hvalues with ⟨unit, -, rfl⟩ | ⟨-, rfl⟩ <;> rfl
  · obtain ⟨precision, value, rfl, -⟩ := exists_of_floatingMeaning hmeaning
    rfl

end Literal

end DeclAnalysis
