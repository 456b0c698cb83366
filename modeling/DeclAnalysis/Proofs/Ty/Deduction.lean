import DeclAnalysis.Proofs.Ty.Canonical

/-!
# What placeholders stand for

A copy of a value has a type if the value has one: what is designated may be anything but `void`,
and an array is copied as a pointer (`decay_cases`). Everything that is deduced by value is the type
of a copy, or the list type over one.

The elements of a list are compared with the first of them only, and from left to right. But the
comparison is of canonical types, so a list is accepted exactly if its elements agree with one
another, and neither their order nor their spelling matters (`copyList_deduction_is_agreement`).

A list of one element right after the name is deduced like its element on its own, with one
exception: a reference to an array is then a reference to the pointer that a copy of the array would
be (`directList_singleton_deduction`).
-/

namespace DeclAnalysis

theorem map_eq_ok_iff {ε α β : Type} {f : α → β} {x : Except ε α} {b : β} :
    x.map f = .ok b ↔ ∃ a, x = .ok a ∧ f a = b := by
  constructor
  · intro hok
    rcases x with error | a
    · cases hok
    · exact ⟨a, rfl, Except.ok.inj hok⟩
  · rintro ⟨a, rfl, rfl⟩
    rfl

namespace Ty

variable {t u : Ty}

/-! ## Copies -/

theorem withoutReference_of_not_reference (ht : t.isReference = false) :
    t.withoutReference = t := by
  revert ht
  rw [isReference.eq_def, withoutReference.eq_def]
  cases t.withoutAlias with
  | reference referent => exact fun ht ↦ absurd ht.symm Bool.false_ne_true
  | _ => exact fun _ ↦ rfl

theorem withoutAlias_withoutReference (t : Ty) :
    t.withoutReference.withoutAlias = t.designated := by
  rw [withoutReference.eq_def, designated.eq_def]
  cases htop : t.withoutAlias with
  | reference referent => rfl
  | _ => exact htop

/-- **The three ways to copy**: there is no copy of `void`, the copy of an array is a pointer, and
that of anything else has its type, without a reference but with its aliases. -/
theorem decay_cases (t : Ty) :
    (t.designated = .void ∧ t.decay = .error (.cannotDeduce .voidInitializer)) ∨
    (∃ element length, t.designated = .array element length ∧ t.decay = .ok (.pointer element)) ∨
    (t.designated ≠ .void ∧ t.designated.isArray = false ∧ t.decay = .ok t.withoutReference) := by
  rw [decay.eq_def, withoutAlias_withoutReference]
  cases t.designated with
  | void => exact .inl ⟨rfl, rfl⟩
  | array element length => exact .inr (.inl ⟨element, length, rfl, rfl⟩)
  | _ => exact .inr (.inr ⟨Ty.noConfusion, rfl, rfl⟩)

theorem cases_of_decay (hdecay : t.decay = .ok u) :
    (∃ element length, t.designated = .array element length ∧ u = .pointer element) ∨
    (t.designated ≠ .void ∧ t.designated.isArray = false ∧ u = t.withoutReference) := by
  rcases t.decay_cases with
    ⟨-, hfails⟩ | ⟨element, length, harray, hpointer⟩ | ⟨hvoid, hplain, hself⟩
  · simp [hfails] at hdecay
  · exact .inl ⟨element, length, harray, Except.ok.inj (hdecay.symm.trans hpointer)⟩
  · exact .inr ⟨hvoid, hplain, Except.ok.inj (hdecay.symm.trans hself)⟩

private theorem exists_of_isArray (ht : t.isArray = true) :
    ∃ element length, t = .array element length := by
  cases t with
  | array element length => exact ⟨element, length, rfl⟩
  | _ => exact absurd ht Bool.false_ne_true

private theorem exists_decay_iff : (∃ d, t.decay = .ok d) ↔ t.designated ≠ .void := by
  rcases t.decay_cases with ⟨hvoid, hdecay⟩ | ⟨element, length, harray, hdecay⟩ | ⟨hvoid, -, hdecay⟩
  · simp [hvoid, hdecay]
  · simp [harray, hdecay]
  · simp [hvoid, hdecay]

/-- A type is collapsed if it is no reference to a reference, be it through aliases. A type in which
no reference refers to another one is collapsed, and so is every type inside it. -/
def isCollapsed (t : Ty) : Bool := !t.withoutReference.isReference

/-- A type of values is no reference, no array and not `void`, and no alias of these. -/
structure IsValue (t : Ty) : Prop where
  not_reference : t.isReference = false
  not_array : t.withoutAlias.isArray = false
  not_void : t.withoutAlias ≠ .void

namespace IsValue

private theorem withoutReference_eq (hvalue : t.IsValue) : t.withoutReference = t :=
  withoutReference_of_not_reference hvalue.not_reference

theorem designated_eq (hvalue : t.IsValue) : t.designated = t.withoutAlias := by
  rw [← withoutAlias_withoutReference, hvalue.withoutReference_eq]

private theorem decay_eq (hvalue : t.IsValue) : t.decay = .ok t := by
  rcases t.decay_cases with ⟨hvoid, -⟩ | ⟨element, length, harray, -⟩ | ⟨-, -, hdecay⟩
  · exact absurd (hvalue.designated_eq.symm.trans hvoid) hvalue.not_void
  · have hnot := hvalue.not_array
    rw [← hvalue.designated_eq, harray] at hnot
    exact absurd hnot.symm Bool.false_ne_true
  · rw [hdecay, hvalue.withoutReference_eq]

theorem pointer (pointee : Ty) : (Ty.pointer pointee).IsValue := ⟨rfl, rfl, Ty.noConfusion⟩

theorem initializerList (element : Ty) : (Ty.initializerList element).IsValue :=
  ⟨rfl, rfl, Ty.noConfusion⟩

end IsValue

theorem isValue_of_decay (ht : t.isCollapsed = true) (hdecay : t.decay = .ok u) : u.IsValue := by
  rcases cases_of_decay hdecay with ⟨element, length, -, rfl⟩ | ⟨hvoid, harray, rfl⟩
  · exact .pointer element
  · rw [← withoutAlias_withoutReference] at hvoid harray
    exact ⟨Bool.not_eq_true' _ ▸ ht, harray, hvoid⟩

/-! ## Agreement -/

/-- The canonical type of a copy, if there is one. -/
def copyType? (t : Ty) : Option Ty :=
  match t.decay with
  | .ok d => some d.canonical
  | .error _ => none

private theorem copyType?_of_decay (hdecay : t.decay = .ok u) : t.copyType? = some u.canonical := by
  rw [copyType?, hdecay]

theorem copyType?_eq_some_iff {c : Ty} :
    t.copyType? = some c ↔ ∃ d, t.decay = .ok d ∧ d.canonical = c := by
  rw [copyType?]
  rcases t.decay with error | d
  · simp
  · simp

@[simp] theorem copyType?_canonical (t : Ty) : t.canonical.copyType? = t.copyType? := by
  rw [copyType?, copyType?, decay_canonical]
  rcases t.decay with error | d
  · rfl
  · exact congrArg some d.canonical_canonical

private theorem agreeWith_eq_ok_iff {first : Ty} {types : List Ty} :
    first.agreeWith types = .ok () ↔ ∀ t ∈ types, t.copyType? = some first.canonical := by
  induction types with
  | nil => simp [agreeWith]
  | cons t rest ih =>
    rw [agreeWith, List.forall_mem_cons, copyType?_eq_some_iff]
    rcases t.decay with error | other
    · simp
    · by_cases hsame : first.same other = true
      · simp [hsame, ih, (same_iff.mp hsame).symm]
      · have hdiffer : ¬ other.canonical = first.canonical := fun h ↦ hsame (same_iff.mpr h.symm)
        simp [hsame, hdiffer]

/-- Two ways to write an element of a list that make no difference: under another name, and as a
reference if it is none already. -/
inductive Respells (t : Ty) : Ty → Prop
  | named (name : String) : t.Respells (.named name t)
  | reference (ht : t.isReference = false) : t.Respells (.reference t)

private theorem Respells.copyType?_eq (hspell : t.Respells u) : u.copyType? = t.copyType? := by
  rcases hspell with name | ht
  · rw [← copyType?_canonical (.named name t), ← copyType?_canonical t]
    rfl
  · have hdecay : (Ty.reference t).decay = t.decay := by
      rw [decay, decay, withoutReference_of_not_reference ht]
      rfl
    rw [copyType?, copyType?, hdecay]

end Ty

namespace PlaceholderSource

/-- The types of the elements of an initializer. -/
def types : PlaceholderSource → List Ty
  | .expr type => [type]
  | .copyList types => types
  | .directList types => types

/-- The canonical form of what a placeholder by value stands for, if there is such a type. -/
def canonicalType? (p : PlaceholderSource) : Option Ty :=
  match p.deduce with
  | .ok u => some u.canonical
  | .error _ => none

section Deduction

variable {p : PlaceholderSource} {ts : List Ty} {u : Ty}

theorem canonicalType?_eq_some_iff {c : Ty} :
    p.canonicalType? = some c ↔ ∃ d, p.deduce = .ok d ∧ d.canonical = c := by
  rw [canonicalType?]
  rcases p.deduce with error | d
  · simp
  · simp

private theorem deduce_copyList_eq_ok_iff :
    (copyList ts).deduce = .ok u ↔ ∃ t rest first, ts = t :: rest ∧ t.decay = .ok first ∧
      first.agreeWith rest = .ok () ∧ u = .initializerList first := by
  rcases ts with - | ⟨t, rest⟩
  · simp [deduce]
  · rw [deduce]
    rcases hdecay : t.decay with error | first
    · simp [hdecay]
    · dsimp only
      rw [map_eq_ok_iff]
      constructor
      · rintro ⟨_, hagree, rfl⟩
        exact ⟨t, rest, first, rfl, hdecay, hagree, rfl⟩
      · rintro ⟨t', rest', first', hts, hdecay', hagree, rfl⟩
        obtain ⟨rfl, rfl⟩ := List.cons.inj hts
        obtain rfl := Except.ok.inj (hdecay.symm.trans hdecay')
        exact ⟨(), hagree, rfl⟩

theorem deduce_cases (hdeduce : p.deduce = .ok u) :
    (∃ t, (p = .expr t ∨ p = .directList [t]) ∧ t.decay = .ok u) ∨
    ∃ ts first, p = .copyList ts ∧ u = .initializerList first := by
  rcases p with t | ts | ts
  · exact .inl ⟨t, .inl rfl, hdeduce⟩
  · obtain ⟨t, rest, first, -, -, -, rfl⟩ := deduce_copyList_eq_ok_iff.mp hdeduce
    exact .inr ⟨ts, first, rfl, rfl⟩
  · rcases ts with - | ⟨t, - | ⟨t', rest⟩⟩
    · simp [deduce] at hdeduce
    · exact .inl ⟨t, .inr rfl, hdeduce⟩
    · simp [deduce] at hdeduce

/-- What a list stands for is told by the types of its copies alone: there must be one, and no
other. -/
theorem canonicalType?_copyList_eq_some_iff {c : Ty} :
    (copyList ts).canonicalType? = some c ↔ ∃ element, c = .initializerList element ∧
      some element ∈ ts.map Ty.copyType? ∧ ∀ o ∈ ts.map Ty.copyType?, o = some element := by
  rw [canonicalType?_eq_some_iff]
  constructor
  · rintro ⟨d, hdeduce, rfl⟩
    obtain ⟨t, rest, first, rfl, hdecay, hagree, rfl⟩ := deduce_copyList_eq_ok_iff.mp hdeduce
    refine ⟨first.canonical, rfl, ?_⟩
    rw [List.map_cons, Ty.copyType?_of_decay hdecay, List.forall_mem_cons, List.forall_mem_map]
    exact ⟨List.mem_cons_self, rfl, Ty.agreeWith_eq_ok_iff.mp hagree⟩
  · rintro ⟨element, rfl, hmem, hall⟩
    rcases ts with - | ⟨t, rest⟩
    · exact absurd hmem List.not_mem_nil
    rw [List.map_cons, List.forall_mem_cons, List.forall_mem_map] at hall
    obtain ⟨first, hdecay, rfl⟩ := Ty.copyType?_eq_some_iff.mp hall.1
    have hagree := Ty.agreeWith_eq_ok_iff.mpr hall.2
    exact ⟨_, deduce_copyList_eq_ok_iff.mpr ⟨t, rest, first, rfl, hdecay, hagree, rfl⟩, rfl⟩

private theorem canonicalType?_copyList_congr {ts' : List Ty}
    (hsame : ∀ o, o ∈ ts'.map Ty.copyType? ↔ o ∈ ts.map Ty.copyType?) :
    (copyList ts').canonicalType? = (copyList ts).canonicalType? := by
  refine Option.ext fun c ↦ ?_
  rw [canonicalType?_copyList_eq_some_iff, canonicalType?_copyList_eq_some_iff]
  simp only [hsame]

/-- **A list is deduced exactly if its elements agree** with one another. -/
theorem exists_deduce_copyList_iff :
    (∃ u, (copyList ts).deduce = .ok u) ↔
      ts ≠ [] ∧ (∀ t ∈ ts, t.designated ≠ .void) ∧
      ∀ t ∈ ts, ∀ t' ∈ ts, ∀ d d', t.decay = .ok d → t'.decay = .ok d' → d.same d' = true := by
  constructor
  · rintro ⟨u, hdeduce⟩
    obtain ⟨element, -, hmem, hall⟩ := canonicalType?_copyList_eq_some_iff.mp
      (canonicalType?_eq_some_iff.mpr ⟨u, hdeduce, rfl⟩)
    rw [List.forall_mem_map] at hall
    have hcopy (t : Ty) (ht : t ∈ ts) : ∃ d, t.decay = .ok d ∧ d.canonical = element :=
      Ty.copyType?_eq_some_iff.mp (hall t ht)
    refine ⟨?_, fun t ht ↦ ?_, fun t ht t' ht' d d' hd hd' ↦ ?_⟩
    · rintro rfl
      exact absurd hmem List.not_mem_nil
    · obtain ⟨d, hd, -⟩ := hcopy t ht
      exact Ty.exists_decay_iff.mp ⟨d, hd⟩
    · have hsame := (hall t ht).trans (hall t' ht').symm
      rw [Ty.copyType?_of_decay hd, Ty.copyType?_of_decay hd'] at hsame
      exact Ty.same_iff.mpr (Option.some.inj hsame)
  · rintro ⟨hne, hvoid, hsame⟩
    obtain ⟨t, rest, rfl⟩ := List.exists_cons_of_ne_nil hne
    obtain ⟨first, hdecay⟩ := Ty.exists_decay_iff.mpr (hvoid t List.mem_cons_self)
    have hagree : first.agreeWith rest = .ok () := by
      refine Ty.agreeWith_eq_ok_iff.mpr fun t' ht' ↦ ?_
      have hmem : t' ∈ t :: rest := List.mem_cons_of_mem t ht'
      obtain ⟨d, hd⟩ := Ty.exists_decay_iff.mpr (hvoid t' hmem)
      have hd_same := hsame t' hmem t List.mem_cons_self d first hd hdecay
      rw [Ty.copyType?_of_decay hd, Ty.same_iff.mp hd_same]
    exact ⟨_, deduce_copyList_eq_ok_iff.mpr ⟨t, rest, first, rfl, hdecay, hagree, rfl⟩⟩

theorem isValue_of_deduce (hcollapsed : ∀ t ∈ p.types, t.isCollapsed = true)
    (hdeduce : p.deduce = .ok u) : u.IsValue := by
  rcases deduce_cases hdeduce with ⟨t, hp, hdecay⟩ | ⟨ts, first, -, rfl⟩
  · have ht : t ∈ p.types := by
      rcases hp with rfl | rfl <;> exact List.mem_cons_self
    exact Ty.isValue_of_decay (hcollapsed t ht) hdecay
  · exact .initializerList first

end Deduction

/-- **Deduction by value is agreement of copies.** A list after an equals sign

* is deduced exactly if it has elements, none of them designates `void`, and any two of their copies
  have the same type;
* then stands for a list of copies of its first element;
* keeps its canonical type, or has none as before, in any other order of its elements;
* and if any of its elements is respelled.

Whatever is deduced by value from elements that are no references to references is no reference, no
array and not `void`, and the same type is deduced from it again. -/
theorem copyList_deduction_is_agreement :
    (∀ ts : List Ty,
      ((∃ u, (copyList ts).deduce = .ok u) ↔
        ts ≠ [] ∧ (∀ t ∈ ts, t.designated ≠ .void) ∧
        ∀ t ∈ ts, ∀ t' ∈ ts, ∀ d d', t.decay = .ok d → t'.decay = .ok d' → d.same d' = true) ∧
      (∀ u, (copyList ts).deduce = .ok u → ∃ t rest first, ts = t :: rest ∧
        t.decay = .ok first ∧ u = .initializerList first) ∧
      (∀ ts', ts.Perm ts' → (copyList ts').canonicalType? = (copyList ts).canonicalType?) ∧
      ∀ front t t' back, ts = front ++ t :: back → t.Respells t' →
        (copyList (front ++ t' :: back)).canonicalType? = (copyList ts).canonicalType?) ∧
    ∀ (p : PlaceholderSource) (u : Ty), (∀ t ∈ p.types, t.isCollapsed = true) →
      p.deduce = .ok u → u.IsValue ∧ (expr u).deduce = .ok u := by
  constructor
  · intro ts
    refine ⟨exists_deduce_copyList_iff, ?_, ?_, ?_⟩
    · intro u hdeduce
      obtain ⟨t, rest, first, hts, hdecay, -, hu⟩ := deduce_copyList_eq_ok_iff.mp hdeduce
      exact ⟨t, rest, first, hts, hdecay, hu⟩
    · intro ts' hperm
      exact canonicalType?_copyList_congr fun o ↦ (hperm.map Ty.copyType?).symm.mem_iff
    · rintro front t t' back rfl hspell
      have hcopies : (front ++ t' :: back).map Ty.copyType? =
          (front ++ t :: back).map Ty.copyType? := by
        rw [List.map_append, List.map_append, List.map_cons, List.map_cons, hspell.copyType?_eq]
      exact canonicalType?_copyList_congr fun o ↦ by rw [hcopies]
  · intro p u hcollapsed hdeduce
    have hvalue := isValue_of_deduce hcollapsed hdeduce
    exact ⟨hvalue, hvalue.decay_eq⟩

theorem copyList_deduction_is_agreement_ints :
    let ts : List Ty := [.named "word" .int, .reference .int, .int]
    let u : Ty := .initializerList (.named "word" .int)
    (copyList ts).deduce = .ok u ∧
    (copyList ts.reverse).canonicalType? = (copyList ts).canonicalType? ∧
    u.IsValue ∧ (expr u).deduce = .ok u := by
  intro ts u
  have hdeduce : (copyList ts).deduce = .ok u := rfl
  obtain ⟨hlists, hagain⟩ := copyList_deduction_is_agreement
  obtain ⟨-, -, hperm, -⟩ := hlists ts
  exact ⟨hdeduce, hperm _ ts.reverse_perm.symm, hagain _ u (by decide) hdeduce⟩

/-! ## Lists of one element -/

section Singleton

variable {t element : Ty} {length : Option Nat} {declarator : List DeclaratorLayer}

private theorem deduceReference_directList_singleton (harray : t.designated.isArray = false) :
    (directList [t]).deduceReference = (expr t).deduceReference := by
  have hlist : (directList [t]).deduceReference = t.decay.map .reference := rfl
  rw [hlist, deduceReference, Ty.withoutAlias_withoutReference]
  rcases t.decay_cases with ⟨hvoid, hdecay⟩ | ⟨element, length, hdesignated, -⟩ |
    ⟨hvoid, -, hdecay⟩
  · rw [hdecay, if_pos hvoid]
    rfl
  · rw [hdesignated] at harray
    exact absurd harray.symm Bool.false_ne_true
  · rw [hdecay, if_neg hvoid]
    rfl

private theorem deduceReference_of_array (harray : t.designated = .array element length) :
    (directList [t]).deduceReference = .ok (.reference (.pointer element)) ∧
    (expr t).deduceReference = .ok (.reference t.withoutReference) := by
  have hdecay : t.decay = .ok (.pointer element) := by
    rw [Ty.decay, Ty.withoutAlias_withoutReference, harray]
  have hlist : (directList [t]).deduceReference = t.decay.map .reference := rfl
  constructor
  · rw [hlist, hdecay]
    rfl
  · rw [deduceReference, Ty.withoutAlias_withoutReference, harray, if_neg Ty.noConfusion]

private theorem deduceWith_directList_singleton
    (hkeeps : declarator = [.reference] → t.designated.isArray = false) :
    (directList [t]).deduceWith declarator = (expr t).deduceWith declarator := by
  rw [deduceWith.eq_def, deduceWith.eq_def]
  split
  · rfl
  · split
    · rfl
    · exact deduceReference_directList_singleton (hkeeps rfl)
    · rfl
    · rfl

private theorem deduceWith_reference (p : PlaceholderSource) :
    p.deduceWith [.reference] = p.deduceReference := rfl

end Singleton

/-- **A list of one element** right after the name is deduced like the element on its own, under
every declarator, but for one case: a reference placeholder whose element designates an array. Then
the expression binds to the array itself, and the list to a pointer.

So outside of that case `auto x{e}` and `auto x(e)` are declared with the same type, or are refused
for the same reason. -/
theorem directList_singleton_deduction (t : Ty) (declarator : List DeclaratorLayer) :
    ((directList [t]).deduceWith declarator = (expr t).deduceWith declarator ↔
      ¬ (declarator = [.reference] ∧ t.designated.isArray = true)) ∧
    (∀ element length, t.designated = .array element length →
      (directList [t]).deduceWith [.reference] = .ok (.reference (.pointer element)) ∧
      (expr t).deduceWith [.reference] = .ok (.reference t.withoutReference)) ∧
    ∀ (e : DeclareEvent) (init : Initializer) (o : Operand), e.declarator = declarator →
      o.type = t → ¬ (declarator = [.reference] ∧ t.designated.isArray = true) →
      { e with init := some { init with form := .directList } }.autoType [o] =
        { e with init := some { init with form := .direct } }.autoType [o] := by
  have halike (hkeeps : ¬ (declarator = [.reference] ∧ t.designated.isArray = true)) :
      (directList [t]).deduceWith declarator = (expr t).deduceWith declarator :=
    deduceWith_directList_singleton fun hreference ↦
      Bool.eq_false_iff.mpr fun harray ↦ hkeeps ⟨hreference, harray⟩
  refine ⟨⟨?_, halike⟩, fun element length harray ↦ deduceReference_of_array harray, ?_⟩
  · rintro hsame ⟨rfl, hisArray⟩
    obtain ⟨element, length, harray⟩ := Ty.exists_of_isArray hisArray
    obtain ⟨hlist, hexpr⟩ := deduceReference_of_array harray
    rw [deduceWith_reference, deduceWith_reference, hlist, hexpr] at hsame
    have hpointer : .pointer element = t.withoutReference :=
      Ty.reference.inj (Except.ok.inj hsame)
    -- behind its aliases the type would be a pointer and an array at once
    have hdesignated := t.withoutAlias_withoutReference
    rw [← hpointer, harray] at hdesignated
    exact Ty.noConfusion hdesignated
  · rintro e init o rfl rfl hkeeps
    simp only [DeclareEvent.autoType, DeclareEvent.placeholderSource, List.map_cons, List.map_nil,
      halike hkeeps]

theorem directList_singleton_deduction_alias :
    let t : Ty := .named "view" (.reference .int)
    ¬ ([DeclaratorLayer.reference] = [.reference] ∧ t.designated.isArray = true) ∧
    (directList [t]).deduceWith [.reference] = (expr t).deduceWith [.reference] :=
  ⟨by decide, (directList_singleton_deduction _ _).1.mpr (by decide)⟩

/-- With an array `a` of three integers, `auto& r{a};` makes `r` a reference to a pointer, and
`auto& r(a);` a reference to the array. -/
theorem directList_reference_decays :
    let a : Ty := .array .int (some 3)
    (directList [a]).deduceWith [.reference] = .ok (.reference (.pointer .int)) ∧
    (expr a).deduceWith [.reference] = .ok (.reference a) ∧
    (directList [a]).deduceWith [.reference] ≠ (expr a).deduceWith [.reference] := by
  intro a
  refine ⟨rfl, rfl, fun hsame ↦ ?_⟩
  exact Ty.noConfusion (Ty.reference.inj (Except.ok.inj hsame))

end PlaceholderSource

end DeclAnalysis
